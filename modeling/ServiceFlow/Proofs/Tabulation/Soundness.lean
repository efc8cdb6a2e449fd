import ServiceFlow.Proofs.Tabulation.Growth

/-!
# What tabulation finds is reached

A path edge stands for paths inside one method, with completed calls on the way.  Along such paths
the open calls do not matter, which is why a method is analyzed once for each fact at its start.
Hence every fact that a run finds is that of a configuration that is reached, whatever the bounds.
-/

namespace ServiceFlow.Tabulation

variable {μ φ : Type} {g : Graph μ} {p : Problem μ φ} {l : Limits}

/-! ### Path edges as paths -/

/-- Some start of the method is reached with the source of the path edge, and leads to its end
whatever calls are open. -/
def Justified (g : Graph μ) (p : Problem μ φ) (e : PathEdge μ φ) : Prop :=
  ∃ start ∈ g.starts e.point.method,
    (∃ stack, Reachable g p ⟨start, e.source, stack⟩) ∧
    ∀ stack, Steps g p ⟨start, e.source, stack⟩ ⟨e.point, e.fact, stack⟩

theorem Justified.reachable {e : PathEdge μ φ} (h : Justified g p e) :
  ∃ stack, Reachable g p ⟨e.point, e.fact, stack⟩
  := by
  obtain ⟨start, _, ⟨stack, hreach⟩, hsteps⟩ := h
  use stack
  apply hreach.steps (hsteps stack)

/-- A justified path edge goes on inside its method. -/
theorem Justified.extend {e : PathEdge μ φ} (h : Justified g p e) {q : Point μ} {d : φ}
    (hmethod : q.method = e.point.method)
    (hsteps : ∀ stack, Steps g p ⟨e.point, e.fact, stack⟩ ⟨q, d, stack⟩) :
  Justified g p ⟨e.source, q, d⟩
  := by
  obtain ⟨start, hstart, hreach, hpath⟩ := h
  use start
  constructor
  · rw [hmethod]
    apply hstart
  · use hreach
    intro stack
    apply (hpath stack).trans (hsteps stack)

/-- A start that is reached is a justified path edge from itself. -/
theorem Justified.of_start {q : Point μ} {d : φ} {stack : List (OpenCall μ φ)}
    (hstart : q ∈ g.starts q.method) (hreach : Reachable g p ⟨q, d, stack⟩) :
  Justified g p ⟨d, q, d⟩
  := by
  use q, hstart, ⟨stack, hreach⟩
  intro _
  apply Relation.ReflTransGen.refl

variable [DecidableEq μ] [Hashable μ] [DecidableEq φ] [Hashable φ]

/-! ### The facts are those of the path edges -/

/-- The facts at a statement are the facts of the path edges that lead there. -/
def State.Agrees (s : State μ φ) : Prop :=
  ∀ q d, d ∈ s.facts.row q ↔ ∃ source, ⟨source, q, d⟩ ∈ s.edges

theorem State.Agrees.propagate {s : State μ φ} (h : s.Agrees) (e : PathEdge μ φ) :
  (s.propagate l e).Agrees
  := by
  have hinsert : ∀ q d, (∃ source, ⟨source, q, d⟩ ∈ s.edges.insert e)
      ↔ (e.point = q ∧ d = e.fact) ∨ d ∈ s.facts.row q := by
    intro q d
    rw [h q d]
    constructor
    · rintro ⟨source, hmem⟩
      rcases Distinct.mem_insert.1 hmem with rfl | hmem
      · apply Or.inl ⟨rfl, rfl⟩
      · apply Or.inr ⟨source, hmem⟩
    · rintro (⟨rfl, rfl⟩ | ⟨source, hmem⟩)
      · use e.source
        apply Distinct.mem_insert.2 (.inl rfl)
      · use source
        apply Distinct.mem_insert.2 (.inr hmem)
  rw [State.propagate]
  split
  · apply h
  · split
    · next hold =>
      intro q d
      rw [hinsert q d]
      constructor
      · apply Or.inr
      · rintro (⟨rfl, rfl⟩ | hmem)
        · apply hold
        · apply hmem
    · split
      · apply h
      · intro q d
        rw [hinsert q d]
        apply Table.mem_row_add

theorem Action.agrees {s t : State μ φ} (h : Action g p l s t) (hs : s.Agrees) :
  t.Agrees
  := by
  cases h with
  | edge _ => apply hs.propagate
  | context _ _ => apply hs
  | ending _ _ => apply hs
  | latest _ => apply hs

theorem agrees_solve :
  (solve g p l).Agrees
  := by
  have hempty : State.Agrees ({} : State μ φ) := by
    intro q d
    simp
  apply solve_induct hempty Action.agrees
  intro s _ hs
  apply hs

/-- The facts that a run found at a statement. -/
theorem mem_factsAt_solve {q : Point μ} {d : φ} :
  d ∈ (solve g p l).factsAt q ↔ ∃ source, ⟨source, q, d⟩ ∈ (solve g p l).edges
  := by
  rw [State.factsAt, Distinct.mem_toList]
  apply agrees_solve

/-! ### What is recorded is reached -/

/-- Every record of the state stands for paths. -/
structure State.Sound (g : Graph μ) (p : Problem μ φ) (s : State μ φ) : Prop where
  edges : ∀ e ∈ s.edges, Justified g p e
  contexts : ∀ callee d c, c ∈ s.contexts.row (callee, d) → Enters g p s callee d c
  endings : ∀ m d x, x ∈ s.endings.row (m, d) → Ends g s m d x

namespace State.Sound

variable {s : State μ φ}

theorem empty :
  State.Sound g p {}
  := by
  constructor
  · intro e he
    simp at he
  · intro callee d c hc
    simp at hc
  · intro m d x hx
    simp at hx

/-- A call that is entered, seen from the called method. -/
theorem reachable_start (hs : s.Sound g p) {callee : μ} {d : φ} {c : Context μ φ}
    (hc : Enters g p s callee d c) {q : Point μ} (hq : q ∈ g.starts callee) :
  ∃ stack, Reachable g p ⟨q, d, stack⟩
  := by
  obtain ⟨stack, hreach⟩ := (hs.edges _ hc.edge).reachable
  use ⟨c.site, c.fact⟩ :: stack
  apply hreach.steps
  apply Relation.ReflTransGen.single
  apply Step.call hc.call hc.target hc.flow hq

/-- A completed call: into the method, along a path to its exit, and back. -/
theorem steps_comeBack (hs : s.Sound g p) {callee : μ} {d d' : φ}
    {c : Context μ φ} {x : Ending μ φ} {q : Point μ}
    (hc : Enters g p s callee d c) (hx : Ends g s callee d x) (hq : q ∈ g.successors c.site)
    (hd : d' ∈ p.ret c.site callee x.exit q c.fact x.fact) (stack : List (OpenCall μ φ)) :
  Steps g p ⟨c.site, c.fact, stack⟩ ⟨q, d', stack⟩
  := by
  obtain ⟨hedge, rfl, hcall, hexit⟩ := hx
  obtain ⟨start, hstart, _, hpath⟩ := hs.edges _ hedge
  apply Relation.ReflTransGen.head (Step.call hc.call hc.target hc.flow hstart)
  apply (hpath (⟨c.site, c.fact⟩ :: stack)).tail
  apply Step.ret hcall hexit hq hd

/-- Sound tables license justified path edges only. -/
theorem justified_of_licensed (hlocal : g.IsLocal) (hseeds : p.SeededAtStarts g)
    (hs : s.Sound g p) {e : PathEdge μ φ} (h : Licensed g p s e) :
  Justified g p e
  := by
  cases h with
  | seed hseed =>
      apply Justified.of_start
      · apply hseeds _ hseed
      · apply Reachable.seed hseed
  | normal hedge hcall hexit hnext hflow =>
      apply (hs.edges _ hedge).extend (hlocal.successors _ _ hnext)
      intro stack
      apply Relation.ReflTransGen.single
      apply Step.normal hcall hexit hnext hflow
  | pass hedge hcall hnext hflow =>
      apply (hs.edges _ hedge).extend (hlocal.successors _ _ hnext)
      intro stack
      apply Relation.ReflTransGen.single
      apply Step.pass hcall hnext hflow
  | start henters hstart =>
      obtain ⟨stack, hreach⟩ := hs.reachable_start henters hstart
      obtain rfl := hlocal.starts _ _ hstart
      apply Justified.of_start hstart hreach
  | comeBack hcontext hending hnext hflow =>
      -- The path of the caller goes on through the called method, under the same open calls.
      have hc := hs.contexts _ _ _ hcontext
      have hx := hs.endings _ _ _ hending
      apply (hs.edges _ hc.edge).extend (hlocal.successors _ _ hnext)
      intro stack
      apply hs.steps_comeBack hc hx hnext hflow

end State.Sound

theorem Action.sound (hlocal : g.IsLocal) (hseeds : p.SeededAtStarts g) {s t : State μ φ}
    (h : Action g p l s t) (hs : s.Sound g p) :
  t.Sound g p
  := by
  have hext := h.extends
  have hcontexts : ∀ callee d c, c ∈ s.contexts.row (callee, d) → Enters g p t callee d c := by
    intro callee d c hc
    apply hext.enters (hs.contexts callee d c hc)
  have hendings : ∀ m d x, x ∈ s.endings.row (m, d) → Ends g t m d x := by
    intro m d x hx
    apply hext.ends (hs.endings m d x hx)
  cases h with
  | latest _ => exact ⟨hs.edges, hcontexts, hendings⟩
  | edge hlicensed =>
      constructor
      · intro e he
        rcases State.mem_edges_of_mem_propagate he with rfl | he
        · apply hs.justified_of_licensed hlocal hseeds hlicensed
        · apply hs.edges e he
      · rw [State.contexts_propagate]
        apply hcontexts
      · rw [State.endings_propagate]
        apply hendings
  | context henters _ =>
      refine ⟨hs.edges, ?_, hendings⟩
      intro callee d c hc
      rcases Table.mem_row_add.1 hc with ⟨hkey, rfl⟩ | hc
      · cases hkey
        apply hext.enters henters
      · apply hcontexts callee d c hc
  | ending hends _ =>
      refine ⟨hs.edges, hcontexts, ?_⟩
      intro m d x hx
      rcases Table.mem_row_add.1 hx with ⟨hkey, rfl⟩ | hx
      · cases hkey
        apply hext.ends hends
      · apply hendings m d x hx

theorem sound_solve (hlocal : g.IsLocal) (hseeds : p.SeededAtStarts g) :
  (solve g p l).Sound g p
  := by
  apply solve_induct State.Sound.empty (Action.sound hlocal hseeds)
  intro s _ hs
  have hext := s.extends_take
  constructor
  · apply hs.edges
  · intro callee d c hc
    apply hext.enters (hs.contexts callee d c hc)
  · intro m d x hx
    apply hext.ends (hs.endings m d x hx)

/-- Whatever the bounds, a fact found at a statement is that of a configuration. -/
theorem reachable_of_mem_factsAt (hlocal : g.IsLocal) (hseeds : p.SeededAtStarts g)
    {q : Point μ} {d : φ} (h : d ∈ (solve g p l).factsAt q) :
  ∃ stack, Reachable g p ⟨q, d, stack⟩
  := by
  obtain ⟨source, hedge⟩ := mem_factsAt_solve.1 h
  apply ((sound_solve hlocal hseeds).edges _ hedge).reachable

end ServiceFlow.Tabulation
