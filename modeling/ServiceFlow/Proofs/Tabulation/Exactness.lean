import ServiceFlow.Proofs.Tabulation.Evaluation
import ServiceFlow.Proofs.Tabulation.Soundness

/-!
# Tabulation is exact

A path edge is settled once everything that follows from it is recorded, and whichever of a context
and an ending comes second connects the two.  When a run ends with no path edge left and nothing
dropped, all of its path edges are settled; a configuration is then found by following its open
calls down the contexts.  Together with soundness, tabulation finds exactly what is reached.
-/

namespace ServiceFlow.Tabulation

variable {μ φ : Type} [DecidableEq μ] [Hashable μ] [DecidableEq φ] [Hashable φ]
variable {g : Graph μ} {p : Problem μ φ} {l : Limits}

/-! ### What is recorded for a path edge -/

/-- What follows from a path edge by itself is recorded. -/
structure Settled (g : Graph μ) (p : Problem μ φ) (s : State μ φ) (e : PathEdge μ φ) : Prop where
  normal : g.isCall e.point = false → g.isExit e.point = false →
    ∀ q ∈ g.successors e.point, ∀ d ∈ p.normal e.point q e.fact, ⟨e.source, q, d⟩ ∈ s.edges
  pass : g.isCall e.point = true →
    ∀ q ∈ g.successors e.point, ∀ d ∈ p.pass e.point q e.fact, ⟨e.source, q, d⟩ ∈ s.edges
  starts : g.isCall e.point = true → ∀ callee ∈ g.callees e.point,
    ∀ d ∈ p.call e.point callee e.fact, ∀ q ∈ g.starts callee, ⟨d, q, d⟩ ∈ s.edges
  context : g.isCall e.point = true → ∀ callee ∈ g.callees e.point,
    ∀ d ∈ p.call e.point callee e.fact,
      ⟨e.point, e.source, e.fact⟩ ∈ s.contexts.row (callee, d)
  ending : g.isCall e.point = false → g.isExit e.point = true →
    ⟨e.point, e.fact⟩ ∈ s.endings.row (e.point.method, e.source)

/-- Every context is connected with every ending of the same method entered with the same fact. -/
def Connected (g : Graph μ) (p : Problem μ φ) (s : State μ φ) : Prop :=
  ∀ callee d, ∀ c ∈ s.contexts.row (callee, d), ∀ x ∈ s.endings.row (callee, d),
    ∀ q ∈ g.successors c.site, ∀ d' ∈ p.ret c.site callee x.exit q c.fact x.fact,
      ⟨c.source, q, d'⟩ ∈ s.edges

theorem Settled.mono {s t : State μ φ} {e : PathEdge μ φ} (h : Settled g p s e)
    (hst : s.Extends t) :
  Settled g p t e
  := by
  constructor
  · intro hcall hexit q hq d hd
    apply hst.mem_edges (h.normal hcall hexit q hq d hd)
  · intro hcall q hq d hd
    apply hst.mem_edges (h.pass hcall q hq d hd)
  · intro hcall callee hcallee d hd q hq
    apply hst.mem_edges (h.starts hcall callee hcallee d hd q hq)
  · intro hcall callee hcallee d hd
    apply hst.mem_contexts (h.context hcall callee hcallee d hd)
  · intro hcall hexit
    apply hst.mem_endings (h.ending hcall hexit)

/-! ### What keeps the records -/

/-- A fold of operations that leave a part of the state alone does so too. -/
theorem foldl_keeps {α β : Type} (part : State μ φ → β) {f : State μ φ → α → State μ φ}
    (h : ∀ s a, part (f s a) = part s) (as : List α) (s : State μ φ) :
  part (as.foldl f s) = part s
  := by
  induction as generalizing s with
  | nil => rfl
  | cons a as ih =>
      rw [List.foldl_cons, ih, h]

/-- The contexts and the endings of a state. -/
def State.records (s : State μ φ) :
    Table (μ × φ) (Context μ φ) × Table (μ × φ) (Ending μ φ) :=
  (s.contexts, s.endings)

@[simp] theorem records_propagate (s : State μ φ) (e : PathEdge μ φ) :
  (s.propagate l e).records = s.records
  := by
  rw [State.records, State.contexts_propagate, State.endings_propagate, State.records]

@[simp] theorem records_emit (s : State μ φ) (source : φ) (next : Point μ) (facts : List φ) :
  (s.emit l source next facts).records = s.records
  := by
  have hfold := foldl_keeps State.records
    (f := fun s d => s.propagate l ⟨source, next, d⟩) (fun s _ => records_propagate s _) facts s
  rw [State.emit]
  split
  · apply hfold
  · apply hfold

@[simp] theorem records_comeBack (callee : μ) (c : Context μ φ) (x : Ending μ φ) (s : State μ φ) :
  (comeBack g p l callee c x s).records = s.records
  := by
  apply foldl_keeps State.records
  intro s q
  apply records_emit

@[simp] theorem records_passBy (e : PathEdge μ φ) (s : State μ φ) :
  (passBy g p l e s).records = s.records
  := by
  apply foldl_keeps State.records
  intro s q
  apply records_emit

@[simp] theorem records_step (e : PathEdge μ φ) (s : State μ φ) :
  (step g p l e s).records = s.records
  := by
  apply foldl_keeps State.records
  intro s q
  apply records_emit

/-- As long as no context and no ending is recorded, connections stay. -/
theorem Connected.of_records {s t : State μ φ} (h : Connected g p s) (hst : s.Extends t)
    (hrecords : t.records = s.records) :
  Connected g p t
  := by
  obtain ⟨hcontexts, hendings⟩ := Prod.mk.inj hrecords
  intro callee d c hc x hx q hq d' hd'
  rw [hcontexts] at hc
  rw [hendings] at hx
  apply hst.mem_edges (h callee d c hc x hx q hq d' hd')

/-! ### Calls -/

section Operations

variable {s : State μ φ} {e : PathEdge μ φ} {callee : μ} {d : φ}

/-- Coming back leaves the path edges behind the call. -/
theorem mem_edges_comeBack {c : Context μ φ} {x : Ending μ φ}
    (hc : c ∈ s.contexts.row (callee, d)) (hx : x ∈ s.endings.row (callee, d))
    (hdropped : (comeBack g p l callee c x s).dropped = 0)
    {q : Point μ} (hq : q ∈ g.successors c.site)
    {d' : φ} (hd' : d' ∈ p.ret c.site callee x.exit q c.fact x.fact) :
  ⟨c.source, q, d'⟩ ∈ (comeBack g p l callee c x s).edges
  := by
  apply mem_edges_emit_all (g := g) (p := p) _ hdropped hq hd'
  intro q hq d' hd'
  apply Licensed.comeBack hc hx hq hd'

theorem mem_edges_enter (h : Enters g p s callee d ⟨e.point, e.source, e.fact⟩)
    (hdropped : (enter g p l e callee s d).dropped = 0) {q : Point μ} (hq : q ∈ g.starts callee) :
  ⟨d, q, d⟩ ∈ (enter g p l e callee s d).edges
  := by
  obtain ⟨t, _, hgrows⟩ := exists_grows_of_mem (l := l)
    (f := fun s q => s.propagate l ⟨d, q, d⟩)
    (fun t ht q hq => grows_propagate (Licensed.start (ht.enters h) hq)) hq
  have hext := hgrows.extends.trans (grows_enter_of_starts h).extends
  apply hext.mem_edges
  apply State.mem_edges_propagate
  apply hext.dropped_eq_zero hdropped

theorem mem_contexts_enter :
  ⟨e.point, e.source, e.fact⟩ ∈ (enter g p l e callee s d).contexts.row (callee, d)
  := by
  rw [enter]
  split
  · next hold => apply hold
  · rw [foldl_keeps State.contexts (fun s x => (Prod.mk.inj (records_comeBack callee _ x s)).1)]
    apply Table.mem_row_add.2 (.inl ⟨rfl, rfl⟩)

theorem mem_endings_leave :
  ⟨e.point, e.fact⟩ ∈ (leave g p l e s).endings.row (e.point.method, e.source)
  := by
  rw [leave]
  split
  · next hold => apply hold
  · rw [foldl_keeps State.endings
      (fun s c => (Prod.mk.inj (records_comeBack e.point.method c _ s)).2)]
    apply Table.mem_row_add.2 (.inl ⟨rfl, rfl⟩)

/-- The path edges behind a call, for one of its contexts and one ending of the called method. -/
def Joined (g : Graph μ) (p : Problem μ φ) (s : State μ φ) (callee : μ) (c : Context μ φ)
    (x : Ending μ φ) : Prop :=
  ∀ q ∈ g.successors c.site, ∀ d' ∈ p.ret c.site callee x.exit q c.fact x.fact,
    ⟨c.source, q, d'⟩ ∈ s.edges

/-- To come back for pairs of contexts and endings connects everything, if the other pairs were
joined before. -/
theorem Connected.foldl_comeBack {α : Type} {as : List α} {f : α → Context μ φ × Ending μ φ}
    (hmem : ∀ a ∈ as, (f a).1 ∈ s.contexts.row (callee, d) ∧ (f a).2 ∈ s.endings.row (callee, d))
    (hpairs : ∀ callee' d₁, ∀ c ∈ s.contexts.row (callee', d₁),
      ∀ x ∈ s.endings.row (callee', d₁),
        (callee' = callee ∧ ∃ a ∈ as, f a = (c, x)) ∨ Joined g p s callee' c x)
    (hdropped : (as.foldl (fun s a => comeBack g p l callee (f a).1 (f a).2 s) s).dropped = 0) :
  Connected g p (as.foldl (fun s a => comeBack g p l callee (f a).1 (f a).2 s) s)
  := by
  have hstep : ∀ t, s.Extends t → ∀ a ∈ as,
      Grows g p l t (comeBack g p l callee (f a).1 (f a).2 t) := by
    intro t ht a ha
    apply grows_comeBack (ht.mem_contexts (hmem a ha).1) (ht.mem_endings (hmem a ha).2)
  obtain ⟨hcontexts, hendings⟩ := Prod.mk.inj
    (foldl_keeps State.records (fun s a => records_comeBack callee (f a).1 (f a).2 s) as s)
  intro callee' d₁ c hc x hx q hq d' hd'
  rw [hcontexts] at hc
  rw [hendings] at hx
  rcases hpairs callee' d₁ c hc x hx with ⟨rfl, a, ha, hfa⟩ | hjoined
  · -- The pair is joined in some state on the way, and nothing is taken back later.
    obtain ⟨t, ht, hgrows⟩ := exists_grows_of_mem hstep ha
    have hundropped := hgrows.extends.dropped_eq_zero hdropped
    have hcontext := ht.mem_contexts (hmem a ha).1
    have hending := ht.mem_endings (hmem a ha).2
    apply hgrows.extends.mem_edges
    rw [hfa] at hundropped hcontext hending ⊢
    apply mem_edges_comeBack hcontext hending hundropped hq hd'
  · apply (grows_foldl hstep).extends.mem_edges (hjoined q hq d' hd')

/-- A new context is connected with the endings known before. -/
theorem Connected.add_context (hs : Connected g p s) {c : Context μ φ} (reuses : Nat)
    (hdropped : ((s.endings.row (callee, d)).toList.foldl
      (fun s x => comeBack g p l callee c x s)
      { s with contexts := s.contexts.add (callee, d) c, reuses := reuses }).dropped = 0) :
  Connected g p ((s.endings.row (callee, d)).toList.foldl
    (fun s x => comeBack g p l callee c x s)
    { s with contexts := s.contexts.add (callee, d) c, reuses := reuses })
  := by
  apply Connected.foldl_comeBack (d := d) (f := fun x => (c, x)) _ _ hdropped
  · intro x hx
    use Table.mem_row_add.2 (.inl ⟨rfl, rfl⟩), Distinct.mem_toList.1 hx
  · intro callee' d₁ c' hc' x hx
    rcases Table.mem_row_add.1 hc' with ⟨hkey, rfl⟩ | hc'
    · cases hkey
      apply Or.inl ⟨rfl, x, Distinct.mem_toList.2 hx, rfl⟩
    · apply Or.inr (hs callee' d₁ c' hc' x hx)

/-- A new ending is connected with the contexts known before. -/
theorem Connected.add_ending (hs : Connected g p s) {x : Ending μ φ} (ended : Nat)
    (hdropped : ((s.contexts.row (callee, d)).toList.foldl
      (fun s c => comeBack g p l callee c x s)
      { s with endings := s.endings.add (callee, d) x, ended := ended }).dropped = 0) :
  Connected g p ((s.contexts.row (callee, d)).toList.foldl
    (fun s c => comeBack g p l callee c x s)
    { s with endings := s.endings.add (callee, d) x, ended := ended })
  := by
  apply Connected.foldl_comeBack (d := d) (f := fun c => (c, x)) _ _ hdropped
  · intro c hc
    use Distinct.mem_toList.1 hc
    apply Table.mem_row_add.2 (.inl ⟨rfl, rfl⟩)
  · intro callee' d₁ c hc x' hx'
    rcases Table.mem_row_add.1 hx' with ⟨hkey, rfl⟩ | hx'
    · cases hkey
      apply Or.inl ⟨rfl, c, Distinct.mem_toList.2 hc, rfl⟩
    · apply Or.inr (hs callee' d₁ c hc x' hx')

theorem Connected.enter (hs : Connected g p s)
    (h : Enters g p s callee d ⟨e.point, e.source, e.fact⟩)
    (hdropped : (enter g p l e callee s d).dropped = 0) :
  Connected g p (enter g p l e callee s d)
  := by
  have hstarts : Connected g p
      ((g.starts callee).foldl (fun s q => s.propagate l ⟨d, q, d⟩) s) := by
    apply hs.of_records (grows_starts h).extends
    apply foldl_keeps State.records
    intro s q
    apply records_propagate
  rw [Tabulation.enter] at hdropped ⊢
  split
  · apply hstarts
  · next hnew =>
    rw [if_neg hnew] at hdropped
    apply hstarts.add_context _ hdropped

theorem Connected.leave (hs : Connected g p s) (hdropped : (leave g p l e s).dropped = 0) :
  Connected g p (leave g p l e s)
  := by
  rw [Tabulation.leave] at hdropped ⊢
  split
  · apply hs
  · next hnew =>
    rw [if_neg hnew] at hdropped
    apply hs.add_ending _ hdropped

/-- A fold that drops nothing keeps what each of its steps keeps when it drops nothing. -/
theorem foldl_keeps_of_undropped {α : Type} {f : State μ φ → α → State μ φ} {as : List α}
    {P : State μ φ → Prop} (hf : ∀ t, s.Extends t → ∀ a ∈ as, Grows g p l t (f t a))
    (hP : ∀ t, s.Extends t → ∀ a ∈ as, (f t a).dropped = 0 → P t → P (f t a))
    (hdropped : (as.foldl f s).dropped = 0) (hs : P s) :
  P (as.foldl f s)
  := by
  induction as generalizing s with
  | nil => apply hs
  | cons a as ih =>
      have hhead := hf s (.refl s) a List.mem_cons_self
      have htail : ∀ t, (f s a).Extends t → ∀ b ∈ as, Grows g p l t (f t b) := by
        intro t ht b hb
        apply hf t (hhead.extends.trans ht) b (List.mem_cons_of_mem a hb)
      apply ih htail _ hdropped
      · apply hP s (.refl s) a List.mem_cons_self _ hs
        apply (grows_foldl htail).extends.dropped_eq_zero hdropped
      · intro t ht b hb
        apply hP t (hhead.extends.trans ht) b (List.mem_cons_of_mem a hb)

/-- Every called method is entered on the way. -/
theorem exists_grows_enter (he : e ∈ s.edges) (hcall : g.isCall e.point = true)
    (hcallee : callee ∈ g.callees e.point) (hd : d ∈ p.call e.point callee e.fact) :
  ∃ t, s.Extends t ∧ Grows g p l (enter g p l e callee t d) (callOut g p l e s)
  := by
  obtain ⟨t, ht, houter⟩ := exists_grows_of_mem (g := g) (p := p) (l := l)
    (f := fun s m => (p.call e.point m e.fact).foldl (enter g p l e m) s)
    (fun t ht m hm => grows_foldl fun u hu d hd =>
      grows_enter (enters_of_edge he hcall hm hd (ht.trans hu))) hcallee
  obtain ⟨u, hu, hinner⟩ := exists_grows_of_mem (g := g) (p := p) (l := l)
    (f := enter g p l e callee)
    (fun u hu d hd => grows_enter (enters_of_edge he hcall hcallee hd (ht.trans hu))) hd
  use u, ht.trans hu
  apply (hinner.trans houter).trans
  apply grows_passBy _ hcall
  apply (grows_callees he hcall).extends.mem_edges he

theorem Connected.callOut (hs : Connected g p s) (he : e ∈ s.edges)
    (hcall : g.isCall e.point = true) (hdropped : (callOut g p l e s).dropped = 0) :
  Connected g p (callOut g p l e s)
  := by
  have hpass := grows_passBy (p := p) (l := l)
    ((grows_callees (p := p) (l := l) he hcall).extends.mem_edges he) hcall
  apply Connected.of_records _ hpass.extends (records_passBy e _)
  apply foldl_keeps_of_undropped (g := g) (p := p) (l := l) _ _
    (hpass.extends.dropped_eq_zero hdropped) hs
  · intro t ht m hm
    apply grows_foldl
    intro u hu d hd
    apply grows_enter (enters_of_edge he hcall hm hd (ht.trans hu))
  · intro t ht m hm hdropped hconnected
    apply foldl_keeps_of_undropped (g := g) (p := p) (l := l) _ _ hdropped hconnected
    · intro u hu d hd
      apply grows_enter (enters_of_edge he hcall hm hd (ht.trans hu))
    · intro u hu d hd hdropped hconnected
      apply hconnected.enter (enters_of_edge he hcall hm hd (ht.trans hu)) hdropped

theorem Connected.process (hs : Connected g p s) (he : e ∈ s.edges)
    (hdropped : (process g p l e s).dropped = 0) :
  Connected g p (process g p l e s)
  := by
  rw [Tabulation.process] at hdropped ⊢
  split
  · next hcall =>
    rw [if_pos hcall] at hdropped
    apply hs.callOut he hcall hdropped
  · next hcall =>
    rw [if_neg hcall] at hdropped
    split
    · next hexit =>
      rw [if_pos hexit] at hdropped
      apply hs.leave hdropped
    · next hexit =>
      apply hs.of_records _ (records_step e s)
      apply (grows_step he (Bool.eq_false_iff.2 hcall) (Bool.eq_false_iff.2 hexit)).extends

/-- A path edge that was processed without a drop is settled. -/
theorem settled_process (he : e ∈ s.edges) (hdropped : (process g p l e s).dropped = 0) :
  Settled g p (process g p l e s) e
  := by
  constructor
  · intro hcall hexit q hq d hd
    rw [process, hcall, hexit] at hdropped ⊢
    apply mem_edges_emit_all (g := g) (p := p) _ hdropped hq hd
    intro q hq d hd
    apply Licensed.normal he hcall hexit hq hd
  · intro hcall q hq d hd
    rw [process, if_pos hcall] at hdropped ⊢
    apply mem_edges_emit_all (g := g) (p := p) _ hdropped hq hd
    intro q hq d hd
    apply Licensed.pass ((grows_callees he hcall).extends.mem_edges he) hcall hq hd
  · intro hcall callee hcallee d hd q hq
    rw [process, if_pos hcall] at hdropped ⊢
    obtain ⟨t, ht, hgrows⟩ := exists_grows_enter (l := l) he hcall hcallee hd
    apply hgrows.extends.mem_edges
    apply mem_edges_enter (enters_of_edge he hcall hcallee hd ht) _ hq
    apply hgrows.extends.dropped_eq_zero hdropped
  · intro hcall callee hcallee d hd
    rw [process, if_pos hcall]
    obtain ⟨t, ht, hgrows⟩ := exists_grows_enter (l := l) he hcall hcallee hd
    apply hgrows.extends.mem_contexts
    apply mem_contexts_enter
  · intro hcall hexit
    rw [process, hcall, hexit]
    apply mem_endings_leave

end Operations

/-! ### The end of a run -/

/-- The path edges taken up are settled, and the contexts are connected with the endings. -/
structure Closed (g : Graph μ) (p : Problem μ φ) (s : State μ φ) : Prop where
  settled : ∀ i < s.taken, ∀ e, s.edges.toList[i]? = some e → Settled g p s e
  connected : Connected g p s

theorem Closed.of_seeds :
  Closed g p (seeded p l)
  := by
  have hgrows := grows_seeded (g := g) (p := p) (l := l)
  have hrecords : (seeded p l).records = State.records {} := by
    apply foldl_keeps State.records
    intro s e
    apply records_propagate
  constructor
  · intro i hi
    rw [hgrows.taken] at hi
    cases hi
  · apply Connected.of_records _ hgrows.extends hrecords
    intro callee d c hc
    simp at hc

theorem Closed.process {s : State μ φ} (hs : Closed g p s) (hlt : s.taken < s.edges.toList.length)
    (hdropped : (process g p l s.edges.toList[s.taken]
      { s with taken := s.taken + 1 }).dropped = 0) :
  Closed g p (process g p l s.edges.toList[s.taken] { s with taken := s.taken + 1 })
  := by
  have hmem : s.edges.toList[s.taken] ∈ s.edges := by
    rw [← Distinct.mem_toList]
    apply List.getElem_mem
  have hgrows := grows_process (g := g) (p := p) (l := l) (s.extends_take.mem_edges hmem)
  have hext := s.extends_take.trans hgrows.extends
  constructor
  · intro i hi e he
    rw [hgrows.taken] at hi
    have hold := List.prefix_iff_getElem?.1 hext.edges
    -- The path edges taken before stay settled, and the last one was processed just now.
    rcases Nat.lt_succ_iff_lt_or_eq.1 hi with hi | rfl
    · rw [hold i (Nat.lt_trans hi hlt)] at he
      apply (hs.settled i hi e _).mono hext
      rw [← he]
      apply List.getElem?_eq_getElem
    · rw [hold s.taken hlt] at he
      obtain rfl := Option.some.inj he
      apply settled_process (s.extends_take.mem_edges hmem) hdropped
  · apply Connected.process _ (s.extends_take.mem_edges hmem) hdropped
    apply hs.connected.of_records s.extends_take rfl

theorem Closed.run (n : Nat) {s : State μ φ} (hs : Closed g p s)
    (hdropped : (run g p l n s).dropped = 0) :
  Closed g p (run g p l n s)
  := by
  induction n generalizing s with
  | zero => apply hs
  | succ n ih =>
      rw [Tabulation.run, Distinct.getElem?_items] at hdropped ⊢
      split
      · next e he =>
        rw [he] at hdropped
        obtain ⟨hlt, rfl⟩ := List.getElem?_eq_some_iff.1 he
        apply ih _ hdropped
        apply hs.process hlt
        apply (extends_run n _).dropped_eq_zero hdropped
      · apply hs

/-- A run that was not cut short has settled all its path edges. -/
structure Complete (g : Graph μ) (p : Problem μ φ) (s : State μ φ) : Prop where
  seeds : ∀ e ∈ p.seeds, ⟨e.2, e.1, e.2⟩ ∈ s.edges
  settled : ∀ e ∈ s.edges, Settled g p s e
  connected : Connected g p s

theorem complete_solve (h : (solve g p l).truncated = false) :
  Complete g p (solve g p l)
  := by
  rw [State.truncated, Bool.or_eq_false_iff, decide_eq_false_iff_not,
    decide_eq_false_iff_not] at h
  obtain ⟨hdropped, htaken⟩ := h
  have hdropped : (solve g p l).dropped = 0 := Nat.eq_zero_of_not_pos hdropped
  have hclosed : Closed g p (solve g p l) := Closed.of_seeds.run _ hdropped
  constructor
  · intro e he
    obtain ⟨t, _, hgrows⟩ := exists_grows_of_mem (g := g) (p := p) (l := l) (s := {})
      (f := fun s e => s.propagate l ⟨e.2, e.1, e.2⟩)
      (fun t ht e he => grows_propagate (Licensed.seed he)) he
    have hext := hgrows.extends.trans (extends_run (g := g) (p := p) (l := l) l.iterations _)
    apply hext.mem_edges
    apply State.mem_edges_propagate
    apply hext.dropped_eq_zero hdropped
  · intro e he
    rw [← Distinct.mem_toList] at he
    obtain ⟨i, hi, rfl⟩ := List.getElem_of_mem he
    apply hclosed.settled i
    · rw [Distinct.size_eq_length] at htaken
      apply Nat.lt_of_lt_of_le hi (Nat.le_of_not_lt htaken)
    · apply List.getElem?_eq_getElem
  · apply hclosed.connected

/-! ### What is reached is recorded -/

/-- The open calls are among the contexts, the innermost among those of the method entered with
the fact. -/
def Traced (s : State μ φ) : μ → φ → List (OpenCall μ φ) → Prop
  | _, _, [] => True
  | m, d, top :: stack =>
      ∃ source, ⟨top.site, source, top.fact⟩ ∈ s.contexts.row (m, d)
        ∧ Traced s top.site.method source stack

/-- Some path edge leads to the configuration, from a source that its open calls have entered. -/
def Found (s : State μ φ) (c : Config μ φ) : Prop :=
  ∃ source, ⟨source, c.point, c.fact⟩ ∈ s.edges ∧ Traced s c.point.method source c.stack

theorem Complete.found_step (hlocal : g.IsLocal) {s : State μ φ} (hs : Complete g p s)
    {c c' : Config μ φ} (hstep : Step g p c c') (hc : Found s c) :
  Found s c'
  := by
  obtain ⟨source, hedge, htraced⟩ := hc
  have hsettled := hs.settled _ hedge
  cases hstep with
  | @normal q next d d' stack hcall hexit hnext hflow =>
      use source, hsettled.normal hcall hexit next hnext d' hflow
      rw [hlocal.successors q next hnext]
      apply htraced
  | @pass q next d d' stack hcall hnext hflow =>
      use source, hsettled.pass hcall next hnext d' hflow
      rw [hlocal.successors q next hnext]
      apply htraced
  | @call q start callee d d' stack hcall hcallee hflow hstart =>
      use d', hsettled.starts hcall callee hcallee d' hflow start hstart
      rw [hlocal.starts callee start hstart]
      use source, hsettled.context hcall callee hcallee d' hflow
  | @ret exit next d d' top stack hcall hexit hnext hflow =>
      -- The open call is a context of the method, and the path edge has become one of its endings.
      obtain ⟨outer, hcontext, htraced⟩ := htraced
      have hending := hsettled.ending hcall hexit
      use outer, hs.connected _ _ _ hcontext _ hending next hnext d' hflow
      rw [hlocal.successors top.site next hnext]
      apply htraced

theorem Complete.found (hlocal : g.IsLocal) {s : State μ φ} (hs : Complete g p s)
    {c : Config μ φ} (hc : Reachable g p c) :
  Found s c
  := by
  apply hc.induct
  · intro e he
    use e.2, hs.seeds e he
    trivial
  · intro c c' _ hstep hfound
    apply hs.found_step hlocal hstep hfound

/-- If no bound cut the run short, the fact of every configuration is found. -/
theorem mem_factsAt_of_reachable (hlocal : g.IsLocal) (h : (solve g p l).truncated = false)
    {c : Config μ φ} (hc : Reachable g p c) :
  c.fact ∈ (solve g p l).factsAt c.point
  := by
  obtain ⟨source, hedge, _⟩ := (complete_solve h).found hlocal hc
  apply mem_factsAt_solve.2 ⟨source, hedge⟩

/-- Tabulation finds only facts that are reached along paths with matching calls and returns, and
finds all of them if no bound cut it short. -/
theorem factsAt_solve_exact (g : Graph μ) (p : Problem μ φ) (hlocal : g.IsLocal)
    (hseeds : p.SeededAtStarts g) (l : Limits) (q : Point μ) (d : φ) :
  (d ∈ (solve g p l).factsAt q → ∃ stack, Reachable g p ⟨q, d, stack⟩) ∧
  ((solve g p l).truncated = false →
    (∃ stack, Reachable g p ⟨q, d, stack⟩) → d ∈ (solve g p l).factsAt q)
  := by
  constructor
  · apply reachable_of_mem_factsAt hlocal hseeds
  · rintro htruncated ⟨stack, hreach⟩
    apply mem_factsAt_of_reachable hlocal htruncated hreach

/-- A method that calls itself and adds a fact on the way, called once. -/
def Tabular.recursive : Tabular where
  methods := [
    { name := "main", successors := [[1], []], exits := [1], calls := [(0, ["f"])] },
    { name := "f", successors := [[1, 2], [2], []], exits := [2], calls := [(1, ["f"])],
      flow := [(0, ⟨[("a", ["a", "b"])]⟩), (1, ⟨[("a", []), ("b", [])]⟩)] }]
  seeds := [(⟨"main", 0⟩, "a")]

theorem Tabular.truncated_recursive :
  (solve recursive.graph recursive.problem ⟨20, 3⟩).truncated = false
  := by
  rw [truncated_solve]
  decide +kernel

/-- The fact added inside the recursion comes back behind the first call. -/
theorem factsAt_recursive_exact :
  Tabular.recursive.graph.IsLocal ∧
  Tabular.recursive.problem.SeededAtStarts Tabular.recursive.graph ∧
  (solve Tabular.recursive.graph Tabular.recursive.problem ⟨20, 3⟩).truncated = false ∧
  ("b" ∈ (solve Tabular.recursive.graph Tabular.recursive.problem ⟨20, 3⟩).factsAt ⟨"main", 1⟩ ↔
    ∃ stack, Reachable Tabular.recursive.graph Tabular.recursive.problem
      ⟨⟨"main", 1⟩, "b", stack⟩)
  := by
  have hseeds : Tabular.recursive.problem.SeededAtStarts Tabular.recursive.graph := by
    decide
  have hexact := factsAt_solve_exact Tabular.recursive.graph Tabular.recursive.problem
    (Tabular.graph_isLocal _) hseeds ⟨20, 3⟩ ⟨"main", 1⟩ "b"
  use Tabular.graph_isLocal _, hseeds, Tabular.truncated_recursive, hexact.1
  apply hexact.2 Tabular.truncated_recursive

end ServiceFlow.Tabulation
