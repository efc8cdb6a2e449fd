import ServiceFlow.Proofs.Tabulation.Configuration

/-!
# How the tables grow

Everything that is done to the tables for a path edge is a sequence of small actions: a path edge
is propagated, a context or an ending is recorded.  Each action is licensed by what the tables hold
already.  The tables only grow, and every invariant of a run is one of its actions.
-/

namespace ServiceFlow

/-! ### Rows -/

namespace Distinct

variable {α : Type} [DecidableEq α] [Hashable α]

theorem toList_isPrefix_insert (d : Distinct α) (a : α) :
  d.toList <+: (d.insert a).toList
  := by
  rw [toList_insert]
  split
  · apply List.prefix_rfl
  · apply List.prefix_append

theorem size_eq_length (d : Distinct α) :
  d.size = d.toList.length
  := by
  rw [size, toList, Array.length_toList]

@[simp] theorem size_empty :
  (empty : Distinct α).size = 0
  := rfl

theorem size_insert (d : Distinct α) (a : α) :
  (d.insert a).size = if a ∈ d then d.size else d.size + 1
  := by
  rw [size_eq_length, toList_insert, size_eq_length]
  split
  · rfl
  · simp

theorem getElem?_items (d : Distinct α) (i : Nat) :
  d.items[i]? = d.toList[i]?
  := by
  rw [toList, Array.getElem?_toList]

end Distinct

namespace Table

variable {κ α : Type} [DecidableEq κ] [Hashable κ] [DecidableEq α] [Hashable α]

theorem row_isPrefix_add (t : Table κ α) (k l : κ) (a : α) :
  (t.row l).toList <+: ((t.add k a).row l).toList
  := by
  rw [row_add]
  split
  · apply Distinct.toList_isPrefix_insert
  · apply List.prefix_rfl

theorem mem_row_add {t : Table κ α} {k l : κ} {a b : α} :
  b ∈ (t.add k a).row l ↔ (k = l ∧ b = a) ∨ b ∈ t.row l
  := by
  rw [row_add]
  split
  · next h => simp [h]
  · next h => simp [h]

/-- A row with room for one more element takes it. -/
theorem size_row_add_le {t : Table κ α} {n : Nat} (h : ∀ k, (t.row k).size ≤ n) {k : κ} {a : α}
    (hroom : (t.row k).size < n) (l : κ) :
  ((t.add k a).row l).size ≤ n
  := by
  rw [row_add]
  split
  · next hkl =>
    subst hkl
    rw [Distinct.size_insert]
    split
    · apply h
    · apply hroom
  · apply h

end Table

namespace Tabulation

variable {μ φ : Type} [DecidableEq μ] [Hashable μ] [DecidableEq φ] [Hashable φ]
variable (g : Graph μ) (p : Problem μ φ) (l : Limits)

/-! ### Actions -/

/-- The context is a call that enters the method with the fact. -/
structure Enters (s : State μ φ) (callee : μ) (d : φ) (c : Context μ φ) : Prop where
  edge : ⟨c.source, c.site, c.fact⟩ ∈ s.edges
  call : g.isCall c.site = true
  target : callee ∈ g.callees c.site
  flow : d ∈ p.call c.site callee c.fact

/-- The ending is an exit that the method reaches when it is entered with the fact. -/
structure Ends (s : State μ φ) (m : μ) (d : φ) (x : Ending μ φ) : Prop where
  edge : ⟨d, x.exit, x.fact⟩ ∈ s.edges
  method : x.exit.method = m
  call : g.isCall x.exit = false
  exit : g.isExit x.exit = true

/-- The path edges that may be propagated in a state. -/
inductive Licensed (s : State μ φ) : PathEdge μ φ → Prop where
  | seed {q : Point μ} {d : φ} (hseed : (q, d) ∈ p.seeds) : Licensed s ⟨d, q, d⟩
  | normal {e : PathEdge μ φ} {q : Point μ} {d : φ} (hedge : e ∈ s.edges)
      (hcall : g.isCall e.point = false) (hexit : g.isExit e.point = false)
      (hnext : q ∈ g.successors e.point) (hflow : d ∈ p.normal e.point q e.fact) :
      Licensed s ⟨e.source, q, d⟩
  | pass {e : PathEdge μ φ} {q : Point μ} {d : φ} (hedge : e ∈ s.edges)
      (hcall : g.isCall e.point = true)
      (hnext : q ∈ g.successors e.point) (hflow : d ∈ p.pass e.point q e.fact) :
      Licensed s ⟨e.source, q, d⟩
  | start {callee : μ} {d : φ} {c : Context μ φ} {q : Point μ}
      (henters : Enters g p s callee d c) (hstart : q ∈ g.starts callee) : Licensed s ⟨d, q, d⟩
  | comeBack {callee : μ} {d : φ} {c : Context μ φ} {x : Ending μ φ} {q : Point μ} {d' : φ}
      (hcontext : c ∈ s.contexts.row (callee, d)) (hending : x ∈ s.endings.row (callee, d))
      (hnext : q ∈ g.successors c.site) (hflow : d' ∈ p.ret c.site callee x.exit q c.fact x.fact) :
      Licensed s ⟨c.source, q, d'⟩

/-- One thing that is done to the tables for a path edge. -/
inductive Action : State μ φ → State μ φ → Prop where
  | edge {s : State μ φ} {e : PathEdge μ φ} (h : Licensed g p s e) : Action s (s.propagate l e)
  | context {s : State μ φ} {callee : μ} {d : φ} {c : Context μ φ}
      (h : Enters g p s callee d c) (hnew : c ∉ s.contexts.row (callee, d)) :
      Action s { s with
        contexts := s.contexts.add (callee, d) c
        reuses := s.reuses + (s.endings.row (callee, d)).size }
  | ending {s : State μ φ} {m : μ} {d : φ} {x : Ending μ φ}
      (h : Ends g s m d x) (hnew : x ∉ s.endings.row (m, d)) :
      Action s { s with
        endings := s.endings.add (m, d) x
        ended := s.ended + 1 }
  | latest {s : State μ φ} (known : Std.HashMap μ φ) : Action s { s with latest := known }

/-- Any number of actions. -/
abbrev Grows : State μ φ → State μ φ → Prop := Relation.ReflTransGen (Action g p l)

variable {g p l}

/-! ### Growth -/

/-- Everything recorded in the first state is recorded in the second one, at the same place. -/
structure State.Extends (s t : State μ φ) : Prop where
  edges : s.edges.toList <+: t.edges.toList
  facts : ∀ q, s.factsAt q <+: t.factsAt q
  contexts : ∀ k, (s.contexts.row k).toList <+: (t.contexts.row k).toList
  endings : ∀ k, (s.endings.row k).toList <+: (t.endings.row k).toList
  dropped : s.dropped ≤ t.dropped

namespace State.Extends

variable {s t u : State μ φ}

theorem refl (s : State μ φ) :
  s.Extends s
  := by
  constructor
  · apply List.prefix_rfl
  · intro _
    apply List.prefix_rfl
  · intro _
    apply List.prefix_rfl
  · intro _
    apply List.prefix_rfl
  · apply Nat.le_refl

theorem trans (hst : s.Extends t) (htu : t.Extends u) :
  s.Extends u
  := by
  constructor
  · apply hst.edges.trans htu.edges
  · intro q
    apply (hst.facts q).trans (htu.facts q)
  · intro k
    apply (hst.contexts k).trans (htu.contexts k)
  · intro k
    apply (hst.endings k).trans (htu.endings k)
  · apply Nat.le_trans hst.dropped htu.dropped

theorem mem_edges (h : s.Extends t) {e : PathEdge μ φ} (he : e ∈ s.edges) :
  e ∈ t.edges
  := by
  rw [← Distinct.mem_toList] at he ⊢
  apply h.edges.subset he

theorem mem_contexts (h : s.Extends t) {k : μ × φ} {c : Context μ φ} (hc : c ∈ s.contexts.row k) :
  c ∈ t.contexts.row k
  := by
  rw [← Distinct.mem_toList] at hc ⊢
  apply (h.contexts k).subset hc

theorem mem_endings (h : s.Extends t) {k : μ × φ} {x : Ending μ φ} (hx : x ∈ s.endings.row k) :
  x ∈ t.endings.row k
  := by
  rw [← Distinct.mem_toList] at hx ⊢
  apply (h.endings k).subset hx

theorem enters (h : s.Extends t) {callee : μ} {d : φ} {c : Context μ φ}
    (hc : Enters g p s callee d c) :
  Enters g p t callee d c
  := ⟨h.mem_edges hc.edge, hc.call, hc.target, hc.flow⟩

theorem ends (h : s.Extends t) {m : μ} {d : φ} {x : Ending μ φ} (hx : Ends g s m d x) :
  Ends g t m d x
  := ⟨h.mem_edges hx.edge, hx.method, hx.call, hx.exit⟩

theorem dropped_eq_zero (h : s.Extends t) (ht : t.dropped = 0) :
  s.dropped = 0
  := by
  have := h.dropped
  omega

end State.Extends

namespace State

theorem extends_propagate (s : State μ φ) (e : PathEdge μ φ) :
  s.Extends (s.propagate l e)
  := by
  have hself := Extends.refl s
  rw [propagate]
  split
  · apply hself
  · split
    · exact { hself with edges := s.edges.toList_isPrefix_insert e }
    · split
      · exact { hself with dropped := Nat.le_succ _ }
      · exact { hself with
          edges := s.edges.toList_isPrefix_insert e
          facts := fun q => s.facts.row_isPrefix_add e.point q e.fact }

/-- A path edge that was not dropped is there. -/
theorem mem_edges_propagate {s : State μ φ} {e : PathEdge μ φ} (h : (s.propagate l e).dropped = 0) :
  e ∈ (s.propagate l e).edges
  := by
  rw [propagate] at h ⊢
  split
  · assumption
  · split
    · simp
    · split
      · next hin hnew hfull => simp [hin, hnew, hfull] at h
      · simp

/-- To propagate a path edge adds no other one. -/
theorem mem_edges_of_mem_propagate {s : State μ φ} {e e' : PathEdge μ φ}
    (h : e' ∈ (s.propagate l e).edges) :
  e' = e ∨ e' ∈ s.edges
  := by
  rw [propagate] at h
  split at h
  · apply Or.inr h
  · split at h
    · apply Distinct.mem_insert.1 h
    · split at h
      · apply Or.inr h
      · apply Distinct.mem_insert.1 h

/-- To propagate a path edge changes nothing but path edges, facts and drops. -/
theorem exists_propagate (s : State μ φ) (e : PathEdge μ φ) :
  ∃ edges facts dropped,
    s.propagate l e = { s with edges := edges, facts := facts, dropped := dropped }
  := by
  rw [propagate]
  split
  · exact ⟨_, _, _, rfl⟩
  · split
    · exact ⟨_, _, _, rfl⟩
    · split
      · exact ⟨_, _, _, rfl⟩
      · exact ⟨_, _, _, rfl⟩

@[simp] theorem contexts_propagate (s : State μ φ) (e : PathEdge μ φ) :
  (s.propagate l e).contexts = s.contexts
  := by
  obtain ⟨_, _, _, h⟩ := s.exists_propagate (l := l) e
  rw [h]

@[simp] theorem endings_propagate (s : State μ φ) (e : PathEdge μ φ) :
  (s.propagate l e).endings = s.endings
  := by
  obtain ⟨_, _, _, h⟩ := s.exists_propagate (l := l) e
  rw [h]

@[simp] theorem taken_propagate (s : State μ φ) (e : PathEdge μ φ) :
  (s.propagate l e).taken = s.taken
  := by
  obtain ⟨_, _, _, h⟩ := s.exists_propagate (l := l) e
  rw [h]

theorem truncated_eq_false {s : State μ φ} :
  s.truncated = false ↔ s.dropped = 0 ∧ s.edges.size ≤ s.taken
  := by
  rw [truncated, Bool.or_eq_false_iff, decide_eq_false_iff_not, decide_eq_false_iff_not, Nat.not_lt,
    Nat.not_lt, Nat.le_zero]

end State

/-- An action only adds to the tables. -/
theorem Action.extends {s t : State μ φ} (h : Action g p l s t) :
  s.Extends t
  := by
  have hself := State.Extends.refl s
  cases h with
  | edge _ => apply State.extends_propagate
  | @context callee d c _ _ =>
      exact { hself with contexts := fun k => s.contexts.row_isPrefix_add (callee, d) k c }
  | @ending m d x _ _ =>
      exact { hself with endings := fun k => s.endings.row_isPrefix_add (m, d) k x }
  | latest _ => exact { hself with }

theorem Grows.extends {s t : State μ φ} (h : Grows g p l s t) :
  s.Extends t
  := by
  induction h with
  | refl => apply State.Extends.refl
  | tail _ hact ih => apply ih.trans hact.extends

/-- What every action keeps is kept as the tables grow. -/
theorem Grows.keeps {P : State μ φ → Prop} (action : ∀ {s t}, Action g p l s t → P s → P t)
    {s t : State μ φ} (h : Grows g p l s t) (hs : P s) :
  P t
  := by
  induction h with
  | refl => apply hs
  | tail _ hact ih => apply action hact ih

/-- The actions for a path edge take up no other one. -/
theorem Grows.taken {s t : State μ φ} (h : Grows g p l s t) :
  t.taken = s.taken
  := by
  induction h with
  | refl => rfl
  | tail _ hact ih =>
      rw [← ih]
      cases hact with
      | edge _ => apply State.taken_propagate
      | context _ _ => rfl
      | ending _ _ => rfl
      | latest _ => rfl

/-- What is licensed stays licensed. -/
theorem Licensed.mono {s t : State μ φ} {e : PathEdge μ φ} (h : Licensed g p s e)
    (hst : s.Extends t) :
  Licensed g p t e
  := by
  cases h with
  | seed hseed => apply Licensed.seed hseed
  | normal hedge hcall hexit hnext hflow =>
      apply Licensed.normal (hst.mem_edges hedge) hcall hexit hnext hflow
  | pass hedge hcall hnext hflow => apply Licensed.pass (hst.mem_edges hedge) hcall hnext hflow
  | start henters hstart => apply Licensed.start (hst.enters henters) hstart
  | comeBack hcontext hending hnext hflow =>
      apply Licensed.comeBack (hst.mem_contexts hcontext) (hst.mem_endings hending) hnext hflow

/-! ### Folds -/

section Fold

variable {α : Type} {f : State μ φ → α → State μ φ} {as : List α} {s : State μ φ}

/-- A fold grows the tables if each of its steps does so from whatever the tables have become. -/
theorem grows_foldl (hf : ∀ t, s.Extends t → ∀ a ∈ as, Grows g p l t (f t a)) :
  Grows g p l s (as.foldl f s)
  := by
  induction as generalizing s with
  | nil => apply Relation.ReflTransGen.refl
  | cons a as ih =>
      have hhead := hf s (.refl s) a List.mem_cons_self
      apply hhead.trans
      apply ih
      intro t ht b hb
      apply hf t (hhead.extends.trans ht) b (List.mem_cons_of_mem a hb)

/-- Each step of such a fold is done in a state that has grown, and what it does stays. -/
theorem exists_grows_of_mem (hf : ∀ t, s.Extends t → ∀ a ∈ as, Grows g p l t (f t a))
    {a : α} (ha : a ∈ as) :
  ∃ t, s.Extends t ∧ Grows g p l (f t a) (as.foldl f s)
  := by
  induction as generalizing s with
  | nil => cases ha
  | cons b as ih =>
      have hhead := hf s (.refl s) b List.mem_cons_self
      have htail : ∀ t, (f s b).Extends t → ∀ c ∈ as, Grows g p l t (f t c) := by
        intro t ht c hc
        apply hf t (hhead.extends.trans ht) c (List.mem_cons_of_mem b hc)
      rcases List.mem_cons.1 ha with rfl | ha
      · use s, .refl s
        apply grows_foldl htail
      · obtain ⟨t, ht, hgrows⟩ := ih htail ha
        use t, hhead.extends.trans ht
        apply hgrows

end Fold

/-! ### The operations as actions -/

section Operations

variable {s : State μ φ}

theorem grows_propagate {e : PathEdge μ φ} (h : Licensed g p s e) :
  Grows g p l s (s.propagate l e)
  := .single (.edge h)

theorem grows_emit {source : φ} {next : Point μ} {facts : List φ}
    (h : ∀ d ∈ facts, Licensed g p s ⟨source, next, d⟩) :
  Grows g p l s (s.emit l source next facts)
  := by
  have hfold : Grows g p l s
      (facts.foldl (fun s d => s.propagate l ⟨source, next, d⟩) s) := by
    apply grows_foldl
    intro t ht d hd
    apply grows_propagate ((h d hd).mono ht)
  rw [State.emit]
  split
  · apply hfold.tail (.latest _)
  · apply hfold

/-- What was emitted and not dropped is there. -/
theorem mem_edges_emit {source : φ} {next : Point μ} {facts : List φ}
    (h : ∀ d ∈ facts, Licensed g p s ⟨source, next, d⟩)
    (hdropped : (s.emit l source next facts).dropped = 0) {d : φ} (hd : d ∈ facts) :
  ⟨source, next, d⟩ ∈ (s.emit l source next facts).edges
  := by
  obtain ⟨t, _, hgrows⟩ := exists_grows_of_mem
    (f := fun s d => s.propagate l ⟨source, next, d⟩)
    (fun t ht d hd => grows_propagate (g := g) (p := p) (l := l) ((h d hd).mono ht)) hd
  rw [State.emit] at hdropped ⊢
  split at hdropped
  · apply hgrows.extends.mem_edges
    apply State.mem_edges_propagate
    apply hgrows.extends.dropped_eq_zero hdropped
  · apply hgrows.extends.mem_edges
    apply State.mem_edges_propagate
    apply hgrows.extends.dropped_eq_zero hdropped

/-- To emit along several edges of the graph. -/
theorem grows_emit_all {source : φ} {points : List (Point μ)} {flow : Point μ → List φ}
    (h : ∀ q ∈ points, ∀ d ∈ flow q, Licensed g p s ⟨source, q, d⟩) :
  Grows g p l s (points.foldl (fun s q => s.emit l source q (flow q)) s)
  := by
  apply grows_foldl
  intro t ht q hq
  apply grows_emit
  intro d hd
  apply (h q hq d hd).mono ht

theorem mem_edges_emit_all {source : φ} {points : List (Point μ)} {flow : Point μ → List φ}
    (h : ∀ q ∈ points, ∀ d ∈ flow q, Licensed g p s ⟨source, q, d⟩)
    (hdropped : (points.foldl (fun s q => s.emit l source q (flow q)) s).dropped = 0)
    {q : Point μ} (hq : q ∈ points) {d : φ} (hd : d ∈ flow q) :
  ⟨source, q, d⟩ ∈ (points.foldl (fun s q => s.emit l source q (flow q)) s).edges
  := by
  have hlicensed : ∀ t, s.Extends t → ∀ q ∈ points, ∀ d ∈ flow q,
      Licensed g p t ⟨source, q, d⟩ := by
    intro t ht q hq d hd
    apply (h q hq d hd).mono ht
  obtain ⟨t, ht, hgrows⟩ := exists_grows_of_mem (l := l)
    (f := fun s q => s.emit l source q (flow q))
    (fun t ht q hq => grows_emit (hlicensed t ht q hq)) hq
  apply hgrows.extends.mem_edges
  apply mem_edges_emit (hlicensed t ht q hq) _ hd
  apply hgrows.extends.dropped_eq_zero hdropped

theorem grows_step {e : PathEdge μ φ} (he : e ∈ s.edges) (hcall : g.isCall e.point = false)
    (hexit : g.isExit e.point = false) :
  Grows g p l s (step g p l e s)
  := by
  apply grows_emit_all
  intro q hq d hd
  apply Licensed.normal he hcall hexit hq hd

theorem grows_passBy {e : PathEdge μ φ} (he : e ∈ s.edges) (hcall : g.isCall e.point = true) :
  Grows g p l s (passBy g p l e s)
  := by
  apply grows_emit_all
  intro q hq d hd
  apply Licensed.pass he hcall hq hd

theorem grows_comeBack {callee : μ} {d : φ} {c : Context μ φ} {x : Ending μ φ}
    (hc : c ∈ s.contexts.row (callee, d)) (hx : x ∈ s.endings.row (callee, d)) :
  Grows g p l s (comeBack g p l callee c x s)
  := by
  apply grows_emit_all
  intro q hq d' hd'
  apply Licensed.comeBack hc hx hq hd'

/-- To come back from the endings known before, once a context is recorded. -/
theorem grows_comeBack_of_context {callee : μ} {d : φ} {c : Context μ φ} {reuses : Nat}
    {t : State μ φ} (ht : State.Extends
      { s with contexts := s.contexts.add (callee, d) c, reuses := reuses } t)
    {x : Ending μ φ} (hx : x ∈ (s.endings.row (callee, d)).toList) :
  Grows g p l t (comeBack g p l callee c x t)
  := by
  apply grows_comeBack (d := d)
  · apply ht.mem_contexts
    apply Table.mem_row_add.2 (.inl ⟨rfl, rfl⟩)
  · apply ht.mem_endings
    apply Distinct.mem_toList.1 hx

/-- To come back to the contexts known before, once an ending is recorded. -/
theorem grows_comeBack_of_ending {callee : μ} {d : φ} {x : Ending μ φ} {ended : Nat}
    {t : State μ φ} (ht : State.Extends
      { s with endings := s.endings.add (callee, d) x, ended := ended } t)
    {c : Context μ φ} (hc : c ∈ (s.contexts.row (callee, d)).toList) :
  Grows g p l t (comeBack g p l callee c x t)
  := by
  apply grows_comeBack (d := d)
  · apply ht.mem_contexts
    apply Distinct.mem_toList.1 hc
  · apply ht.mem_endings
    apply Table.mem_row_add.2 (.inl ⟨rfl, rfl⟩)

/-- The beginning of a called method. -/
theorem grows_starts {callee : μ} {d : φ} {c : Context μ φ} (h : Enters g p s callee d c) :
  Grows g p l s ((g.starts callee).foldl (fun s q => s.propagate l ⟨d, q, d⟩) s)
  := by
  apply grows_foldl
  intro t ht q hq
  apply grows_propagate
  apply Licensed.start (ht.enters h) hq

/-- What is done for a call once the called method has begun. -/
theorem grows_enter_of_starts {e : PathEdge μ φ} {callee : μ} {d : φ}
    (h : Enters g p s callee d ⟨e.point, e.source, e.fact⟩) :
  Grows g p l ((g.starts callee).foldl (fun s q => s.propagate l ⟨d, q, d⟩) s)
    (enter g p l e callee s d)
  := by
  have hstarts := grows_starts (l := l) h
  rw [enter]
  split
  · apply Relation.ReflTransGen.refl
  · next hnew =>
    apply Relation.ReflTransGen.head (.context (hstarts.extends.enters h) hnew)
    apply grows_foldl
    intro t ht x hx
    apply grows_comeBack_of_context ht hx

theorem grows_enter {e : PathEdge μ φ} {callee : μ} {d : φ}
    (h : Enters g p s callee d ⟨e.point, e.source, e.fact⟩) :
  Grows g p l s (enter g p l e callee s d)
  := (grows_starts h).trans (grows_enter_of_starts h)

/-- The calls that a path edge makes. -/
theorem enters_of_edge {e : PathEdge μ φ} {callee : μ} {d : φ} (he : e ∈ s.edges)
    (hcall : g.isCall e.point = true) (hcallee : callee ∈ g.callees e.point)
    (hd : d ∈ p.call e.point callee e.fact) {t : State μ φ} (ht : s.Extends t) :
  Enters g p t callee d ⟨e.point, e.source, e.fact⟩
  := ⟨ht.mem_edges he, hcall, hcallee, hd⟩

/-- The state after the called methods were entered. -/
theorem grows_callees {e : PathEdge μ φ} (he : e ∈ s.edges) (hcall : g.isCall e.point = true) :
  Grows g p l s ((g.callees e.point).foldl
    (fun s m => (p.call e.point m e.fact).foldl (enter g p l e m) s) s)
  := by
  apply grows_foldl
  intro t ht m hm
  apply grows_foldl
  intro u hu d hd
  apply grows_enter (enters_of_edge he hcall hm hd (ht.trans hu))

theorem grows_callOut {e : PathEdge μ φ} (he : e ∈ s.edges) (hcall : g.isCall e.point = true) :
  Grows g p l s (callOut g p l e s)
  := by
  have hcallees := grows_callees (p := p) (l := l) he hcall
  apply hcallees.trans
  apply grows_passBy (hcallees.extends.mem_edges he) hcall

theorem grows_leave {e : PathEdge μ φ} (he : e ∈ s.edges) (hcall : g.isCall e.point = false)
    (hexit : g.isExit e.point = true) :
  Grows g p l s (leave g p l e s)
  := by
  rw [leave]
  split
  · apply Relation.ReflTransGen.refl
  · next hnew =>
    have hends : Ends g s e.point.method e.source ⟨e.point, e.fact⟩ := ⟨he, rfl, hcall, hexit⟩
    apply Relation.ReflTransGen.head (.ending hends hnew)
    apply grows_foldl
    intro t ht c hc
    apply grows_comeBack_of_ending ht hc

theorem grows_process {e : PathEdge μ φ} (he : e ∈ s.edges) :
  Grows g p l s (process g p l e s)
  := by
  rw [process]
  split
  · next hcall => apply grows_callOut he hcall
  · next hcall =>
    have hcall := Bool.eq_false_iff.2 hcall
    split
    · next hexit => apply grows_leave he hcall hexit
    · next hexit => apply grows_step he hcall (Bool.eq_false_iff.2 hexit)

end Operations

/-! ### Runs -/

theorem State.extends_take (s : State μ φ) :
  s.Extends { s with taken := s.taken + 1 }
  := by
  exact { State.Extends.refl s with }

/-- What every action keeps, and the taking up of a path edge, is kept by a run. -/
theorem run_induct {P : State μ φ → Prop} (action : ∀ {s t}, Action g p l s t → P s → P t)
    (take : ∀ {s}, s.taken < s.edges.size → P s → P { s with taken := s.taken + 1 })
    (n : Nat) {s : State μ φ} (hs : P s) :
  P (run g p l n s)
  := by
  induction n generalizing s with
  | zero => apply hs
  | succ n ih =>
      rw [run]
      split
      · next e he =>
        obtain ⟨hlt, rfl⟩ := Array.getElem?_eq_some_iff.1 he
        have hmem : s.edges.items[s.taken] ∈ s.edges := by
          rw [← Distinct.mem_toList]
          apply Array.getElem_mem_toList
        apply ih
        apply (grows_process (s.extends_take.mem_edges hmem)).keeps action
        apply take hlt hs
      · apply hs

theorem extends_run (n : Nat) (s : State μ φ) :
  s.Extends (run g p l n s)
  := by
  apply run_induct (P := s.Extends)
  · intro t u hact ht
    apply ht.trans hact.extends
  · intro t _ ht
    apply ht.trans t.extends_take
  · apply State.Extends.refl

theorem grows_seeded :
  Grows g p l {} (seeded p l)
  := by
  apply grows_foldl
  intro t _ e he
  apply grows_propagate
  apply Licensed.seed he

/-- What holds of the empty tables and is kept by every action holds at the end of a run. -/
theorem solve_induct {P : State μ φ → Prop} (empty : P {})
    (action : ∀ {s t}, Action g p l s t → P s → P t)
    (take : ∀ {s}, s.taken < s.edges.size → P s → P { s with taken := s.taken + 1 }) :
  P (solve g p l)
  := by
  apply run_induct action take
  apply grows_seeded.keeps action empty

end Tabulation

end ServiceFlow
