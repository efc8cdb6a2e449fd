import ServiceFlow.Proofs.Tabulation.Growth

/-!
# Runs over lists

The tables of a run are kept in hash maps, which do not reduce.  A ledger keeps the same tables as
plain lists.  Each step of tabulation keeps a ledger and the tables in agreement, so a run over
ledgers finds the facts of the run over tables, and it can be evaluated.
-/

namespace ServiceFlow

/-! ### Tables as lists of entries -/

/-- The elements that the entries have for a key. -/
def rowOf {κ α : Type} [DecidableEq κ] (entries : List (κ × α)) (k : κ) : List α :=
  (entries.filter (fun e => e.1 = k)).map Prod.snd

theorem rowOf_append_singleton {κ α : Type} [DecidableEq κ] (entries : List (κ × α)) (k l : κ)
    (a : α) :
  rowOf (entries ++ [(k, a)]) l = if k = l then rowOf entries l ++ [a] else rowOf entries l
  := by
  rw [rowOf, List.filter_append, List.map_append]
  split
  · next h => simp [rowOf, h]
  · next h => simp [rowOf, h]

namespace Table

variable {κ α : Type} [DecidableEq κ] [Hashable κ] [DecidableEq α] [Hashable α]

/-- The entries have the elements of every row, in the order of the row. -/
def Lists (t : Table κ α) (entries : List (κ × α)) : Prop :=
  ∀ k, (t.row k).toList = rowOf entries k

variable {t : Table κ α} {entries : List (κ × α)}

theorem lists_empty :
  (empty : Table κ α).Lists []
  := by
  intro k
  rw [row_empty]
  rfl

theorem Lists.mem_iff (h : t.Lists entries) {k : κ} {a : α} :
  a ∈ t.row k ↔ a ∈ rowOf entries k
  := by
  rw [← h k, Distinct.mem_toList]

theorem Lists.size_eq (h : t.Lists entries) (k : κ) :
  (t.row k).size = (rowOf entries k).length
  := by
  rw [Distinct.size_eq_length, h k]

theorem Lists.add (h : t.Lists entries) {k : κ} {a : α} (hnew : a ∉ rowOf entries k) :
  (t.add k a).Lists (entries ++ [(k, a)])
  := by
  intro l
  rw [row_add, rowOf_append_singleton]
  split
  · next hkl =>
    subst hkl
    rw [Distinct.toList_insert, if_neg (mt h.mem_iff.1 hnew), h k]
  · apply h

end Table

namespace Tabulation

variable {μ φ : Type} [DecidableEq μ] [DecidableEq φ]

/-! ### Ledgers -/

/-- The tables of a run as lists. -/
structure Ledger (μ φ : Type) where
  edges : List (PathEdge μ φ) := []
  taken : Nat := 0
  facts : List (Point μ × φ) := []
  contexts : List ((μ × φ) × Context μ φ) := []
  endings : List ((μ × φ) × Ending μ φ) := []
  dropped : Nat := 0

namespace Ledger

def factsAt (r : Ledger μ φ) (q : Point μ) : List φ := rowOf r.facts q

def truncated (r : Ledger μ φ) : Bool := 0 < r.dropped || r.taken < r.edges.length

/-- Adds a path edge, within the bound on the facts of a statement. -/
def propagate (l : Limits) (r : Ledger μ φ) (e : PathEdge μ φ) : Ledger μ φ :=
  if e ∈ r.edges then r
  else if e.fact ∈ r.factsAt e.point then { r with edges := r.edges ++ [e] }
  else if l.factsPerPoint ≤ (r.factsAt e.point).length then { r with dropped := r.dropped + 1 }
  else { r with edges := r.edges ++ [e], facts := r.facts ++ [(e.point, e.fact)] }

variable (g : Graph μ) (p : Problem μ φ) (l : Limits)

/-- Adds an edge for each fact that a flow has behind each successor of a statement. -/
def spread (source : φ) (point : Point μ) (flow : Point μ → List φ) (r : Ledger μ φ) :
    Ledger μ φ :=
  (g.successors point).foldl
    (fun r q => (flow q).foldl (fun r d => r.propagate l ⟨source, q, d⟩) r) r

/-- From an ending of a called method back behind the call. -/
def comeBack (callee : μ) (c : Context μ φ) (x : Ending μ φ) (r : Ledger μ φ) : Ledger μ φ :=
  spread g l c.source c.site (fun q => p.ret c.site callee x.exit q c.fact x.fact) r

/-- Enters a called method with a fact. -/
def enter (e : PathEdge μ φ) (callee : μ) (r : Ledger μ φ) (d : φ) : Ledger μ φ :=
  let r := (g.starts callee).foldl (fun r q => r.propagate l ⟨d, q, d⟩) r
  let c : Context μ φ := ⟨e.point, e.source, e.fact⟩
  if c ∈ rowOf r.contexts (callee, d) then r
  else
    (rowOf r.endings (callee, d)).foldl (fun r x => comeBack g p l callee c x r)
      { r with contexts := r.contexts ++ [((callee, d), c)] }

/-- From a call into the called methods, and past them. -/
def callOut (e : PathEdge μ φ) (r : Ledger μ φ) : Ledger μ φ :=
  spread g l e.source e.point (fun q => p.pass e.point q e.fact) ((g.callees e.point).foldl
    (fun r m => (p.call e.point m e.fact).foldl (enter g p l e m) r) r)

/-- From an exit back to all contexts of the method. -/
def leave (e : PathEdge μ φ) (r : Ledger μ φ) : Ledger μ φ :=
  let key := (e.point.method, e.source)
  let x : Ending μ φ := ⟨e.point, e.fact⟩
  if x ∈ rowOf r.endings key then r
  else
    (rowOf r.contexts key).foldl (fun r c => comeBack g p l e.point.method c x r)
      { r with endings := r.endings ++ [(key, x)] }

/-- Processes a path edge. -/
def process (e : PathEdge μ φ) (r : Ledger μ φ) : Ledger μ φ :=
  if g.isCall e.point then callOut g p l e r
  else if g.isExit e.point then leave g p l e r
  else spread g l e.source e.point (fun q => p.normal e.point q e.fact) r

/-- Processes at most so many path edges. -/
def run : Nat → Ledger μ φ → Ledger μ φ
  | 0, r => r
  | n + 1, r =>
      match r.edges[r.taken]? with
      | some e => run n (process g p l e { r with taken := r.taken + 1 })
      | none => r

/-- The run from the seeds. -/
def solve : Ledger μ φ :=
  run g p l l.iterations (p.seeds.foldl (fun r e => r.propagate l ⟨e.2, e.1, e.2⟩) {})

end Ledger

/-! ### Agreement with the tables -/

variable [Hashable μ] [Hashable φ]

/-- The ledger has what the tables have, save for the counters that no flow depends on. -/
structure Mirrors (s : State μ φ) (r : Ledger μ φ) : Prop where
  edges : s.edges.toList = r.edges
  taken : s.taken = r.taken
  facts : s.facts.Lists r.facts
  contexts : s.contexts.Lists r.contexts
  endings : s.endings.Lists r.endings
  dropped : s.dropped = r.dropped

namespace Mirrors

variable {s : State μ φ} {r : Ledger μ φ}

theorem start :
  Mirrors ({} : State μ φ) {}
  where
    edges := rfl
    taken := rfl
    facts := Table.lists_empty
    contexts := Table.lists_empty
    endings := Table.lists_empty
    dropped := rfl

theorem toList_insert (h : Mirrors s r) {e : PathEdge μ φ} (hnew : e ∉ s.edges) :
  (s.edges.insert e).toList = r.edges ++ [e]
  := by
  rw [Distinct.toList_insert, if_neg hnew, h.edges]

theorem propagate (l : Limits) (h : Mirrors s r) (e : PathEdge μ φ) :
  Mirrors (s.propagate l e) (r.propagate l e)
  := by
  have hedge : e ∈ s.edges ↔ e ∈ r.edges := by rw [← h.edges, Distinct.mem_toList]
  have hfact : e.fact ∈ s.facts.row e.point ↔ e.fact ∈ r.factsAt e.point := h.facts.mem_iff
  have hsize : (s.facts.row e.point).size = (r.factsAt e.point).length := h.facts.size_eq e.point
  rw [State.propagate, Ledger.propagate]
  by_cases hold : e ∈ r.edges
  · rw [if_pos hold, if_pos (hedge.2 hold)]
    apply h
  rw [if_neg hold, if_neg (mt hedge.1 hold)]
  have hedges := h.toList_insert (mt hedge.1 hold)
  by_cases hknown : e.fact ∈ r.factsAt e.point
  · rw [if_pos hknown, if_pos (hfact.2 hknown)]
    exact { h with edges := hedges }
  rw [if_neg hknown, if_neg (mt hfact.1 hknown), hsize]
  split
  · exact { h with dropped := congrArg (· + 1) h.dropped }
  · exact { h with edges := hedges, facts := h.facts.add hknown }

theorem emit (l : Limits) (h : Mirrors s r) (source : φ) (q : Point μ) (facts : List φ) :
  Mirrors (s.emit l source q facts)
    (facts.foldl (fun r d => r.propagate l ⟨source, q, d⟩) r)
  := by
  have hfacts : Mirrors (facts.foldl (fun s d => s.propagate l ⟨source, q, d⟩) s)
      (facts.foldl (fun r d => r.propagate l ⟨source, q, d⟩) r) :=
    List.foldl_rel h (fun d _ _ _ h => h.propagate l _)
  rw [State.emit]
  -- the last fact of a method is no part of a ledger
  split
  · exact { hfacts with }
  · apply hfacts

variable (g : Graph μ) (p : Problem μ φ) (l : Limits)

theorem spread (h : Mirrors s r) (source : φ) (point : Point μ) (flow : Point μ → List φ) :
  Mirrors ((g.successors point).foldl (fun s q => s.emit l source q (flow q)) s)
    (r.spread g l source point flow)
  := List.foldl_rel h (fun q _ _ _ h => h.emit l source q (flow q))

theorem comeBack (h : Mirrors s r) (callee : μ) (c : Context μ φ) (x : Ending μ φ) :
  Mirrors (comeBack g p l callee c x s) (r.comeBack g p l callee c x)
  := h.spread g l _ _ _

theorem enter (h : Mirrors s r) (e : PathEdge μ φ) (callee : μ) (d : φ) :
  Mirrors (enter g p l e callee s d) (r.enter g p l e callee d)
  := by
  have hstarts : Mirrors ((g.starts callee).foldl (fun s q => s.propagate l ⟨d, q, d⟩) s)
      ((g.starts callee).foldl (fun r q => r.propagate l ⟨d, q, d⟩) r) :=
    List.foldl_rel h (fun q _ _ _ h => h.propagate l _)
  rw [Tabulation.enter, Ledger.enter]
  simp only [hstarts.contexts.mem_iff, hstarts.endings (callee, d)]
  split
  · apply hstarts
  · next hnew =>
    apply List.foldl_rel
    · exact { hstarts with contexts := hstarts.contexts.add hnew }
    · intro x _ s r h
      apply h.comeBack

theorem callOut (h : Mirrors s r) (e : PathEdge μ φ) :
  Mirrors (callOut g p l e s) (r.callOut g p l e)
  := by
  apply spread
  apply List.foldl_rel h
  intro m _ s r h
  apply List.foldl_rel h
  intro d _ s r h
  apply h.enter

theorem leave (h : Mirrors s r) (e : PathEdge μ φ) :
  Mirrors (leave g p l e s) (r.leave g p l e)
  := by
  rw [Tabulation.leave, Ledger.leave]
  simp only [h.endings.mem_iff, h.contexts (e.point.method, e.source)]
  split
  · apply h
  · next hnew =>
    apply List.foldl_rel
    · exact { h with endings := h.endings.add hnew }
    · intro c _ s r h
      apply h.comeBack

theorem process (h : Mirrors s r) (e : PathEdge μ φ) :
  Mirrors (process g p l e s) (r.process g p l e)
  := by
  rw [Tabulation.process, Ledger.process]
  split
  · apply h.callOut
  · split
    · apply h.leave
    · apply h.spread

theorem run (n : Nat) (h : Mirrors s r) :
  Mirrors (run g p l n s) (r.run g p l n)
  := by
  induction n generalizing s r with
  | zero => apply h
  | succ n ih =>
      rw [Tabulation.run, Ledger.run, Distinct.getElem?_items, h.edges, h.taken]
      cases r.edges[r.taken]? with
      | none => apply h
      | some e =>
          apply ih
          apply process
          exact { h with taken := rfl }

theorem solve :
  Mirrors (solve g p l) (Ledger.solve g p l)
  := by
  apply run
  exact List.foldl_rel start (fun e _ _ _ h => h.propagate l _)

end Mirrors

variable (g : Graph μ) (p : Problem μ φ) (l : Limits)

theorem factsAt_solve (q : Point μ) :
  (solve g p l).factsAt q = (Ledger.solve g p l).factsAt q
  := (Mirrors.solve g p l).facts q

theorem truncated_solve :
  (solve g p l).truncated = (Ledger.solve g p l).truncated
  := by
  have h := Mirrors.solve g p l
  rw [State.truncated, Ledger.truncated, h.dropped, h.taken, Distinct.size_eq_length, h.edges]

end Tabulation

end ServiceFlow
