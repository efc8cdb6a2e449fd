import Mathlib.Data.List.Nodup
import ServiceFlow.Proofs.Tabulation.Lockstep
import ServiceFlow.Proofs.Tabulation.Soundness

/-!
# Tables and statistics agree

A run keeps its path edges, its facts and its endings in tables of their own, and counts on the
side.  Whatever the flows yield and whatever is dropped, the tables tell the same story: the facts
are those of the path edges, each path edge is processed at most once and in its turn, and the
endings are the exits among the processed path edges.
-/

namespace ServiceFlow

namespace Table

variable {κ α : Type} [DecidableEq κ] [Hashable κ] [DecidableEq α] [Hashable α]

/-- All elements of the table, each with its key. -/
def entries (t : Table κ α) : List (κ × α) :=
  t.rows.toList.flatMap (fun r => r.2.toList.map (fun a => (r.1, a)))

theorem mem_entries {t : Table κ α} {k : κ} {a : α} :
  (k, a) ∈ t.entries ↔ a ∈ t.row k
  := by
  have hentries : (k, a) ∈ t.entries ↔ ∃ d, (k, d) ∈ t.rows.toList ∧ a ∈ d := by
    simp only [entries, List.mem_flatMap, List.mem_map, Distinct.mem_toList, Prod.mk.injEq]
    constructor
    · rintro ⟨r, hr, _, ha, rfl, rfl⟩
      use r.2
    · rintro ⟨d, hd, ha⟩
      use (k, d), hd, a
  rw [hentries, row, Std.HashMap.getD_eq_getD_getElem?]
  simp only [Std.HashMap.mem_toList_iff_getElem?_eq_some]
  cases t.rows[k]? with
  | none => simp
  | some d => simp

theorem nodup_entries (t : Table κ α) :
  t.entries.Nodup
  := by
  rw [entries, List.nodup_flatMap]
  constructor
  · intro r _
    apply r.2.nodup.map
    intro a b hab
    apply (Prod.mk.inj hab).2
  · apply Std.HashMap.distinct_keys_toList.imp
    intro r r' hne
    refine List.disjoint_left.2 fun e he he' => ?_
    obtain ⟨_, _, rfl⟩ := List.mem_map.1 he
    obtain ⟨_, _, heq⟩ := List.mem_map.1 he'
    apply beq_eq_false_iff_ne.1 hne
    rw [(Prod.mk.inj heq).1]

end Table

namespace Tabulation

variable {μ φ σ : Type}

/-! ### Exits -/

/-- The statement ends its method: it is an exit and no call. -/
def Graph.leaves (g : Graph μ) (q : Point μ) : Bool := g.isExit q && !g.isCall q

namespace PathEdge

/-- The method with the fact that it was entered with. -/
def key (e : PathEdge μ φ) : μ × φ := (e.point.method, e.source)

/-- The path edge as the ending of its method. -/
def ending (e : PathEdge μ φ) : Ending μ φ := ⟨e.point, e.fact⟩

/-- No two path edges make the same ending. -/
theorem eq_of_ending {e e' : PathEdge μ φ} (hkey : e.key = e'.key)
    (hending : e.ending = e'.ending) :
  e = e'
  := by
  cases e
  cases e'
  obtain ⟨_, rfl⟩ := Prod.mk.inj hkey
  obtain ⟨rfl, rfl⟩ := Ending.mk.inj hending
  rfl

end PathEdge

variable [DecidableEq μ] [Hashable μ] [DecidableEq φ] [Hashable φ]

/-! ### The processed path edges -/

namespace Stateful

variable (g : Graph μ) (p : Stateful μ φ σ) (l : Limits)

/-- A run that notes the path edges that it processes. -/
def runLogged : Nat → State μ φ → StateM σ (List (PathEdge μ φ) × State μ φ)
  | 0, s => return ([], s)
  | n + 1, s =>
      match s.edges.items[s.taken]? with
      | some e => do
          let s ← process g p l e { s with taken := s.taken + 1 }
          let r ← runLogged n s
          return (e :: r.1, r.2)
      | none => return ([], s)

/-- The whole run, with the path edges that it processes. -/
def solveLogged : StateM σ (List (PathEdge μ φ) × State μ φ) := do
  let s ← seeded p l
  runLogged g p l l.iterations s

variable {g p l}

theorem runLogged_of_done {s : State μ φ} (h : s.edges.items[s.taken]? = none) (n : Nat) :
  runLogged g p l n s = pure ([], s)
  := by
  cases n with
  | zero => rfl
  | succ n => rw [runLogged, h]

theorem run_runLogged_of_next {s : State μ φ} {e : PathEdge μ φ}
    (he : s.edges.items[s.taken]? = some e) (n : Nat) (m : σ) :
  let r := (process g p l e { s with taken := s.taken + 1 }).run m
  let r' := (runLogged g p l n r.1).run r.2
  (runLogged g p l (n + 1) s).run m = ((e :: r'.1.1, r'.1.2), r'.2)
  := by
  rw [runLogged, he]
  rfl

theorem length_runLogged (n : Nat) (s : State μ φ) (m : σ) :
  ((runLogged g p l n s).run m).1.1.length ≤ n
  := by
  induction n generalizing s m with
  | zero => apply Nat.le_refl
  | succ n ih =>
      by_cases hdone : s.edges.items[s.taken]? = none
      · rw [runLogged_of_done hdone]
        apply Nat.zero_le
      · obtain ⟨e, _, he, _⟩ := exists_next hdone
        rw [run_runLogged_of_next he]
        apply Nat.succ_le_succ (ih _ _)

/-- The notes do not change the run. -/
theorem run_eq_runLogged (n : Nat) (s : State μ φ) (m : σ) :
  (run g p l n s).run m =
    (((runLogged g p l n s).run m).1.2, ((runLogged g p l n s).run m).2)
  := by
  induction n generalizing s m with
  | zero => rfl
  | succ n ih =>
      by_cases hdone : s.edges.items[s.taken]? = none
      · rw [run_of_done hdone, runLogged_of_done hdone]
        rfl
      · obtain ⟨e, _, he, _⟩ := exists_next hdone
        rw [run_run_of_next he, run_runLogged_of_next he, ih]

end Stateful

/-! ### Endings -/

/-- The endings of the two states are the same. -/
def State.SameEndings (s t : State μ φ) : Prop := t.endings = s.endings ∧ t.ended = s.ended

namespace State.SameEndings

variable {s t u : State μ φ} {l : Limits}

theorem refl (s : State μ φ) :
  s.SameEndings s
  := ⟨rfl, rfl⟩

theorem trans (hst : s.SameEndings t) (htu : t.SameEndings u) :
  s.SameEndings u
  := ⟨htu.1.trans hst.1, htu.2.trans hst.2⟩

theorem propagate (s : State μ φ) (e : PathEdge μ φ) :
  s.SameEndings (s.propagate l e)
  := by
  obtain ⟨_, _, _, h⟩ := s.exists_propagate (l := l) e
  rw [h]
  apply refl

theorem foldl {α : Type} {f : State μ φ → α → State μ φ}
    (hf : ∀ (t : State μ φ) a, t.SameEndings (f t a)) (as : List α) (s : State μ φ) :
  s.SameEndings (as.foldl f s)
  := List.foldlRecOn (motive := s.SameEndings) as f (.refl s) fun t ht a _ => ht.trans (hf t a)

theorem foldlM {α : Type} {f : State μ φ → α → StateM σ (State μ φ)}
    (hf : ∀ (t : State μ φ) a m, t.SameEndings ((f t a).run m).1) (as : List α) (s : State μ φ)
    (m : σ) :
  s.SameEndings ((as.foldlM f s).run m).1
  := by
  induction as generalizing s m with
  | nil => apply refl
  | cons a as ih =>
      rw [List.foldlM_cons]
      apply (hf s a m).trans
      apply ih

theorem emit (s : State μ φ) (source : φ) (next : Point μ) (facts : List φ) :
  s.SameEndings (s.emit l source next facts)
  := by
  have hfold : s.SameEndings (facts.foldl (fun s d => s.propagate l ⟨source, next, d⟩) s) := by
    apply foldl
    intro t d
    apply propagate
  rw [State.emit]
  split
  · apply hfold
  · apply hfold

end State.SameEndings

namespace Stateful

variable {g : Graph μ} {p : Stateful μ φ σ} {l : Limits} {s : State μ φ}

theorem sameEndings_emitAll (source : φ) (flow : Point μ → StateM σ (List φ))
    (points : List (Point μ)) (s : State μ φ) (m : σ) :
  s.SameEndings ((emitAll l source flow points s).run m).1
  := by
  apply State.SameEndings.foldlM
  intro t q m
  apply State.SameEndings.emit

/-- A call makes no endings. -/
theorem sameEndings_callOut (e : PathEdge μ φ) (s : State μ φ) (m : σ) :
  s.SameEndings ((callOut g p l e s).run m).1
  := by
  have hconnect : ∀ callee d (t : State μ φ) (m : σ),
      t.SameEndings ((connect g p l e callee d t).run m).1 := by
    intro callee d t m
    rw [connect]
    split
    · apply State.SameEndings.refl
    · apply State.SameEndings.foldlM
        (s := { t with contexts := _, reuses := _ })
      intro u x m
      apply sameEndings_emitAll
  have hcallees : ∀ m,
      s.SameEndings (((g.callees e.point).foldlM (callInto g p l e) s).run m).1 := by
    apply State.SameEndings.foldlM
    intro t callee m
    apply State.SameEndings.foldlM
    intro u d m
    apply State.SameEndings.trans _ (hconnect callee d _ m)
    apply State.SameEndings.foldl
    intro w q
    apply State.SameEndings.propagate
  apply (hcallees m).trans
  apply sameEndings_emitAll

/-- An exit records the ending that it makes. -/
theorem sameEndings_leave {e : PathEdge μ φ} (hnew : e.ending ∉ s.endings.row e.key) (m : σ) :
  State.SameEndings { s with endings := s.endings.add e.key e.ending, ended := s.ended + 1 }
    ((leave g p l e s).run m).1
  := by
  have hleave : leave g p l e s = (s.contexts.row e.key).toList.foldlM
      (fun s c => comeBack g p l e.point.method c e.ending s)
      { s with endings := s.endings.add e.key e.ending, ended := s.ended + 1 } := if_neg hnew
  rw [hleave]
  apply State.SameEndings.foldlM
  intro t c m
  apply sameEndings_emitAll

/-- The endings after a path edge was processed: those before, and the one that it makes. -/
theorem endings_process {e : PathEdge μ φ} (hnew : e.ending ∉ s.endings.row e.key) (m : σ) :
  (∀ k x, x ∈ ((process g p l e s).run m).1.endings.row k ↔
    x ∈ s.endings.row k ∨ (g.leaves e.point = true ∧ e.key = k ∧ e.ending = x)) ∧
  ((process g p l e s).run m).1.ended = s.ended + if g.leaves e.point then 1 else 0
  := by
  have hquiet : ∀ t : State μ φ, s.SameEndings t → g.leaves e.point = false →
      (∀ k x, x ∈ t.endings.row k ↔
        x ∈ s.endings.row k ∨ (g.leaves e.point = true ∧ e.key = k ∧ e.ending = x)) ∧
      t.ended = s.ended + if g.leaves e.point then 1 else 0 := by
    intro t hsame hleaves
    simp [hsame.1, hsame.2, hleaves]
  rw [process]
  split
  · next hcall =>
    apply hquiet _ (sameEndings_callOut e s m)
    simp [Graph.leaves, hcall]
  · next hcall =>
    split
    · next hexit =>
      obtain ⟨hendings, hended⟩ := sameEndings_leave (g := g) (p := p) (l := l) hnew m
      have hleaves : g.leaves e.point = true := by simp [Graph.leaves, hcall, hexit]
      rw [hendings, hended, hleaves]
      refine ⟨fun k x => ?_, rfl⟩
      rw [Table.mem_row_add, or_comm, eq_comm (a := x)]
      simp
    · next hexit =>
      apply hquiet _ (sameEndings_emitAll _ _ _ s m)
      simp [Graph.leaves, hexit]

end Stateful

/-! ### What the log tells -/

/-- The log holds the path edges that were taken up so far, in the order of their discovery, and the
endings of the state are those of the log. -/
structure Logged (g : Graph μ) (log : List (PathEdge μ φ)) (s : State μ φ) : Prop where
  length : log.length = s.taken
  isPrefix : log <+: s.edges.toList
  endings : ∀ k x, x ∈ s.endings.row k ↔
    ∃ e ∈ log, g.leaves e.point = true ∧ e.key = k ∧ e.ending = x
  ended : s.ended = log.countP (fun e => g.leaves e.point)

namespace Logged

variable {g : Graph μ} {p : Stateful μ φ σ} {l : Limits} {s : State μ φ}
  {log : List (PathEdge μ φ)} {e : PathEdge μ φ}

/-- The path edge to be taken up next follows the log, and is not in it. -/
theorem next (h : Logged g log s) (he : s.edges.items[s.taken]? = some e) :
  log ++ [e] <+: s.edges.toList ∧ e ∉ log
  := by
  obtain ⟨rest, hrest⟩ := h.isPrefix
  rw [Distinct.getElem?_items, ← hrest, ← h.length, List.getElem?_append_right (Nat.le_refl _),
    Nat.sub_self] at he
  obtain ⟨rest, rfl⟩ : ∃ rest', rest = e :: rest' := by
    cases rest with
    | nil => cases he
    | cons e' rest =>
        obtain rfl := Option.some.inj he
        use rest
  have hnodup : (log ++ e :: rest).Nodup := by
    rw [hrest]
    apply s.edges.nodup
  constructor
  · use rest
    rw [← hrest, List.append_assoc, List.singleton_append]
  · intro hmem
    apply (List.nodup_append.1 hnodup).2.2 e hmem e List.mem_cons_self rfl

/-- One more path edge is processed. -/
theorem process (h : Logged g log s) (he : s.edges.items[s.taken]? = some e) (m : σ) :
  Logged g (log ++ [e])
    ((Stateful.process g p l e { s with taken := s.taken + 1 }).run m).1
  := by
  obtain ⟨hstart, hlog⟩ := h.next he
  have hmem : e ∈ s.edges := by
    rw [← Distinct.mem_toList]
    apply hstart.subset
    simp
  have hmoves := Stateful.moves_process (g := g) (p := p) (l := l) []
    (s.extends_take.mem_edges hmem) m
  have hnew : e.ending ∉ s.endings.row e.key := by
    intro hold
    obtain ⟨e', he', _, hkey, hending⟩ := (h.endings _ _).1 hold
    apply hlog (PathEdge.eq_of_ending hkey hending ▸ he')
  obtain ⟨hendings, hended⟩ := Stateful.endings_process (g := g) (p := p) (l := l)
    (s := { s with taken := s.taken + 1 }) hnew m
  constructor
  · rw [hmoves.taken, List.length_append, h.length]
    rfl
  · apply hstart.trans hmoves.extends.edges
  · intro k x
    simp only [List.mem_append, List.mem_singleton, or_and_right, exists_or, exists_eq_left]
    rw [← h.endings]
    apply hendings
  · rw [hended, List.countP_append, List.countP_singleton, h.ended]

/-- A run continues the log. -/
theorem run (h : Logged g log s) (n : Nat) (m : σ) :
  Logged g (log ++ ((Stateful.runLogged g p l n s).run m).1.1)
    ((Stateful.runLogged g p l n s).run m).1.2
  := by
  induction n generalizing s log m with
  | zero =>
      rw [← List.append_nil log] at h
      apply h
  | succ n ih =>
      by_cases hdone : s.edges.items[s.taken]? = none
      · rw [← List.append_nil log] at h
        rw [Stateful.runLogged_of_done hdone]
        apply h
      · obtain ⟨e, _, he, _⟩ := Stateful.exists_next hdone
        rw [Stateful.run_runLogged_of_next he, List.append_cons]
        apply ih (h.process he m)

theorem seeded (m : σ) :
  Logged g [] ((Stateful.seeded p l).run m).1
  := by
  have hsame : State.SameEndings {} ((Stateful.seeded p l).run m).1 := by
    apply State.SameEndings.foldl
    intro t e
    apply State.SameEndings.propagate
  constructor
  · apply (Stateful.moves_seeded (g := g) m).taken.symm
  · apply List.nil_prefix
  · intro k x
    rw [hsame.1]
    simp
  · rw [hsame.2]
    rfl

/-- The endings in the table are as many as were counted. -/
theorem length_entries (h : Logged g log s) :
  s.endings.entries.length = s.ended
  := by
  have hnodup : log.Nodup := h.isPrefix.sublist.nodup s.edges.nodup
  have hperm : s.endings.entries.Perm
      ((log.filter (fun e => g.leaves e.point)).map (fun e => (e.key, e.ending))) := by
    apply (List.perm_ext_iff_of_nodup s.endings.nodup_entries _).2
    · rintro ⟨k, x⟩
      rw [Table.mem_entries, h.endings]
      simp [and_assoc]
    · apply (hnodup.filter _).map_on
      intro e _ e' _ heq
      obtain ⟨hkey, hending⟩ := Prod.mk.inj heq
      apply PathEdge.eq_of_ending hkey hending
  rw [hperm.length_eq, List.length_map, ← List.countP_eq_length_filter, h.ended]

theorem taken_le (h : Logged g log s) :
  s.taken ≤ s.edges.size
  := by
  rw [← h.length, Distinct.size_eq_length]
  apply h.isPrefix.length_le

theorem eq_toList (h : Logged g log s) (hdone : s.edges.size ≤ s.taken) :
  log = s.edges.toList
  := by
  rw [← h.length, Distinct.size_eq_length] at hdone
  apply h.isPrefix.eq_of_length_le hdone

/-- A path edge is left if and only if fewer were taken up than there are. -/
theorem exists_not_mem_iff (h : Logged g log s) :
  (∃ e ∈ s.edges, e ∉ log) ↔ s.taken < s.edges.size
  := by
  constructor
  · rintro ⟨e, he, hlog⟩
    by_contra hdone
    apply hlog
    rw [h.eq_toList (Nat.le_of_not_lt hdone), Distinct.mem_toList]
    apply he
  · intro hlt
    have hnext : s.edges.items[s.taken]? ≠ none := by
      rw [Ne, Array.getElem?_eq_none_iff]
      apply Nat.not_le_of_lt hlt
    obtain ⟨e, hmem, he, _⟩ := Stateful.exists_next hnext
    use e, hmem, (h.next he).2

end Logged

/-! ### Facts -/

/-- The facts are those of the path edges, and no statement has more of them than it may hold. -/
structure State.Filled (l : Limits) (s : State μ φ) : Prop where
  agrees : s.Agrees
  room : ∀ q, (s.facts.row q).size ≤ l.factsPerPoint

namespace State.Filled

variable {g : Graph μ} {seeds : List (Point μ × φ)} {l : Limits} {s t : State μ φ}

theorem empty :
  Filled l ({} : State μ φ)
  := by
  constructor
  · intro q d
    simp
  · intro q
    simp

theorem propagate (h : s.Filled l) (e : PathEdge μ φ) :
  (s.propagate l e).Filled l
  := by
  use h.agrees.propagate e
  rw [State.propagate]
  split
  · apply h.room
  · split
    · apply h.room
    · split
      · apply h.room
      · next hroom =>
        apply Table.size_row_add_le h.room (Nat.lt_of_not_le hroom)

theorem move (h : Move g seeds l s t) (hs : s.Filled l) :
  t.Filled l
  := by
  cases h with
  | edge _ => apply hs.propagate
  | context _ _ _ => exact { hs with }
  | ending _ _ _ => exact { hs with }
  | latest _ => exact { hs with }

end State.Filled

/-! ### Whole runs -/

/-- The tables and the statistics at the end of a run that processed certain path edges. -/
structure Consistent (g : Graph μ) (l : Limits) (processed : List (PathEdge μ φ))
    (s : State μ φ) : Prop where
  nodup : ∀ q, (s.factsAt q).Nodup
  room : ∀ q, (s.factsAt q).length ≤ l.factsPerPoint
  facts : ∀ q d, d ∈ s.factsAt q ↔ ∃ e ∈ s.edges, e.point = q ∧ e.fact = d
  order : processed <+: s.edges.toList
  pathEdges : s.statistics.pathEdges = s.edges.toList.length
  iterations : s.statistics.iterations = processed.length
  bounded : s.statistics.iterations ≤ min s.statistics.pathEdges l.iterations
  truncated : s.statistics.truncated = true ↔
    0 < s.statistics.dropped ∨ ∃ e ∈ s.edges, e ∉ processed
  endings : s.statistics.endings = s.endings.entries.length
  complete : s.statistics.truncated = false →
    s.statistics.iterations = s.statistics.pathEdges ∧
    s.statistics.endings = s.edges.toList.countP (fun e => g.leaves e.point)

theorem Consistent.of_logged {g : Graph μ} {l : Limits} {log : List (PathEdge μ φ)} {s : State μ φ}
    (hlogged : Logged g log s) (hfilled : s.Filled l) (hlimit : log.length ≤ l.iterations) :
  Consistent g l log s
  := by
  have htruncated : s.truncated = true ↔ 0 < s.dropped ∨ ∃ e ∈ s.edges, e ∉ log := by
    rw [hlogged.exists_not_mem_iff, State.truncated, Bool.or_eq_true, decide_eq_true_iff,
      decide_eq_true_iff]
  constructor
  · intro q
    apply (s.facts.row q).nodup
  · intro q
    rw [State.factsAt, ← Distinct.size_eq_length]
    apply hfilled.room
  · intro q d
    rw [State.factsAt, Distinct.mem_toList, hfilled.agrees]
    constructor
    · rintro ⟨source, he⟩
      use ⟨source, q, d⟩, he
    · rintro ⟨e, he, rfl, rfl⟩
      use e.source, he
  · apply hlogged.isPrefix
  · apply Distinct.size_eq_length
  · apply hlogged.length.symm
  · apply Nat.le_min.2 ⟨hlogged.taken_le, _⟩
    rw [← hlogged.length]
    apply hlimit
  · apply htruncated
  · apply hlogged.length_entries.symm
  · intro hcomplete
    have hdone : s.edges.size ≤ s.taken := (State.truncated_eq_false.1 hcomplete).2
    constructor
    · apply Nat.le_antisymm hlogged.taken_le hdone
    · rw [← hlogged.eq_toList hdone]
      apply hlogged.ended

namespace Stateful

variable {g : Graph μ} {p : Stateful μ φ σ} {l : Limits}

theorem filled_solve (m : σ) :
  ((solve g p l).run m).1.Filled l
  := by
  apply solve_keeps
  · apply State.Filled.empty
  · intro s t hmove hs
    apply hs.move hmove
  · intro s _ hs
    exact { hs with }

/-- The notes of a whole run. -/
theorem solve_eq_solveLogged (m : σ) :
  (solve g p l).run m = (((solveLogged g p l).run m).1.2, ((solveLogged g p l).run m).2)
  := run_eq_runLogged l.iterations ((seeded p l).run m).1 ((seeded p l).run m).2

/-- At the end of a run the tables and the statistics agree, whatever the problem, the graph and the
limits are. -/
theorem solve_consistent (g : Graph μ) (p : Stateful μ φ σ) (l : Limits) (m : σ) :
  ∃ processed,
    (solveLogged g p l).run m =
      ((processed, ((solve g p l).run m).1), ((solve g p l).run m).2) ∧
    Consistent g l processed ((solve g p l).run m).1
  := by
  use ((solveLogged g p l).run m).1.1
  constructor
  · rw [solve_eq_solveLogged]
    rfl
  · apply Consistent.of_logged
    · rw [solve_eq_solveLogged]
      apply (Logged.seeded m).run
    · apply filled_solve
    · apply length_runLogged

end Stateful

end Tabulation

end ServiceFlow
