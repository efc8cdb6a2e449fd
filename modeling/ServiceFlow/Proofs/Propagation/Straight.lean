import ServiceFlow.Proofs.Propagation.Bound
import ServiceFlow.Proofs.Propagation.Machine
import ServiceFlow.Proofs.Propagation.Run
import ServiceFlow.Proofs.Tabulation.Determined

/-!
# Straight programs

In a straight program no statement jumps and no invocation is followed: control goes from a
statement to the one behind it.  A statement is then reached with a single store, the one that the
statements before it make of the seeds one after another.
-/

namespace ServiceFlow

/-! ### The store before a statement -/

/-- Control goes on to the statement behind. -/
def Stmt.fallsThrough : Stmt → Bool
  | .identity _ _ => true
  | .assign _ _ => true
  | .invoke _ => true
  | .nop => true
  | _ => false

theorem Stmt.isReturn_of_fallsThrough {stmt : Stmt} (h : stmt.fallsThrough) :
  stmt.isReturn = false
  := by
  cases stmt <;> simp_all [fallsThrough, isReturn]

theorem Body.succ_mem_successors {b : Body} {offset : Nat} {stmt : Stmt}
    (hstmt : b.stmts[offset]? = some stmt) (hfalls : stmt.fallsThrough)
    (hnext : offset + 1 < b.stmts.length) :
  offset + 1 ∈ b.successors offset
  := by
  have hraw : rawSuccessors offset stmt = [offset + 1] := by
    cases stmt <;> simp_all [Stmt.fallsThrough, rawSuccessors]
  simp [successors, hstmt, hraw, hnext, dropRepeats]

namespace View

/-- What the statements of its method before a statement make of a store. -/
def storeBefore (v : View) (s : Store) (q : StmtId) : Store :=
  (((v.body? q.method).elim [] Body.stmts).take q.offset).foldl (Stmt.apply v q.method) s

theorem storeBefore_of_body? {v : View} {m : MethodSig} {b : Body} (hb : v.body? m = some b)
    (s : Store) (offset : Nat) :
  v.storeBefore s ⟨m, offset⟩ = (b.stmts.take offset).foldl (Stmt.apply v m) s
  := by
  rw [storeBefore, hb]
  rfl

@[simp] theorem storeBefore_start (v : View) (s : Store) (m : MethodSig) :
  v.storeBefore s ⟨m, 0⟩ = s
  := by
  simp [storeBefore]

/-- No statement jumps, and no invocation is followed. -/
structure IsStraight (v : View) (skip : Invoke → Bool) : Prop where
  jumps : ∀ q stmt, v.stmt? q = some stmt → stmt.jumps = []
  skipped : ∀ q i, v.invokeAt? q = some i → skip i

end View

namespace Propagation

variable {g : Supergraph} {v : View} {entries : List MethodSig} {skip : Invoke → Bool}

theorem after_storeBefore (g : Supergraph) (s : Store) (q : StmtId) :
  after g q (g.view.storeBefore s q) = g.view.storeBefore s ⟨q.method, q.offset + 1⟩
  := by
  rw [after, View.stmt?, View.storeBefore, View.storeBefore]
  cases g.view.body? q.method with
  | none => simp
  | some b =>
      dsimp only [Option.bind_some, Option.elim_some]
      rw [List.take_add_one, List.foldl_append]
      cases b.stmts[q.offset]? with
      | none => rfl
      | some stmt => rfl

/-! ### Steps along a body -/

/-- Control goes on from a statement that does not jump to the one behind it. -/
theorem eq_succ_of_mem_successors {q next : StmtId}
    (hjumps : ∀ stmt, g.view.stmt? q = some stmt → stmt.jumps = [])
    (hnext : next ∈ g.successors q) :
  next = ⟨q.method, q.offset + 1⟩
  := by
  obtain ⟨m, o⟩ := next
  obtain ⟨b, hb, rfl, ho⟩ := Supergraph.mem_successors hnext
  rw [Body.successors] at ho
  split at ho
  · cases ho
  · next stmt hstmt =>
    have hraw := (List.mem_filter.1 (mem_of_mem_dropRepeats ho)).1
    rcases Body.mem_rawSuccessors hraw with rfl | hjump
    · rfl
    · rw [hjumps stmt (by rw [View.stmt?, hb, Option.bind_some, hstmt])] at hjump
      cases hjump

section

variable (hg : Supergraph.build v entries skip = .ok g)
include hg

theorem callees_of_skipped {q : StmtId} (hskip : ∀ i, v.invokeAt? q = some i → skip i) :
  g.callees q = []
  := by
  apply Supergraph.callees_of_not_follows hg
  intro i hi
  have hskipped := hskip i hi.invoke
  rw [hi.followed] at hskipped
  cases hskipped

/-- From a statement that falls through and enters no method control goes on. -/
theorem step_of_skipped (entry : MethodSig) (seeds : Store) {q : StmtId} {stmt : Stmt}
    (hstmt : v.stmt? q = some stmt) (hfalls : stmt.fallsThrough)
    (hskip : ∀ i, stmt.invoke? = some i → skip i)
    (hnext : q.offset + 1 < ((v.body? q.method).elim [] Body.stmts).length) (s : Store)
    (stack : List (Tabulation.OpenCall MethodSig Store)) :
  Tabulation.Step (flowGraph g) (problem g entry seeds) ⟨q, s, stack⟩
    ⟨⟨q.method, q.offset + 1⟩, after g q s, stack⟩
  := by
  obtain rfl := Supergraph.view_build hg
  obtain ⟨b, hb, hoffset⟩ := View.stmt?_eq_some hstmt
  have hsuccessor : ⟨q.method, q.offset + 1⟩ ∈ (flowGraph g).successors q := by
    rw [hb] at hnext
    simpa [flowGraph, Supergraph.successors, hb] using
      Body.succ_mem_successors hoffset hfalls hnext
  have hcallees : g.callees q = [] := by
    apply callees_of_skipped hg
    intro i hi
    rw [View.invokeAt?, hstmt] at hi
    apply hskip i hi
  cases hcall : g.isCall q with
  | false =>
      apply Tabulation.Step.normal hcall _ hsuccessor List.mem_cons_self
      simp [flowGraph, Supergraph.isExit, hstmt, Stmt.isReturn_of_fallsThrough hfalls]
  | true =>
      apply Tabulation.Step.pass hcall hsuccessor
      simp [problem, mayReturn, hcallees]

/-- From the start of a body control reaches a statement over all that fall through and enter no
method. -/
theorem steps_of_skipped (entry : MethodSig) (seeds : Store) {m : MethodSig} {b : Body}
    (hb : v.body? m = some b) {offset : Nat} (hoffset : offset < b.stmts.length)
    (hbefore : ∀ stmt ∈ b.stmts.take offset,
      stmt.fallsThrough ∧ ∀ i, stmt.invoke? = some i → skip i)
    (s : Store) (stack : List (Tabulation.OpenCall MethodSig Store)) :
  Tabulation.Steps (flowGraph g) (problem g entry seeds) ⟨⟨m, 0⟩, s, stack⟩
    ⟨⟨m, offset⟩, v.storeBefore s ⟨m, offset⟩, stack⟩
  := by
  induction offset with
  | zero =>
      rw [View.storeBefore_start]
  | succ offset ih =>
      have hlt : offset < b.stmts.length := Nat.lt_of_succ_lt hoffset
      have hstmt : b.stmts[offset]? = some b.stmts[offset] := List.getElem?_eq_getElem hlt
      have htake : b.stmts.take (offset + 1) = b.stmts.take offset ++ [b.stmts[offset]] := by
        rw [List.take_add_one, hstmt]
        rfl
      rw [htake] at hbefore
      obtain ⟨hfalls, hskip⟩ := hbefore _ (List.mem_append_right _ List.mem_cons_self)
      have hat : v.stmt? ⟨m, offset⟩ = some b.stmts[offset] := by
        rw [View.stmt?, hb, Option.bind_some, hstmt]
      have hnext : offset + 1 < ((v.body? m).elim [] Body.stmts).length := by
        rw [hb]
        apply hoffset
      have hstep := step_of_skipped hg entry seeds hat hfalls hskip hnext
        (v.storeBefore s ⟨m, offset⟩) stack
      obtain rfl := Supergraph.view_build hg
      rw [after_storeBefore] at hstep
      apply (ih hlt (fun stmt hmem => hbefore stmt (List.mem_append_left _ hmem))).tail hstep

end

/-! ### Straight programs -/

theorem build_of_isStraight (hv : v.IsStraight skip) (hentries : ∀ m ∈ entries, v.hasBody m) :
  ∃ g, Supergraph.build v entries skip = .ok g
  := by
  apply Supergraph.exists_build hentries
  intro p i hp
  have hskipped := hv.skipped p i hp.invoke
  rw [hp.followed] at hskipped
  cases hskipped

variable (hg : Supergraph.build v entries skip = .ok g) (hv : v.IsStraight skip)
include hg hv

theorem respects_storeBefore (entry : MethodSig) (seeds : Store) :
  (problem g entry seeds).Respects (flowGraph g) (v.storeBefore seeds)
  := by
  have hcallees : ∀ q, g.callees q = [] := fun q => callees_of_skipped hg (hv.skipped q)
  obtain rfl := Supergraph.view_build hg
  have hnext : ∀ q, ∀ next ∈ g.successors q, next = ⟨q.method, q.offset + 1⟩ := by
    intro q next
    apply eq_succ_of_mem_successors (hv.jumps q)
  constructor
  · intro e he
    obtain ⟨q, hq, rfl⟩ := List.mem_map.1 he
    rw [Supergraph.mem_starts hq, View.storeBefore_start]
  · intro q next hmem _ _ d hd
    rw [hnext q next hmem, ← after_storeBefore]
    apply List.mem_singleton.1 hd
  · intro q next hmem _ d hd
    have hpass : (problem g entry seeds).pass q next (g.view.storeBefore seeds q) =
        [after g q (g.view.storeBefore seeds q)] := by
      simp [problem, mayReturn, hcallees]
    rw [hpass] at hd
    rw [hnext q next hmem, ← after_storeBefore]
    apply List.mem_singleton.1 hd
  · intro q callee hcallee
    rw [show (flowGraph g).callees q = [] from hcallees q] at hcallee
    cases hcallee
  · intro q next _ exit hcallee
    rw [show (flowGraph g).callees q = [] from hcallees q] at hcallee
    cases hcallee

/-- Control stays in the body it starts in. -/
theorem encloses_of_isStraight {m : MethodSig} {b : Body} (hb : v.body? m = some b) :
  (flowGraph g).Encloses (⟨·, 0⟩) ((List.range b.stmts.length).map (fun o => ⟨m, o⟩)).toFinset
  := by
  constructor
  · intro q hq next hnext
    rw [List.mem_toFinset] at hq ⊢
    obtain ⟨o, _, rfl⟩ := List.mem_map.1 hq
    obtain ⟨b', hb', rfl, ho⟩ := Supergraph.mem_successors hnext
    rw [Supergraph.view_build hg, hb] at hb'
    obtain rfl := Option.some.inj hb'
    constructor
    · apply List.mem_map.2
      use next.offset, List.mem_range.2 (Body.lt_of_mem_successors ho)
    · rfl
  · intro q _ callee hcallee
    rw [show (flowGraph g).callees q = [] from callees_of_skipped hg (hv.skipped q)] at hcallee
    cases hcallee

end Propagation

namespace Run

open Propagation

variable {v : View} {t : LoadTarget} {l : Tabulation.Limits} {r : Run}

section

variable (hv : v.IsStraight t.skips) {m : MethodSig} {b : Body} (hb : v.body? m = some b)
  (seeds : Store)
include hv hb

theorem execute_of_isStraight :
  ∃ g, Supergraph.build v [m] t.skips = .ok g ∧ execute v m seeds t l =
    .ok ⟨g, Tabulation.solve (flowGraph g) (problem g m seeds) l⟩
  := by
  have hbody : ∀ n ∈ [m], v.hasBody n := by simp [View.hasBody, hb]
  obtain ⟨g, hg⟩ := build_of_isStraight hv hbody
  use g, hg
  rw [execute, hg]
  rfl

variable {offset : Nat} (hoffset : offset < b.stmts.length)
include hoffset

/-- A run that is not cut short finds one store for each statement that is reached. -/
theorem factsAt_of_isStraight (hrun : execute v m seeds t l = .ok r)
    (hcut : r.state.truncated = false)
    (hbefore : ∀ stmt ∈ b.stmts.take offset, stmt.fallsThrough) :
  r.factsAt ⟨m, offset⟩ = [v.storeBefore seeds ⟨m, offset⟩]
  := by
  obtain ⟨g, hg, hexecute⟩ := execute_of_isStraight (l := l) hv hb seeds
  obtain rfl := Except.ok.inj (hexecute.symm.trans hrun)
  have hreached : Tabulation.Reachable (flowGraph g) (problem g m seeds)
      ⟨⟨m, offset⟩, v.storeBefore seeds ⟨m, offset⟩, []⟩ := by
    have hne : b.stmts ≠ [] := List.ne_nil_of_length_pos (Nat.zero_lt_of_lt hoffset)
    have hseed : (⟨m, 0⟩, seeds) ∈ (problem g m seeds).seeds := by
      simp [problem, Supergraph.starts, Supergraph.view_build hg, hb, hne]
    apply (Tabulation.Reachable.seed hseed).steps
    apply steps_of_skipped hg m seeds hb hoffset
    intro stmt hstmt
    use hbefore stmt hstmt
    intro i hi
    obtain ⟨o, ho⟩ := List.getElem?_of_mem (List.mem_of_mem_take hstmt)
    apply hv.skipped ⟨m, o⟩
    rw [View.invokeAt?, View.stmt?, hb, Option.bind_some, ho, Option.bind_some, hi]
  apply ((respects_storeBefore hg hv m seeds).determined (flowGraph_isLocal g)).factsAt_solve
    (flowGraph_isLocal g) (problem_seededAtStarts g m seeds) hcut hreached

/-- A run of a straight program ends when each statement of the body was processed once. -/
theorem truncated_of_isStraight (hrun : execute v m seeds t l = .ok r)
    (hroom : 1 ≤ l.factsPerPoint) (henough : b.stmts.length ≤ l.iterations) :
  r.state.truncated = false
  := by
  obtain ⟨g, hg, hexecute⟩ := execute_of_isStraight (l := l) hv hb seeds
  obtain rfl := Except.ok.inj (hexecute.symm.trans hrun)
  have hstarts : (problem g m seeds).seeds = [(⟨m, 0⟩, seeds)] := by
    have hne : b.stmts ≠ [] := List.ne_nil_of_length_pos (Nat.zero_lt_of_lt hoffset)
    simp [problem, Supergraph.starts, Supergraph.view_build hg, hb, hne]
  apply ((respects_storeBefore hg hv m seeds).determined (flowGraph_isLocal g)).truncated_solve
    (flowGraph_isLocal g) (problem_seededAtStarts g m seeds) (encloses_of_isStraight hg hv hb) _
    hroom
  · apply le_trans (List.toFinset_card_le _)
    simpa using henough
  · rw [hstarts]
    intro e he
    obtain rfl := List.mem_singleton.1 he
    simpa using Nat.zero_lt_of_lt hoffset

theorem exists_factsAt_of_isStraight (hroom : 1 ≤ l.factsPerPoint)
    (henough : b.stmts.length ≤ l.iterations)
    (hbefore : ∀ stmt ∈ b.stmts.take offset, stmt.fallsThrough) :
  ∃ r, execute v m seeds t l = .ok r ∧ r.factsAt ⟨m, offset⟩ = [v.storeBefore seeds ⟨m, offset⟩]
  := by
  obtain ⟨g, _, hrun⟩ := execute_of_isStraight (l := l) hv hb seeds
  have hcut := truncated_of_isStraight hv hb seeds hoffset hrun hroom henough
  exact ⟨_, hrun, factsAt_of_isStraight hv hb seeds hoffset hrun hcut hbefore⟩

end

/-- A single store at a call resolves it or leaves it open. -/
theorem outcome_of_factsAt {c : LoadCall} {s : Store} (h : r.factsAt c.site = [s]) :
  r.outcome c = if (c.withValues s).isResolved then ⟨[c.withValues s], 1, 0⟩ else ⟨[], 1, 1⟩
  := by
  rw [outcome, h]
  cases hresolved : (c.withValues s).isResolved <;> simp [hresolved, List.eraseDups_cons]

end Run

end ServiceFlow
