import ServiceFlow.Proofs.Program.LoadSite
import ServiceFlow.Proofs.Program.Supergraph
import ServiceFlow.Proofs.Tabulation.Exactness
import ServiceFlow.Propagation.Run

/-!
# What a run finds

The facts of a run are those that reach a statement along paths with matching calls and returns:
never more, and all of them if no bound cut the run short.  What a run says about a load call is
therefore final only under that condition: a conclusive outcome of a run that was cut short may
miss values.
-/

namespace ServiceFlow

namespace Propagation

theorem flowGraph_isLocal (g : Supergraph) :
  (flowGraph g).IsLocal
  := by
  constructor
  · intro q next hnext
    obtain ⟨_, _, hmethod, _⟩ := Supergraph.mem_successors hnext
    apply hmethod
  · intro m q hq
    rw [Supergraph.mem_starts hq]

theorem problem_seededAtStarts (g : Supergraph) (entry : MethodSig) (seeds : Store) :
  (problem g entry seeds).SeededAtStarts (flowGraph g)
  := by
  intro e he
  obtain ⟨q, hq, rfl⟩ := List.mem_map.1 he
  have hmethod : q.method = entry := by rw [Supergraph.mem_starts hq]
  rw [hmethod]
  apply hq

/-- The fact reaches the statement along a path with matching calls and returns. -/
def Reaches (g : Supergraph) (entry : MethodSig) (seeds : Store) (q : StmtId) (s : Store) : Prop :=
  ∃ stack, Tabulation.Reachable (flowGraph g) (problem g entry seeds) ⟨q, s, stack⟩

end Propagation

namespace Run

open Propagation

variable {v : View} {entry : MethodSig} {seeds : Store} {t : LoadTarget} {l : Tabulation.Limits}
  {r : Run}

theorem execute_eq_ok (h : execute v entry seeds t l = .ok r) :
  Supergraph.build v [entry] t.skips = .ok r.graph ∧
    r.state = Tabulation.solve (flowGraph r.graph) (problem r.graph entry seeds) l
  := by
  obtain ⟨g, hg, hr⟩ := bind_eq_ok h
  obtain rfl := Except.ok.inj hr
  use hg

theorem reaches_of_mem_factsAt (h : execute v entry seeds t l = .ok r) {q : StmtId} {s : Store}
    (hs : s ∈ r.factsAt q) :
  Reaches r.graph entry seeds q s
  := by
  rw [factsAt, (execute_eq_ok h).2] at hs
  apply Tabulation.reachable_of_mem_factsAt (flowGraph_isLocal _)
    (problem_seededAtStarts _ _ _) hs

theorem mem_factsAt_of_reaches (h : execute v entry seeds t l = .ok r)
    (hcut : r.state.truncated = false) {q : StmtId} {s : Store}
    (hs : Reaches r.graph entry seeds q s) :
  s ∈ r.factsAt q
  := by
  obtain ⟨stack, hreach⟩ := hs
  have hstate := (execute_eq_ok h).2
  rw [hstate] at hcut
  rw [factsAt, hstate]
  apply Tabulation.mem_factsAt_of_reachable (flowGraph_isLocal _) hcut hreach

/-! ### Outcomes -/

theorem isConclusive_outcome (r : Run) (c : LoadCall) :
  (r.outcome c).isConclusive ↔
    (∃ s, s ∈ r.factsAt c.site) ∧ ∀ s ∈ r.factsAt c.site, (c.withValues s).isResolved
  := by
  rw [outcome, Outcome.isConclusive, Bool.and_eq_true, decide_eq_true_eq, decide_eq_true_eq,
    List.length_map, List.length_pos_iff_exists_mem, List.countP_eq_zero, List.forall_mem_map]
  simp

theorem mem_resolved_outcome (r : Run) (c d : LoadCall) :
  d ∈ (r.outcome c).resolved ↔ ∃ s ∈ r.factsAt c.site, c.withValues s = d ∧ d.isResolved
  := by
  simp only [outcome, List.mem_eraseDups, List.mem_filter, List.mem_map]
  constructor
  · rintro ⟨⟨s, hs, rfl⟩, hresolved⟩
    use s, hs
  · rintro ⟨s, hs, rfl, hresolved⟩
    use ⟨s, hs, rfl⟩, hresolved

/-- Every fact that reaches the call resolves it, and the outcome has the resolved call. -/
def Covers (r : Run) (entry : MethodSig) (seeds : Store) (c : LoadCall) : Prop :=
  ∀ s, Reaches r.graph entry seeds c.site s →
    (c.withValues s).isResolved ∧ c.withValues s ∈ (r.outcome c).resolved

/-- Where the run has found all values of the call, a conclusive outcome covers it. -/
theorem covers_of_found {c : LoadCall} (hc : (r.outcome c).isConclusive)
    (hfound : ∀ s, Reaches r.graph entry seeds c.site s →
      ∃ d ∈ r.factsAt c.site, c.withValues d = c.withValues s) :
  r.Covers entry seeds c
  := by
  intro s hs
  obtain ⟨d, hd, hvalues⟩ := hfound s hs
  have hresolved := ((isConclusive_outcome r c).1 hc).2 d hd
  rw [hvalues] at hresolved
  use hresolved
  apply (mem_resolved_outcome r c _).2 ⟨d, hd, hvalues, hresolved⟩

/-- What an outcome covers was found by the run. -/
theorem Covers.found {c : LoadCall} (h : r.Covers entry seeds c) {s : Store}
    (hs : Reaches r.graph entry seeds c.site s) :
  ∃ d ∈ r.factsAt c.site, c.withValues d = c.withValues s
  := by
  obtain ⟨d, hd, hvalues, _⟩ := (mem_resolved_outcome r c _).1 (h s hs).2
  use d

theorem reaches_of_isConclusive (h : execute v entry seeds t l = .ok r) {c : LoadCall}
    (hc : (r.outcome c).isConclusive) :
  ∃ s, Reaches r.graph entry seeds c.site s
  := by
  obtain ⟨s, hs⟩ := ((isConclusive_outcome r c).1 hc).1
  use s
  apply reaches_of_mem_factsAt h hs

/-- A conclusive outcome covers its call exactly if the run has found all values of the call.  A run
that was not cut short has, and then its outcome is conclusive whenever the call is reached and
covered. -/
theorem isConclusive_covers_iff (h : execute v entry seeds t l = .ok r) (c : LoadCall) :
  ((r.outcome c).isConclusive →
    (∃ s, Reaches r.graph entry seeds c.site s) ∧
    (r.Covers entry seeds c ↔ ∀ s, Reaches r.graph entry seeds c.site s →
      ∃ d ∈ r.factsAt c.site, c.withValues d = c.withValues s)) ∧
  (r.state.truncated = false →
    ((r.outcome c).isConclusive ↔
      (∃ s, Reaches r.graph entry seeds c.site s) ∧ r.Covers entry seeds c))
  := by
  constructor
  · intro hc
    use reaches_of_isConclusive h hc
    constructor
    · intro hcovers s hs
      apply hcovers.found hs
    · apply covers_of_found hc
  · intro hcut
    constructor
    · intro hc
      use reaches_of_isConclusive h hc
      apply covers_of_found hc
      intro s hs
      use s, mem_factsAt_of_reaches h hcut hs
    · rintro ⟨⟨s, hs⟩, hcovers⟩
      rw [isConclusive_outcome]
      constructor
      · use s, mem_factsAt_of_reaches h hcut hs
      · intro d hd
        apply (hcovers d (reaches_of_mem_factsAt h hd)).1

end Run

/-! ### A run that is cut short -/

namespace Choice

/-! A program that loads the class picked by another of its methods, which may lose it. -/

def main : MethodSig := ⟨⟨"A"⟩, "main", [], .void⟩
def pick : MethodSig := ⟨⟨"A"⟩, "pick", [], .cls⟩
def picked : Local := ⟨"c", .cls⟩

def load : Invoke := loadOf picked

def mainBody : Body := ⟨[picked], [
  .assign (.var picked) (.invoke ⟨.static, pick, none, []⟩),
  .invoke load,
  .retVoid]⟩

def pickBody : Body := ⟨[picked], [
  .assign (.var picked) (.operand (.const (.cls "a.Impl"))),
  .branch [] 3,
  .assign (.var picked) (.uninterpreted "next()"),
  .ret (.var picked)]⟩

def view : View := .ofList
  [⟨⟨"A"⟩, none, [], none, [⟨main, true, some mainBody⟩, ⟨pick, true, some pickBody⟩]⟩]

def graph : Supergraph := ⟨view, [main, pick], [⟨⟨main, 0⟩, [pick]⟩, ⟨⟨main, 1⟩, []⟩]⟩

/-- The store in which the picked class is known in a method. -/
def known (m : MethodSig) : Store := Store.empty.setVar m picked (.cls "a.Impl")

/-- The run with a bound on the facts of a statement. -/
def run (facts : Nat) : Run :=
  ⟨graph, Tabulation.solve (Propagation.flowGraph graph)
    (Propagation.problem graph main .empty) ⟨20, facts⟩⟩

theorem execute_eq_run (facts : Nat) :
  Run.execute view main .empty {} ⟨20, facts⟩ = .ok (run facts)
  := rfl

theorem run_two :
  (run 2).state.truncated = false ∧ (run 2).factsAt ⟨main, 1⟩ = [known main, .empty]
  := by
  simp only [run, Run.factsAt, Tabulation.truncated_solve, Tabulation.factsAt_solve]
  decide +kernel

theorem run_one :
  (run 1).state.truncated = true ∧ (run 1).factsAt ⟨main, 1⟩ = [known main]
  := by
  simp only [run, Run.factsAt, Tabulation.truncated_solve, Tabulation.factsAt_solve]
  decide +kernel

def call : LoadCall := .ofInvoke ⟨main, 1⟩ load

theorem reaches_call_empty (facts : Nat) :
  Propagation.Reaches (run facts).graph main .empty call.site .empty
  := by
  apply Run.reaches_of_mem_factsAt (execute_eq_run 2)
  simp [call, LoadCall.ofInvoke, run_two]

/-- With one fact for each statement the outcome is conclusive, though the call is reached with an
unknown class. -/
theorem isConclusive_not_covers :
  Run.execute view main .empty {} ⟨20, 1⟩ = .ok (run 1) ∧
  ((run 1).outcome call).isConclusive ∧ ¬(run 1).Covers main .empty call
  := by
  use execute_eq_run 1
  constructor
  · rw [Run.outcome, show call.site = ⟨main, 1⟩ from rfl, run_one.2]
    decide
  · intro hcovers
    have hresolved := (hcovers .empty (reaches_call_empty 1)).1
    revert hresolved
    decide

/-- With two facts for each statement nothing is lost, and the outcome is not conclusive. -/
theorem not_covers_of_unknown :
  Run.execute view main .empty {} ⟨20, 2⟩ = .ok (run 2) ∧ (run 2).state.truncated = false ∧
  (∃ s, Propagation.Reaches (run 2).graph main .empty call.site s) ∧
  ¬((run 2).outcome call).isConclusive ∧ ¬(run 2).Covers main .empty call
  := by
  have hreached : ∃ s, Propagation.Reaches (run 2).graph main .empty call.site s :=
    ⟨.empty, reaches_call_empty 2⟩
  have hunknown : ¬((run 2).outcome call).isConclusive := by
    rw [Run.outcome, show call.site = ⟨main, 1⟩ from rfl, run_two.2]
    decide
  use execute_eq_run 2, run_two.1, hreached, hunknown
  intro hcovers
  apply hunknown
  apply ((Run.isConclusive_covers_iff (execute_eq_run 2) call).2 run_two.1).2 ⟨hreached, hcovers⟩

end Choice

end ServiceFlow
