import ServiceFlow.Proofs.Tabulation.Exactness
import ServiceFlow.Proofs.Tabulation.Lockstep
import ServiceFlow.Proofs.Tabulation.Stateful

/-!
# Larger limits

A run with more iterations starts with the run with fewer of them, so all that is known only grows,
and nothing known changes its place.  A run that no limit cut short is the run under every larger
limit: the same tables, and the same memory at the end.
-/

namespace ServiceFlow.Tabulation

variable {μ φ σ : Type} [DecidableEq μ] [Hashable μ] [DecidableEq φ] [Hashable φ]
variable {g : Graph μ} {l l' : Limits} {p : Stateful μ φ σ}

namespace Stateful

/-! ### More iterations -/

/-- The bound on iterations is not read while a path edge is processed. -/
theorem process_eq (h : l.factsPerPoint = l'.factsPerPoint) (e : PathEdge μ φ) (s : State μ φ) :
  process g p l e s = process g p l' e s
  := by
  cases l
  cases l'
  cases h
  rfl

theorem run_eq (h : l.factsPerPoint = l'.factsPerPoint) (n : Nat) (s : State μ φ) :
  run g p l n s = run g p l' n s
  := by
  induction n generalizing s with
  | zero => rfl
  | succ n ih =>
      by_cases hdone : s.edges.items[s.taken]? = none
      · rw [run_of_done hdone, run_of_done hdone]
      · obtain ⟨e, _, he, _⟩ := exists_next hdone
        rw [run_of_next he, run_of_next he, process_eq h]
        apply bind_congr
        intro t
        apply ih

theorem seeded_eq (h : l.factsPerPoint = l'.factsPerPoint) :
  seeded p l = seeded p l'
  := by
  cases l
  cases l'
  cases h
  rfl

/-- More iterations only add to what is known. -/
theorem solve_extends (hiter : l.iterations ≤ l'.iterations)
    (h : l.factsPerPoint = l'.factsPerPoint) (m : σ) :
  ((solve g p l).run m).1.Extends ((solve g p l').run m).1
  := by
  obtain ⟨k, hk⟩ := Nat.exists_eq_add_of_le hiter
  have hmore : solve g p l' = solve g p l >>= run g p l k := by
    rw [solve, solve, bind_assoc, seeded_eq h, hk]
    apply bind_congr
    intro t
    rw [← run_eq h, run_add]
  rw [hmore]
  apply extends_run

/-! ### Room for more facts -/

/-- A run that nothing cut short is the run under every larger limit. -/
theorem solve_eq_of_not_truncated (hiter : l.iterations ≤ l'.iterations)
    (hle : l.factsPerPoint ≤ l'.factsPerPoint) {m : σ}
    (h : ((solve g p l).run m).1.truncated = false) :
  (solve g p l').run m = (solve g p l).run m
  := by
  obtain ⟨hdropped, hsize⟩ := State.truncated_eq_false.1 h
  obtain ⟨k, hk⟩ := Nat.exists_eq_add_of_le hiter
  have hseeds : (seeded p l').run m = (seeded p l).run m := by
    apply (lockstep_seeds (g := g) hle (p.seeds.run m).1).agrees (p.seeds.run m).2
    apply (extends_run _ _ _).dropped_eq_zero hdropped
  have hrun : (run g p l' l.iterations ((seeded p l).run m).1).run ((seeded p l).run m).2
      = (solve g p l).run m := run_agrees hle _ _ _ hdropped
  have hdone : ∀ m', (run g p l' k ((solve g p l).run m).1).run m' = (((solve g p l).run m).1, m')
      := by
    intro m'
    rw [run_of_done (Array.getElem?_eq_none hsize)]
    rfl
  calc
    (solve g p l').run m
      = (run g p l' (l.iterations + k) ((seeded p l).run m).1).run ((seeded p l).run m).2 := by
        rw [← hk, ← hseeds]
        rfl
    _ = (run g p l' k ((solve g p l).run m).1).run ((solve g p l).run m).2 := by
        rw [run_add, StateT.run_bind, hrun]
        rfl
    _ = (solve g p l).run m := hdone _

/-- With more iterations the facts of a statement are continued, and a run that no limit cut short
is repeated under larger limits: all that is known, the statistics and the memory are the same. -/
theorem solve_stable (g : Graph μ) (p : Stateful μ φ σ) (m : σ) (l l' : Limits)
    (hiter : l.iterations ≤ l'.iterations) :
  (l.factsPerPoint = l'.factsPerPoint →
    ∀ q, ((solve g p l).run m).1.factsAt q <+: ((solve g p l').run m).1.factsAt q) ∧
  (l.factsPerPoint ≤ l'.factsPerPoint → ((solve g p l).run m).1.truncated = false →
    (solve g p l').run m = (solve g p l).run m)
  := by
  constructor
  · intro h q
    apply (solve_extends hiter h m).facts
  · intro hle h
    apply solve_eq_of_not_truncated hiter hle h

/-- A run through a recursion that ends is the same with more iterations and more facts, down to
the number of times each flow is applied. -/
theorem solve_recursive_stable :
  ((solve Tabular.recursive.graph Tabular.recursive.problem.counted ⟨20, 3⟩).run {}).1.truncated
    = false ∧
  (solve Tabular.recursive.graph Tabular.recursive.problem.counted ⟨1000, 50⟩).run {} =
    (solve Tabular.recursive.graph Tabular.recursive.problem.counted ⟨20, 3⟩).run {}
  := by
  have hstable := solve_stable Tabular.recursive.graph Tabular.recursive.problem.counted {}
    ⟨20, 3⟩ ⟨1000, 50⟩ (by decide)
  have htruncated : ((solve Tabular.recursive.graph Tabular.recursive.problem.counted
      ⟨20, 3⟩).run {}).1.truncated = false := by
    rw [(matches_counted _).yields_solve]
    apply Tabular.truncated_recursive
  use htruncated
  apply hstable.2 (by decide) htruncated

end Stateful

end ServiceFlow.Tabulation
