import ServiceFlow.Point

/-!
# Dataflow problems between methods

A flow graph links the statements of methods, and a problem says how facts move along its edges:
inside a method, into a called method, out of it, and past a call.  A flow yields the facts that
hold behind an edge when one fact holds before it; a flow that yields nothing drops the fact.
-/

namespace ServiceFlow.Tabulation

/-- The flow of control inside and between the methods `μ`. -/
structure Graph (μ : Type) where
  /-- The statements that may follow in the same method. -/
  successors : Point μ → List (Point μ)
  /-- The methods that a call enters. -/
  callees : Point μ → List μ
  /-- The statements at which a method begins. -/
  starts : μ → List (Point μ)
  /-- The statement leaves its method. -/
  isExit : Point μ → Bool
  /-- The statement is a call, whether it enters a method or not. -/
  isCall : Point μ → Bool

/-- The facts to start with, and the flows. -/
structure Problem (μ φ : Type) where
  seeds : List (Point μ × φ)
  /-- From a statement to a successor. -/
  normal : (point next : Point μ) → φ → List φ
  /-- From a call to the start of a called method. -/
  call : (site : Point μ) → (callee : μ) → φ → List φ
  /-- From an exit of a called method to a successor of the call; the first fact held at the call
  and the second one at the exit. -/
  ret : (site : Point μ) → (callee : μ) → (exit next : Point μ) → φ → φ → List φ
  /-- From a call past the called methods to a successor. -/
  pass : (site next : Point μ) → φ → List φ

/-- Bounds for a run. -/
structure Limits where
  /-- How many path edges are processed. -/
  iterations : Nat
  /-- How many facts a statement may hold. -/
  factsPerPoint : Nat
deriving DecidableEq, Inhabited

end ServiceFlow.Tabulation
