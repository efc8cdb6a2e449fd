import ServiceFlow.Program.CallGraph
import ServiceFlow.Propagation.Run
import ServiceFlow.Resolve.Analysis

/-!
# The search among callers

Runs from the callers of a method, and from their callers as long as a run leaves the call open.
The search is bounded by the length of the chains and by the number of methods it visits.
-/

namespace ServiceFlow

/-- What the runs found for a call, and the first reason why a run was not possible. -/
structure Findings where
  found : List Finding := []
  failure : Option ScopeError := none
deriving DecidableEq, Inhabited

namespace Findings

def add (f : Findings) (entry : MethodSig) (calls : List LoadCall) : Findings :=
  { f with found := calls.foldl (fun found c => Finding.insert found ⟨entry, c⟩) f.found }

def fail (f : Findings) (e : ScopeError) : Findings :=
  { f with failure := f.failure.or (some e) }

/-- Takes in what a run from a method said. -/
def note (f : Findings) (entry : MethodSig) : Except ScopeError Outcome → Findings
  | .ok o => f.add entry o.resolved
  | .error e => f.fail e

end Findings

namespace CallerSearch

/-- The methods visited, the last one first, and what was found. -/
structure State where
  visited : List MethodSig
  findings : Findings
deriving DecidableEq, Inhabited

variable (run : MethodSig → Except ScopeError Outcome) (maxVisited : Nat)

/-- Visits the methods in turn and climbs on from those whose run was possible and left the call
open.  Static initializers are visited without a run. -/
def visitAll (climb : MethodSig → State → State) : List MethodSig → State → State
  | [], s => s
  | m :: rest, s =>
      if maxVisited ≤ s.visited.length then s
      else if m ∈ s.visited then visitAll climb rest s
      else if m.isStaticInitializer then
        visitAll climb rest { s with visited := m :: s.visited }
      else
        let outcome := run m
        let s : State := ⟨m :: s.visited, s.findings.note m outcome⟩
        match outcome with
        | .ok o => visitAll climb rest (if o.isConclusive then s else climb m s)
        | .error _ => visitAll climb rest s

/-- Visits the callers of a method, over chains of at most the given length. -/
def walk (g : CallGraph) : Nat → MethodSig → State → State
  | 0, _, s => s
  | depth + 1, m, s => visitAll run maxVisited (walk g depth) (g.callers m) s

end CallerSearch

end ServiceFlow
