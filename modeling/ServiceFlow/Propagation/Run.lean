import ServiceFlow.Load.Call
import ServiceFlow.Propagation.Flow
import ServiceFlow.Tabulation.Solver

/-!
# Runs

A run propagates constants from the start of one method over the supergraph reached from it.  Its
facts answer which values a load call may see, and which constants the static fields hold when a
method returns.
-/

namespace ServiceFlow

/-- The supergraph of a run and the facts that the solver found on it. -/
structure Run where
  graph : Supergraph
  state : Tabulation.State MethodSig Store

/-- What a run says about a load call. -/
structure Outcome where
  /-- The different resolved calls in the order of the facts. -/
  resolved : List LoadCall
  /-- How many facts reach the call. -/
  facts : Nat
  /-- How many of them leave a required argument unknown. -/
  unresolvedFacts : Nat
deriving DecidableEq, Inhabited

/-- The call was reached and every fact resolves it. -/
def Outcome.isConclusive (o : Outcome) : Bool := 0 < o.facts && o.unresolvedFacts = 0

/-- The static fields with constant values. -/
def Store.constantStatics (s : Store) : Store :=
  .ofList ((s.staticEntries.filter (fun e => e.2.isConstant)).map (fun e => (.static e.1, e.2)))

namespace Run

/-- The run from the start of the entry, with seeds for what is known there. -/
def execute (v : View) (entry : MethodSig) (seeds : Store) (t : LoadTarget)
    (l : Tabulation.Limits) : Except ScopeError Run := do
  let g ← Supergraph.build v [entry] t.skips
  return ⟨g, Tabulation.solve (Propagation.flowGraph g) (Propagation.problem g entry seeds) l⟩

def factsAt (r : Run) (q : StmtId) : List Store := r.state.factsAt q

/-- The facts behind the statement. -/
def factsAfter (r : Run) (q : StmtId) : List Store :=
  r.state.factsAfter (Propagation.flowGraph r.graph) q

/-- The last store that was found inside a method. -/
def latest? (r : Run) (m : MethodSig) : Option Store := r.state.latest[m]?

/-- The call with the values of each fact that reaches it. -/
def outcome (r : Run) (c : LoadCall) : Outcome :=
  let calls := (r.factsAt c.site).map c.withValues
  { resolved := (calls.filter LoadCall.isResolved).eraseDups
    facts := calls.length
    unresolvedFacts := calls.countP (fun d => !d.isResolved) }

/-- The facts at the returns of a method. -/
def factsAtReturns (r : Run) (m : MethodSig) : List Store :=
  match r.graph.view.body? m with
  | some b => b.exits.flatMap (fun o => r.factsAt ⟨m, o⟩)
  | none => []

/-- The constant static fields at the returns of a method, the first value of a field counting; if
no return was reached, those of the last store found inside the method. -/
def harvest (r : Run) (m : MethodSig) : Store :=
  let facts := match r.factsAtReturns m with
    | [] => (r.latest? m).toList
    | facts => facts
  facts.foldl (fun s fact => s.fillMissing fact.constantStatics) .empty

end Run

end ServiceFlow
