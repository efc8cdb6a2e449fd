import ServiceFlow.Tabulation.Problem

/-!
# Problems given by tables

Small dataflow problems whose graph and flows are written down as tables, over named methods and
facts.
-/

namespace ServiceFlow.Tabulation

/-- What each listed fact becomes; a fact that is not listed becomes itself. -/
structure FactTable where
  rows : List (String × List String) := []
deriving DecidableEq, Inhabited

def FactTable.apply (t : FactTable) (d : String) : List String :=
  ((t.rows.find? (fun r => r.1 = d)).map (·.2)).getD [d]

/-- A method whose control and flows are written down. -/
structure TabularMethod where
  name : String
  /-- The successors of each statement. -/
  successors : List (List Nat)
  exits : List Nat := []
  /-- The calls, with the methods they enter. -/
  calls : List (Nat × List String) := []
  /-- The flow behind a statement. -/
  flow : List (Nat × FactTable) := []
  /-- The flow into the method. -/
  entering : FactTable := {}
  /-- The flow out of the method. -/
  leaving : FactTable := {}
deriving DecidableEq, Inhabited

/-- A dataflow problem whose methods are written down. -/
structure Tabular where
  /-- Methods with different names. -/
  methods : List TabularMethod
  seeds : List (Point String × String)
  /-- A return adds the facts of caller and exit joined into one. -/
  keepCaller : Bool := false
deriving DecidableEq, Inhabited

namespace Tabular

def method? (t : Tabular) (name : String) : Option TabularMethod :=
  t.methods.find? (fun m => m.name = name)

def calls? (t : Tabular) (q : Point String) : Option (List String) :=
  (t.method? q.method).bind
    (fun m => (m.calls.find? (fun c => c.1 = q.offset)).map (·.2))

def graph (t : Tabular) : Graph String where
  successors q :=
    match t.method? q.method with
    | some m => ((m.successors[q.offset]?).getD []).map (fun o => ⟨q.method, o⟩)
    | none => []
  callees q := (t.calls? q).getD []
  starts name :=
    match t.method? name with
    | some m => if m.successors.isEmpty then [] else [⟨name, 0⟩]
    | none => []
  isExit q := (t.method? q.method).elim false (fun m => q.offset ∈ m.exits)
  isCall q := (t.calls? q).isSome

/-- The flow behind a statement. -/
def flowAt (t : Tabular) (q : Point String) : FactTable :=
  ((t.method? q.method).bind
    (fun m => (m.flow.find? (fun r => r.1 = q.offset)).map (·.2))).getD {}

def problem (t : Tabular) : Problem String String where
  seeds := t.seeds
  normal q _ d := (t.flowAt q).apply d
  call _ callee d := ((t.method? callee).elim {} TabularMethod.entering).apply d
  ret _ callee _ _ callerFact exitFact :=
    ((t.method? callee).elim {} TabularMethod.leaving).apply exitFact
      ++ if t.keepCaller then [callerFact ++ "/" ++ exitFact] else []
  pass q _ d := (t.flowAt q).apply d

end Tabular

end ServiceFlow.Tabulation
