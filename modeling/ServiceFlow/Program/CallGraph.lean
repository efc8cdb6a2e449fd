import ServiceFlow.Program.CallSite

/-!
# Call graphs

The calls between all methods of a view, in the order of the call sites.
-/

namespace ServiceFlow

/-- A call from a statement to a method. -/
structure CallEdge where
  site : StmtId
  callee : MethodSig
deriving DecidableEq, Inhabited

/-- The methods in the order they were first met as caller or callee, and the calls. -/
structure CallGraph where
  methods : List MethodSig
  edges : List CallEdge

namespace CallSite

/-- The calls of a site. -/
def edges (s : CallSite) : List CallEdge := s.targets.map (fun m => ⟨s.point, m⟩)

end CallSite

namespace CallGraph

/-- A method with a body and its call sites. -/
def rowOf (v : View) (skip : Invoke → Bool) (m : Method) :
    Except ScopeError (Option (MethodSig × List CallSite)) :=
  match m.body with
  | some b => (v.callSitesOf skip m.signature b).map (fun sites => some (m.signature, sites))
  | none => .ok none

/-- The graph of all calls of a view that are not skipped. -/
def build (v : View) (skip : Invoke → Bool) : Except ScopeError CallGraph := do
  let rows ← v.methods.mapM (rowOf v skip)
  let rows := rows.filterMap id
  return {
    methods := (rows.flatMap (fun r => r.1 :: r.2.flatMap CallSite.targets)).eraseDups
    edges := rows.flatMap (fun r => r.2.flatMap CallSite.edges) }

def contains (g : CallGraph) (m : MethodSig) : Bool := m ∈ g.methods

/-- The methods called from a method, each once, in the order of the calls. -/
def callees (g : CallGraph) (m : MethodSig) : List MethodSig :=
  ((g.edges.filter (fun e => e.site.method = m)).map CallEdge.callee).eraseDups

/-- The statements that call a method, in the order of the calls. -/
def callSites (g : CallGraph) (m : MethodSig) : List StmtId :=
  (g.edges.filter (fun e => e.callee = m)).map CallEdge.site

/-- The methods that call a method, each once, in the order of the calls. -/
def callers (g : CallGraph) (m : MethodSig) : List MethodSig :=
  ((g.callSites m).map Point.method).eraseDups

end CallGraph

end ServiceFlow
