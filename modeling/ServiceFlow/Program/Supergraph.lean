import ServiceFlow.Program.CallSite

/-!
# Supergraphs

The flow of control between and inside the methods that can be reached from some entry methods
through calls in view.
-/

namespace ServiceFlow

/-- The methods of the graph in the order they were reached, and their call sites. -/
structure Supergraph where
  view : View
  methods : List MethodSig
  sites : List CallSite

namespace View

/-- The methods that a method calls; an invocation that cannot be resolved calls none. -/
def calledMethods (v : View) (skip : Invoke → Bool) (m : MethodSig) : List MethodSig :=
  match v.body? m with
  | some b => (b.invokes m).flatMap (fun s => (v.targets skip s.2).toOption.getD [])
  | none => []

/-- The methods that can be reached from the entries through calls. -/
def reachableMethods (v : View) (skip : Invoke → Bool) (entries : List MethodSig) :
    List MethodSig :=
  Closure.reachable (v.calledMethods skip) (entries.length + v.methods.length) entries

end View

namespace Supergraph

/-- The graph reached from the entries.  Every entry needs a body, and every invocation that is not
skipped must be resolved. -/
def build (v : View) (entries : List MethodSig) (skip : Invoke → Bool) :
    Except ScopeError Supergraph :=
  match entries.find? (fun m => !v.hasBody m) with
  | some m => .error (.missingBody m)
  | none => do
      let methods := v.reachableMethods skip entries
      let sites ← methods.mapM (v.callSites skip)
      return ⟨v, methods, sites.flatten⟩

def contains (g : Supergraph) (m : MethodSig) : Bool := m ∈ g.methods

/-- The statements that control may reach next inside a method. -/
def successors (g : Supergraph) (p : StmtId) : List StmtId :=
  match g.view.body? p.method with
  | some b => (b.successors p.offset).map (fun o => ⟨p.method, o⟩)
  | none => []

def site? (g : Supergraph) (p : StmtId) : Option CallSite :=
  g.sites.find? (fun s => s.point = p)

/-- The methods entered from a call site. -/
def callees (g : Supergraph) (p : StmtId) : List MethodSig := (g.site? p).elim [] CallSite.targets

/-- The call sites that enter a method, in ascending order. -/
def callers (g : Supergraph) (m : MethodSig) : List StmtId :=
  ((g.sites.filter (fun s => m ∈ s.targets)).map CallSite.point).mergeSort
    (fun p q => (compare p q).isLE)

/-- The first statement of a method, if there is one. -/
def starts (g : Supergraph) (m : MethodSig) : List StmtId :=
  match g.view.body? m with
  | some b => if b.stmts.isEmpty then [] else [⟨m, 0⟩]
  | none => []

def isExit (g : Supergraph) (p : StmtId) : Bool := (g.view.stmt? p).elim false Stmt.isReturn

def isCall (g : Supergraph) (p : StmtId) : Bool := (g.site? p).isSome

end Supergraph

end ServiceFlow
