import ServiceFlow.Program.View

/-!
# Call sites

The statements of a body that carry an invocation, with the methods the invocation may enter.
Only methods with a body in view can be entered, and some invocations are skipped: the analysis
knows their meaning by itself.
-/

namespace ServiceFlow

/-- A statement with an invocation, and the methods it may enter. -/
structure CallSite where
  point : StmtId
  targets : List MethodSig
deriving DecidableEq, Inhabited

/-- The statements of a body that carry an invocation. -/
def Body.invokes (b : Body) (m : MethodSig) : List (StmtId × Invoke) :=
  b.stmts.zipIdx.filterMap (fun s => s.1.invoke?.map (fun i => (⟨m, s.2⟩, i)))

namespace View

/-- The methods with a body that an invocation may enter. -/
def targets (v : View) (skip : Invoke → Bool) (i : Invoke) : Except ScopeError (List MethodSig) :=
  if skip i then .ok [] else (v.resolve i).map (fun ms => ms.filter v.hasBody)

/-- The call sites of a body. -/
def callSitesOf (v : View) (skip : Invoke → Bool) (m : MethodSig) (b : Body) :
    Except ScopeError (List CallSite) :=
  (b.invokes m).mapM (fun s => (v.targets skip s.2).map (fun ts => ⟨s.1, ts⟩))

/-- The call sites of a method in view. -/
def callSites (v : View) (skip : Invoke → Bool) (m : MethodSig) :
    Except ScopeError (List CallSite) :=
  match v.body? m with
  | some b => v.callSitesOf skip m b
  | none => .ok []

end View

end ServiceFlow
