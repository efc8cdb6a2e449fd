import ServiceFlow.Resolve.CallerSearch
import ServiceFlow.Resolve.Outer

/-!
# The runs for the load calls of a class

A call is looked at in runs from its own method, from the callers of the method, and with the
objects that the outer class makes.  What the runs find goes into the analysis of the class.
-/

namespace ServiceFlow

/-- What the calls of a class share. -/
structure Session where
  config : Config
  cls : ClassDecl
  /-- The class on its own. -/
  view : View
  /-- The constants that the static initializer leaves. -/
  seeds : Thunk Store
  graph : Thunk (Except ScopeError CallGraph)
  outer : Thunk (Except ScopeError OuterContext)

/-- How a call was resolved. -/
inductive Verdict where
  | literal
  | searched (findings : Findings)

namespace Session

def start (pool : ClassPool) (config : Config) (d : ClassDecl) : Session :=
  let v := View.ofList [d]
  { config
    cls := d
    view := v
    seeds := Thunk.mk (fun _ => config.initialStatics v d)
    graph := Thunk.mk (fun _ => CallGraph.build v config.target.skips)
    outer := Thunk.mk (fun _ => OuterContext.ofClass pool config d) }

/-- What a run from a method says about a call. -/
def outcome (s : Session) (call : LoadCall) (entry : MethodSig) (seeds : Store) :
    Except ScopeError Outcome :=
  (s.config.run s.view entry seeds).map (fun r => r.outcome call)

/-- The runs from the callers of the method of a call. -/
def fromCallers (s : Session) (call : LoadCall) (f : Findings) : Findings :=
  match s.graph.get with
  | .error e => f.fail e
  | .ok g =>
      (CallerSearch.walk (fun m => s.outcome call m s.seeds.get)
        s.config.maxVisitedMethods.toNat g s.config.maxBacktrackDepth.toNat call.method
        ⟨[call.method], f⟩).findings

/-- The local of the receiver in a method of the class. -/
def this? (s : Session) (m : MethodSig) : Option Local :=
  ((s.cls.method? m).bind Method.body).bind Body.thisLocal?

/-- What is known at the start of a method of an object made by the outer class. -/
def seedsWith (s : Session) (ctx : OuterContext) (m : MethodSig) (object : Value) : Store :=
  let seeds := ctx.statics.overlay s.seeds.get
  (s.this? m).elim seeds (fun this => seeds.setVar m this object)

/-- The runs with the objects that the outer class makes. -/
def fromOuter (s : Session) (call : LoadCall) (f : Findings) : Findings :=
  if s.cls.isInner then
    match s.outer.get with
    | .error e => f.fail e
    | .ok ctx =>
        ctx.receivers.foldl (fun f r =>
          f.note r.maker (s.outcome call call.method (s.seedsWith ctx call.method r.object))) f
  else f

/-- Whether a run was possible and left nothing open. -/
def isSettled : Except ScopeError Outcome → Bool
  | .ok o => o.isConclusive
  | .error _ => false

end Session

namespace ClassAnalysis

/-- Adds the diagnostic of a failure. -/
def addFailure (a : ClassAnalysis) (call : LoadCall) : Option ScopeError → ClassAnalysis
  | none => a
  | some e => { a with
      counters := { a.counters with solverFailures := a.counters.solverFailures + 1 }
      diagnostics := a.diagnostics ++ [.solverUnavailable a.cls call e.message] }

/-- Adds the diagnostic of a call without findings, unless the call has a diagnostic already. -/
def addUnresolved (a : ClassAnalysis) (call : LoadCall) : ClassAnalysis :=
  { a with
    counters := { a.counters with unresolved := a.counters.unresolved + 1 }
    diagnostics :=
      if a.diagnostics.any (fun d => d.call = call) then a.diagnostics
      else a.diagnostics ++ [.unresolved a.cls call] }

/-- Adds the findings for a call. -/
def addFound (a : ClassAnalysis) (call : LoadCall) (found : List Finding) : ClassAnalysis :=
  found.foldl (fun a f => a.record call.method f)
    { a with counters := { a.counters with dataflow := a.counters.dataflow + 1 } }

/-- Adds how a call was resolved. -/
def add (a : ClassAnalysis) (call : LoadCall) : Verdict → ClassAnalysis
  | .literal =>
      ({ a with counters := { a.counters with literal := a.counters.literal + 1 } }).record
        call.method ⟨call.method, call⟩
  | .searched f =>
      let a := a.addFailure call f.failure
      if f.found.isEmpty then a.addUnresolved call else a.addFound call f.found

end ClassAnalysis

/-- The load calls of a class in the order of its methods and their statements. -/
def ClassDecl.loadCalls (d : ClassDecl) (t : LoadTarget) : List LoadCall :=
  d.methods.flatMap (fun m => m.body.elim [] (t.callsIn m.signature))

/-- Why a class cannot be analysed. -/
inductive AnalysisError where
  | unknownClass (c : ClassName)
  | unparsable (c : ClassName) (fault : DocumentFault)
  | outOfScope (e : ScopeError)
deriving DecidableEq, Inhabited

namespace AnalysisError

def ofScope : ScopeError → AnalysisError
  | .classNotFound c => .unknownClass c
  | .malformed c fault => .unparsable c fault
  | e => .outOfScope e

def message : AnalysisError → String
  | .unknownClass c => "Unknown class: " ++ c.text
  | .unparsable c fault => "Parse error in " ++ c.text ++ ": " ++ fault.message
  | .outOfScope e => "View error: " ++ e.message

end AnalysisError

end ServiceFlow
