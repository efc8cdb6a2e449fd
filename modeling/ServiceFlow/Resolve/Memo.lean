import ServiceFlow.Resolve.Session

/-!
# Resolving the load calls of a class

A load call with a class literal is resolved as it stands.  Any other call is looked at in a run
from its own method; while that leaves it open, in runs from the callers of the method and, if
these add nothing, in runs with the objects that the outer class makes.  The view of the class, its
seeds, its call graph and what its outer class says are computed when a call asks for them first.
They are kept for the calls that follow, and so is the error if there is one.
-/

namespace ServiceFlow

/-- What was computed for the calls so far. -/
structure Memo where
  view : Option (Except ScopeError View) := none
  seeds : Option Store := none
  graph : Option (Except ScopeError CallGraph) := none
  outer : Option (Except ScopeError OuterContext) := none

namespace Memo

/-- The place of one thing in the memo. -/
structure Slot (α : Type) where
  read : Memo → Option α
  write : α → Memo → Memo

namespace Slot

def view : Slot (Except ScopeError View) := ⟨Memo.view, fun v memo => { memo with view := some v }⟩
def seeds : Slot Store := ⟨Memo.seeds, fun s memo => { memo with seeds := some s }⟩
def graph : Slot (Except ScopeError CallGraph) :=
  ⟨Memo.graph, fun g memo => { memo with graph := some g }⟩
def outer : Slot (Except ScopeError OuterContext) :=
  ⟨Memo.outer, fun ctx memo => { memo with outer := some ctx }⟩

end Slot

/-- Takes from the memo what is there, and else computes and keeps it. -/
def ask {α : Type} (slot : Slot α) (compute : StateM Memo α) : StateM Memo α := do
  match slot.read (← get) with
  | some a => return a
  | none =>
      let a ← compute
      modify (slot.write a)
      return a

end Memo

/-- A class whose calls are to be resolved, and the program around it. -/
structure Resolver where
  pool : ClassPool
  config : Config
  cls : ClassDecl

namespace Resolver

open Memo

/-- The class on its own. -/
def view (r : Resolver) : StateM Memo (Except ScopeError View) :=
  ask .view (return r.pool.view [r.cls.name])

def seeds (r : Resolver) : StateM Memo Store :=
  ask .seeds do
    match ← r.view with
    | .ok v => return r.config.initialStatics v r.cls
    | .error _ => return .empty

def graph (r : Resolver) : StateM Memo (Except ScopeError CallGraph) :=
  ask .graph do
    let v ← r.view
    return v.bind (fun v => CallGraph.build v r.config.target.skips)

def outer (r : Resolver) : StateM Memo (Except ScopeError OuterContext) :=
  ask .outer (return OuterContext.ofClass r.pool r.config r.cls)

/-- The session with the view and the seeds that are there already. -/
def sessionIn (r : Resolver) (v : View) (seeds : Store) : Session :=
  { Session.start r.pool r.config r.cls with view := v, seeds := Thunk.pure seeds }

/-- The runs from callers, if the configuration asks for them. -/
def fromCallers (r : Resolver) (s : Session) (call : LoadCall) (f : Findings) :
    StateM Memo Findings :=
  if s.config.callerBacktracking then do
    let g ← r.graph
    return { s with graph := Thunk.pure g }.fromCallers call f
  else return f

/-- The runs with objects of the outer class, if there is one. -/
def fromOuter (r : Resolver) (s : Session) (call : LoadCall) (f : Findings) :
    StateM Memo Findings :=
  if s.cls.isInner then do
    let ctx ← r.outer
    return { s with outer := Thunk.pure ctx }.fromOuter call f
  else return f

/-- The runs for a call beyond its own method. -/
def escalate (r : Resolver) (s : Session) (call : LoadCall) (f : Findings) :
    StateM Memo Findings := do
  let g ← r.fromCallers s call f
  if f.found.length < g.found.length || !s.config.outerClassThreading then return g
  else r.fromOuter s call g

/-- The runs for a call that has no class literal. -/
def search (r : Resolver) (s : Session) (call : LoadCall) : StateM Memo Findings :=
  let own := s.outcome call call.method s.seeds.get
  let f := Findings.note {} call.method own
  if Session.isSettled own then return f else r.escalate s call f

def resolve (r : Resolver) (call : LoadCall) : StateM Memo Verdict :=
  if call.isLiteral then return .literal
  else do
    let seeds ← r.seeds
    match ← r.view with
    | .error e => return .searched (Findings.fail {} e)
    | .ok v => return .searched (← r.search (r.sessionIn v seeds) call)

/-- Resolves calls one after another. -/
def takeIn (r : Resolver) (calls : List LoadCall) (a : ClassAnalysis) : StateM Memo ClassAnalysis :=
  calls.foldlM (fun a call => return a.add call (← r.resolve call)) a

/-- The analysis of calls of the class, with nothing computed before. -/
def analyzeCalls (r : Resolver) (calls : List LoadCall) : ClassAnalysis :=
  ((r.takeIn calls { cls := r.cls.name }).run {}).run.1

end Resolver

/-- The analysis of a loaded class. -/
def ClassDecl.analyze (pool : ClassPool) (config : Config) (d : ClassDecl) : ClassAnalysis :=
  ({ pool, config, cls := d } : Resolver).analyzeCalls (d.loadCalls config.target)

/-- The analysis of a class of the program. -/
def ClassPool.analyze (pool : ClassPool) (config : Config) (c : ClassName) :
    Except AnalysisError ClassAnalysis :=
  match pool.load c with
  | .ok d => .ok (d.analyze pool config)
  | .error e => .error (.ofScope e)

end ServiceFlow
