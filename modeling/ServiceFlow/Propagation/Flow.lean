import ServiceFlow.Load.Target
import ServiceFlow.Program.Supergraph
import ServiceFlow.Propagation.Transfer
import ServiceFlow.Tabulation.Problem

/-!
# Constant propagation between methods

The facts are whole stores.  A call hands over the static fields and binds the arguments and the
receiver; a return restores the locals of the caller, takes over the static fields and writes back
the objects that the called method was handed.
-/

namespace ServiceFlow

/-- Invocations that are not followed: library calls and load calls. -/
def LoadTarget.skips (t : LoadTarget) (i : Invoke) : Bool :=
  (LibraryCall.ofInvoke? i).isSome || t.accepts i

/-- The local of a parameter, and whether the body assigns it anew. -/
structure Param where
  var : Local
  rebound : Bool
deriving DecidableEq, Inhabited

/-- The locals that a body binds to its receiver and its parameters. -/
structure Frame where
  this : Option Local := none
  params : List (Option Param) := []
deriving DecidableEq, Inhabited

def Frame.ofBody (m : MethodSig) (b : Body) : Frame where
  this := b.thisLocal?
  params := (List.range m.params.length).map
    (fun i => (b.parameterLocal? i).map (fun l => ⟨l, b.assigns l⟩))

def View.frame (v : View) (m : MethodSig) : Frame := (v.body? m).elim {} (Frame.ofBody m)

namespace Propagation

variable (g : Supergraph)

/-- What is known after a statement that is not followed. -/
def after (q : StmtId) (s : Store) : Store :=
  (g.view.stmt? q).elim s (Stmt.apply g.view q.method s)

/-- Some method entered from the call has a return statement. -/
def mayReturn (site : StmtId) : Bool :=
  (g.callees site).any (fun m => (g.view.body? m).elim false (fun b => b.stmts.any Stmt.isReturn))

/-! ### Calls -/

/-- Binds the arguments to the parameters of a called method. -/
def bindArgs (site : StmtId) (callee : MethodSig) (s : Store) (i : Invoke) (f : Frame)
    (t : Store) : Store :=
  (i.args.zip f.params).foldl (fun t a =>
    match a.2 with
    | some p => t.setVar callee p.var (a.1.eval site.method s)
    | none => t) t

/-- Binds the receiver of a call in the called method. -/
def bindThis (site : StmtId) (callee : MethodSig) (s : Store) (i : Invoke) (f : Frame)
    (t : Store) : Store :=
  match i.receiver, f.this with
  | some base, some this => t.setVar callee this (s.getVar site.method base)
  | _, _ => t

/-- What is known at the start of a called method. -/
def enterWith (site : StmtId) (callee : MethodSig) (s : Store) (i : Invoke) : Store :=
  let f := g.view.frame callee
  bindThis site callee s i f (bindArgs site callee s i f s.statics)

/-! ### Returns -/

/-- The locals of the caller with the static fields at the exit. -/
def resume (caller ended : Store) : Store :=
  ended.staticEntries.foldl (fun t e => t.setStatic e.1 e.2) caller.locals

/-- Takes over the receiver as the called method left it, if it is known. -/
def returnThis (site : StmtId) (callee : MethodSig) (ended : Store) (i : Invoke) (f : Frame)
    (t : Store) : Store :=
  match i.receiver, f.this with
  | some base, some this =>
      let object := ended.getVar callee this
      if object.isObject then t.setVar site.method base object else t
  | _, _ => t

/-- What a parameter holds at the exit; nothing is known of what was bound to it if the body
assigned it anew. -/
def endValue (callee : MethodSig) (ended : Store) (p : Param) : Value :=
  if p.rebound then .unknown else ended.getVar callee p.var

/-- Takes over the arguments that the called method may have changed. -/
def returnArgs (site : StmtId) (callee : MethodSig) (caller ended : Store) (i : Invoke) (f : Frame)
    (t : Store) : Store :=
  (i.mutableArgs site.method caller).foldl (fun t a =>
    match f.params[a.1]? with
    | some (some p) => t.setVar site.method a.2 (endValue callee ended p)
    | _ => t) t

/-- The value that an exit returns. -/
def returned (callee : MethodSig) (exit : StmtId) (ended : Store) : Value :=
  match g.view.stmt? exit with
  | some (.ret o) => o.eval callee ended
  | _ => .unknown

/-- Writes the result of a call to the place it is assigned to. -/
def assignResult (m : MethodSig) (value : Value) (t : Store) : Stmt → Store
  | .assign place _ => place.write m value t
  | _ => t

/-- Takes over the receiver and the arguments of a call. -/
def returnObjects (site : StmtId) (callee : MethodSig) (caller ended : Store) (stmt : Stmt)
    (t : Store) : Store :=
  match stmt.invoke? with
  | some i =>
      let f := g.view.frame callee
      returnArgs site callee caller ended i f (returnThis site callee ended i f t)
  | none => t

/-- What is known behind a call when the called method has ended. -/
def returnWith (site : StmtId) (callee : MethodSig) (exit : StmtId) (caller ended : Store)
    (stmt : Stmt) : Store :=
  assignResult site.method (returned g callee exit ended)
    (returnObjects g site callee caller ended stmt (resume caller ended)) stmt

/-! ### The problem -/

/-- The flow graph of a supergraph. -/
def flowGraph : Tabulation.Graph MethodSig where
  successors := g.successors
  callees := g.callees
  starts := g.starts
  isExit := g.isExit
  isCall := g.isCall

/-- Constant propagation from the start of a method.  A call is passed by only if no method
entered from it returns. -/
def problem (entry : MethodSig) (seeds : Store) : Tabulation.Problem MethodSig Store where
  seeds := (g.starts entry).map (fun q => (q, seeds))
  normal q _ s := [after g q s]
  call site callee s :=
    (((g.view.stmt? site).bind Stmt.invoke?).map (enterWith g site callee s)).toList
  ret site callee exit _ caller ended :=
    ((g.view.stmt? site).map (returnWith g site callee exit caller ended)).toList
  pass site _ s := if mayReturn g site then [] else [after g site s]

end Propagation

end ServiceFlow
