import ServiceFlow.Program.View
import ServiceFlow.Propagation.LibraryCall
import ServiceFlow.Value.Store

/-!
# The effect of a statement

What is known after a statement of a method, given what is known before it.  Calls are taken as
they stand: library calls have their meaning, any other call has an unknown result and may change
the builders and objects handed to it.
-/

namespace ServiceFlow

/-- What a call does: its result, and the local whose object it changes. -/
structure Effect where
  result : Value := .unknown
  receiver : Option (Local × Value) := none
deriving DecidableEq, Inhabited

/-- The value of an operand in a method. -/
def Operand.eval (m : MethodSig) (s : Store) : Operand → Value
  | .var l => s.getVar m l
  | .const c => .ofConstant c

namespace Invoke

/-- The value of the receiver. -/
def receiverValue (i : Invoke) (m : MethodSig) (s : Store) : Value :=
  i.receiver.elim .unknown (s.getVar m)

/-- The value of the first argument. -/
def firstValue (i : Invoke) (m : MethodSig) (s : Store) : Value :=
  i.args.head?.elim .unknown (Operand.eval m s)

/-- What a new builder holds: nothing, or the string it is made from. -/
def builderContent (i : Invoke) (m : MethodSig) (s : Store) : Value :=
  match i.method.params.head? with
  | none => .str ""
  | some type => if type.className?.isNone then .str "" else (i.firstValue m s).onlyString

/-- The effect of an invocation that is not followed. -/
def effect (i : Invoke) (m : MethodSig) (s : Store) : Effect :=
  match LibraryCall.ofInvoke? i with
  | none => {}
  | some .classForName => { result := (i.firstValue m s).classForName }
  | some .canonicalName => { result := (i.receiverValue m s).canonicalName }
  | some .simpleName => { result := (i.receiverValue m s).simpleName }
  | some .builderInit => { receiver := i.receiver.map (fun l => (l, i.builderContent m s)) }
  | some .builderAppend =>
      let joined := (i.receiverValue m s).concat (i.firstValue m s)
      { result := joined, receiver := i.receiver.map (fun l => (l, joined)) }
  | some .builderToString => { result := (i.receiverValue m s).onlyString }
  | some .stringConcat => { result := (i.receiverValue m s).concat (i.firstValue m s) }

/-- The local of an argument if a called method can change what it holds: a builder or a known
object.  Strings and classes do not change. -/
def mutable? (m : MethodSig) (s : Store) : Operand → Option Local
  | .var l =>
      if l.type.className?.elim false ClassName.isBuilder || (s.getVar m l).isObject then some l
      else none
  | .const _ => none

/-- The arguments that a called method can change, with their positions. -/
def mutableArgs (i : Invoke) (m : MethodSig) (s : Store) : List (Nat × Local) :=
  i.args.zipIdx.filterMap (fun a => (mutable? m s a.1).map (fun l => (a.2, l)))

/-- What is known after an invocation that is not followed. -/
def apply (i : Invoke) (m : MethodSig) (s : Store) : Store :=
  let changed := match (i.effect m s).receiver with
    | some (l, v) => s.setVar m l v
    | none => s
  if (LibraryCall.ofInvoke? i).isSome then changed
  else (i.mutableArgs m s).foldl (fun t a => t.setVar m a.2 .unknown) changed

end Invoke

/-- The value of an expression. -/
def Expr.eval (v : View) (m : MethodSig) (s : Store) : Expr → Value
  | .operand o => o.eval m s
  | .staticField f => s.getStatic f
  | .instanceField base f => (s.getVar m base).field f
  | .new c => if c.isBuilder then .unknown else if v.contains c then .fresh c else .unknown
  | .invoke i => (i.effect m s).result
  | .uninterpreted _ => .unknown

/-- Writes a value to a place.  A field is written only if the object is known; what is written to
an array is forgotten. -/
def Place.write (m : MethodSig) (value : Value) (s : Store) : Place → Store
  | .var l => s.setVar m l value
  | .staticField f => s.setStatic f value
  | .instanceField base f =>
      let object := s.getVar m base
      if object.isObject then s.setVar m base (object.withField f value) else s
  | .arrayElement _ => s

/-- What an expression changes when it is evaluated. -/
def Expr.apply (m : MethodSig) (s : Store) : Expr → Store
  | .invoke i => i.apply m s
  | _ => s

/-- What is known after a statement. -/
def Stmt.apply (v : View) (m : MethodSig) (s : Store) : Stmt → Store
  | .assign place e => place.write m (e.eval v m s) (e.apply m s)
  | .invoke i => i.apply m s
  | _ => s

end ServiceFlow
