import ServiceFlow.Load.Target
import ServiceFlow.Value.Store

/-!
# Load calls

A load call is a statement that loads a class by name, together with what is known of the values
of its arguments.
-/

namespace ServiceFlow

/-- An argument with the type of its parameter and what is known of its value. -/
structure LoadArg where
  operand : Operand
  type : Ty
  value : Value
deriving DecidableEq, Inhabited

/-- A call at its place in the program, with its arguments as far as they are known. -/
structure LoadCall where
  site : StmtId
  invoke : Invoke
  args : List LoadArg
deriving DecidableEq, Inhabited

/-- A load call with the method from which its values were found. -/
structure Finding where
  entry : MethodSig
  call : LoadCall
deriving DecidableEq, Inhabited

namespace LoadArg

/-- The call counts as resolved only if the arguments for classes and strings are known. -/
def isRequired (a : LoadArg) : Bool := a.type.isObject .cls || a.type.isObject .string

/-- Whatever stands at the place, without any facts. -/
def ofOperand (type : Ty) (o : Operand) : LoadArg :=
  ⟨o, type, o.const?.elim .unknown Value.ofConstant⟩

/-- A local takes its value from a store. -/
def withValue (s : Store) (m : MethodSig) (a : LoadArg) : LoadArg :=
  match a.operand with
  | .var l => { a with value := s.getVar m l }
  | .const _ => a

end LoadArg

namespace LoadCall

/-- The arguments with the types of their parameters; an argument without parameter has none. -/
def argsOf (i : Invoke) : List LoadArg :=
  i.args.zipIdx.map (fun a => .ofOperand (i.method.params.getD a.2 .void) a.1)

/-- The call at a statement; constants have their values and locals none. -/
def ofInvoke (site : StmtId) (i : Invoke) : LoadCall := ⟨site, i, argsOf i⟩

/-- The method that the call stands in. -/
def method (c : LoadCall) : MethodSig := c.site.method

/-- The first argument is a class literal. -/
def isLiteral (c : LoadCall) : Bool :=
  (c.args.head?.bind (fun a => a.operand.const?)).elim false Constant.isClass

/-- All required arguments are known. -/
def isResolved (c : LoadCall) : Bool := c.args.all (fun a => !a.isRequired || a.value.isKnown)

/-- The call with the values of its locals read from a store. -/
def withValues (c : LoadCall) (s : Store) : LoadCall :=
  { c with args := c.args.map (LoadArg.withValue s c.method) }

def values (c : LoadCall) : List Value := c.args.map LoadArg.value

def text (c : LoadCall) : String :=
  c.invoke.text ++ " (" ++ ", ".intercalate (c.values.map Value.text) ++ ")"

end LoadCall

/-- The load calls of a body in the order of its statements. -/
def LoadTarget.callsIn (t : LoadTarget) (m : MethodSig) (b : Body) : List LoadCall :=
  b.stmts.zipIdx.filterMap (fun s =>
    match s.1.invoke? with
    | some i => if t.accepts i then some (.ofInvoke ⟨m, s.2⟩ i) else none
    | none => none)

end ServiceFlow
