import ServiceFlow.Ir.Signature
import ServiceFlow.Text.Decimal
import ServiceFlow.Text.Quoted

/-!
# Statements

The three-address statements of method bodies: locals and constants as operands, invocations,
expressions, the places assigned to, and the statements themselves, each with its text form.
-/

namespace ServiceFlow

/-- A variable of one method. -/
structure Local where
  name : String
  type : Ty
deriving DecidableEq, Hashable, Inhabited

/-- A literal operand.  Floating-point literals are kept as their bits. -/
inductive Constant where
  | string (s : String)
  /-- A class literal under its internal name or descriptor. -/
  | cls (name : String)
  | null
  | int (v : Int64)
  | long (v : Int64)
  | float (bits : UInt32)
  | double (bits : UInt64)
deriving DecidableEq, Hashable, Inhabited

/-- A local or a literal. -/
inductive Operand where
  | var (l : Local)
  | const (c : Constant)
deriving DecidableEq, Hashable, Inhabited

/-- How an invocation finds its method. -/
inductive InvokeKind where
  | static
  | special
  | virtual
  | interface
  | dynamic
deriving DecidableEq, Hashable, Inhabited

/-- An invocation; static and dynamic ones have no receiver. -/
structure Invoke where
  kind : InvokeKind
  method : MethodSig
  receiver : Option Local
  args : List Operand
deriving DecidableEq, Hashable, Inhabited

/-- The right side of an assignment. -/
inductive Expr where
  | operand (o : Operand)
  | staticField (f : FieldSig)
  | instanceField (base : Local) (f : FieldSig)
  | new (c : ClassName)
  | invoke (i : Invoke)
  /-- An expression without meaning to the analysis, such as arithmetic or a cast. -/
  | uninterpreted (source : String)
deriving DecidableEq, Hashable, Inhabited

/-- The left side of an assignment. -/
inductive Place where
  | var (l : Local)
  | staticField (f : FieldSig)
  | instanceField (base : Local) (f : FieldSig)
  | arrayElement (base : Local)
deriving DecidableEq, Hashable, Inhabited

/-- Where the value of an identity statement comes from. -/
inductive Origin where
  | this
  | parameter (index : UInt64)
  | caughtException
deriving DecidableEq, Hashable, Inhabited

/-- A statement.  Targets of jumps are offsets into the body. -/
inductive Stmt where
  | identity (l : Local) (source : Origin)
  | assign (place : Place) (value : Expr)
  | invoke (i : Invoke)
  | ret (value : Operand)
  | retVoid
  | goto (target : UInt32)
  | branch (operands : List Operand) (target : UInt32)
  | switch (key : Operand) (targets : List UInt32) (default : UInt32)
  | throw (value : Operand)
  | nop
deriving DecidableEq, Hashable, Inhabited

/-! ### Parts -/

def Constant.isClass : Constant → Bool
  | .cls _ => true
  | _ => false

def Operand.var? : Operand → Option Local
  | .var l => some l
  | .const _ => none

def Operand.const? : Operand → Option Constant
  | .const c => some c
  | .var _ => none

namespace Stmt

/-- The invocation a statement carries, on its own or as an assigned value. -/
def invoke? : Stmt → Option Invoke
  | .invoke i => some i
  | .assign _ (.invoke i) => some i
  | _ => none

def isReturn : Stmt → Bool
  | .ret _ => true
  | .retVoid => true
  | _ => false

/-- The local that takes the result of an invocation. -/
def resultLocal? : Stmt → Option Local
  | .assign (.var l) (.invoke _) => some l
  | _ => none

end Stmt

/-! ### Texts -/

def Constant.text : Constant → String
  | .string s => Text.quoted s
  | .cls name => "class \"" ++ name ++ "\""
  | .null => "null"
  | .int v => toString v.toInt
  | .long v => toString v.toInt ++ "L"
  | .float bits => Text.FloatFormat.single.text bits.toNat ++ "F"
  | .double bits => Text.FloatFormat.double.text bits.toNat

def Operand.text : Operand → String
  | .var l => l.name
  | .const c => c.text

def InvokeKind.text : InvokeKind → String
  | .static => "static"
  | .special => "special"
  | .virtual => "virtual"
  | .interface => "interface"
  | .dynamic => "dynamic"

def Invoke.text (i : Invoke) : String :=
  i.kind.text ++ "invoke " ++ (i.receiver.elim "" (fun l => l.name ++ ".")) ++ i.method.text
    ++ "(" ++ ", ".intercalate (i.args.map Operand.text) ++ ")"

def Expr.text : Expr → String
  | .operand o => o.text
  | .staticField f => f.text
  | .instanceField base f => base.name ++ "." ++ f.text
  | .new c => "new " ++ c.text
  | .invoke i => i.text
  | .uninterpreted source => source

def Place.text : Place → String
  | .var l => l.name
  | .staticField f => f.text
  | .instanceField base f => base.name ++ "." ++ f.text
  | .arrayElement base => base.name ++ "[]"

def Origin.text : Origin → String
  | .this => "@this"
  | .parameter index => "@parameter" ++ toString index.toNat
  | .caughtException => "@caughtexception"

def Stmt.text : Stmt → String
  | .identity l source => l.name ++ " := " ++ source.text
  | .assign place value => place.text ++ " = " ++ value.text
  | .invoke i => i.text
  | .ret value => "return " ++ value.text
  | .retVoid => "return"
  | .goto target => "goto " ++ toString target.toNat
  | .branch operands target =>
      "if" ++ String.join (operands.map (fun o => " " ++ o.text)) ++ " goto "
        ++ toString target.toNat
  | .switch key _ _ => "switch(" ++ key.text ++ ")"
  | .throw value => "throw " ++ value.text
  | .nop => "nop"

/-! ### Orders -/

instance : Ord Local := ⟨compareLex (compareOn (·.name)) (compareOn (·.type))⟩

instance : Std.TransOrd Local :=
  inferInstanceAs (Std.TransCmp (compareLex (compareOn Local.name) (compareOn Local.type)))

instance : Std.LawfulEqOrd Local where
  eq_of_compare {a b} h := by
    obtain ⟨hname, htype⟩ := Ordering.then_eq_eq.1 h
    cases a
    cases b
    obtain rfl := Std.LawfulEqOrd.eq_of_compare hname
    obtain rfl := Std.LawfulEqOrd.eq_of_compare htype
    rfl

/-- The kinds of constants in the order of their declaration, equal kinds by content; numbers
and bits count as integers. -/
def Constant.order : Constant → Constant → Ordering
  | .string s, .string t => compare s t
  | .cls s, .cls t => compare s t
  | .null, .null => .eq
  | .int v, .int w => compare v w
  | .long v, .long w => compare v w
  | .float v, .float w => compare v w
  | .double v, .double w => compare v w
  | a, b => compare a.ctorIdx b.ctorIdx

instance : Ord Constant := ⟨Constant.order⟩

end ServiceFlow
