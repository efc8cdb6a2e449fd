import ServiceFlow.Ir.Class
import ServiceFlow.Json.Decode

/-!
# Classes as JSON documents

For each part of a class its JSON form, `encode`, and the reader `decode?` of such forms, which
gives nothing for a value that is not one.  The members of a structure are named in the lists
`members`.
-/

namespace ServiceFlow

open Json (record? required defaulted nullable variant? noContent plainVariant? tagged)

namespace ClassName

def encode (c : ClassName) : Json := .str c.text

def decode? (j : Json) : Option ClassName := j.string?.map ClassName.mk

end ClassName

namespace Primitive

def encode (p : Primitive) : Json := .str p.text

def decode? (j : Json) : Option Primitive := (plainVariant? j).bind ofText?

end Primitive

namespace Ty

def encode : Ty → Json
  | .void => .str "void"
  | .primitive p => tagged "primitive" p.encode
  | .object c => tagged "object" c.encode
  | .array element => tagged "array" element.encode

def decode? : Json → Option Ty
  | .str name => if name = "void" then some .void else none
  | .obj [(name, content)] =>
      if name = "void" then if noContent (some content) then some .void else none
      else if name = "primitive" then (Primitive.decode? content).map .primitive
      else if name = "object" then (ClassName.decode? content).map .object
      else if name = "array" then (decode? content).map .array
      else none
  | _ => none

end Ty

namespace FieldSig

def members : List String := ["class", "name", "ty"]

def encode (f : FieldSig) : Json :=
  .obj [("class", f.owner.encode), ("name", .str f.name), ("ty", f.type.encode)]

def decode? (j : Json) : Option FieldSig :=
  match record? members j with
  | some [owner, name, type] => do
      let owner ← required ClassName.decode? owner
      let name ← required Json.string? name
      let type ← required Ty.decode? type
      return ⟨owner, name, type⟩
  | _ => none

end FieldSig

namespace MethodSig

def members : List String := ["class", "name", "params", "ret"]

def encode (m : MethodSig) : Json :=
  .obj [("class", m.owner.encode), ("name", .str m.name),
    ("params", Json.ofList Ty.encode m.params), ("ret", m.result.encode)]

def decode? (j : Json) : Option MethodSig :=
  match record? members j with
  | some [owner, name, params, result] => do
      let owner ← required ClassName.decode? owner
      let name ← required Json.string? name
      let params ← required (Json.list? Ty.decode?) params
      let result ← required Ty.decode? result
      return ⟨owner, name, params, result⟩
  | _ => none

end MethodSig

namespace Local

def members : List String := ["name", "ty"]

def encode (l : Local) : Json := .obj [("name", .str l.name), ("ty", l.type.encode)]

def decode? (j : Json) : Option Local :=
  match record? members j with
  | some [name, type] => do
      let name ← required Json.string? name
      let type ← required Ty.decode? type
      return ⟨name, type⟩
  | _ => none

end Local

namespace Constant

def encode : Constant → Json
  | .string s => tagged "string" (.str s)
  | .cls name => tagged "class" (.str name)
  | .null => .str "null"
  | .int v => tagged "int" (.int v.toInt)
  | .long v => tagged "long" (.int v.toInt)
  | .float bits => tagged "float" (.ofNat bits.toNat)
  | .double bits => tagged "double" (.ofNat bits.toNat)

def decode? (j : Json) : Option Constant :=
  match variant? j with
  | some ("null", content) => if noContent content then some .null else none
  | some ("string", some content) => content.string?.map .string
  | some ("class", some content) => content.string?.map .cls
  | some ("int", some content) => content.int64?.map .int
  | some ("long", some content) => content.int64?.map .long
  | some ("float", some content) => content.uint32?.map .float
  | some ("double", some content) => content.uint64?.map .double
  | _ => none

end Constant

namespace Operand

def encode : Operand → Json
  | .var l => tagged "local" l.encode
  | .const c => tagged "constant" c.encode

def decode? (j : Json) : Option Operand :=
  match variant? j with
  | some ("local", some content) => (Local.decode? content).map .var
  | some ("constant", some content) => (Constant.decode? content).map .const
  | _ => none

end Operand

namespace InvokeKind

def all : List InvokeKind := [.static, .special, .virtual, .interface, .dynamic]

def encode (k : InvokeKind) : Json := .str k.text

def decode? (j : Json) : Option InvokeKind :=
  (plainVariant? j).bind (fun name => all.find? (fun k => k.text = name))

end InvokeKind

namespace Invoke

def members : List String := ["kind", "method", "base", "args"]

def encode (i : Invoke) : Json :=
  .obj [("kind", i.kind.encode), ("method", i.method.encode),
    ("base", Json.ofOption Local.encode i.receiver), ("args", Json.ofList Operand.encode i.args)]

def decode? (j : Json) : Option Invoke :=
  match record? members j with
  | some [kind, method, receiver, args] => do
      let kind ← required InvokeKind.decode? kind
      let method ← required MethodSig.decode? method
      let receiver ← defaulted none (nullable Local.decode?) receiver
      let args ← defaulted [] (Json.list? Operand.decode?) args
      return ⟨kind, method, receiver, args⟩
  | _ => none

end Invoke

/-- The members of a field of an object: the local that holds it, and the field. -/
def instanceFieldMembers : List String := ["base", "field"]

def encodeInstanceField (base : Local) (f : FieldSig) : Json :=
  tagged "instance_field" (.obj [("base", base.encode), ("field", f.encode)])

def decodeInstanceField? (j : Json) : Option (Local × FieldSig) :=
  match record? instanceFieldMembers j with
  | some [base, f] => do
      let base ← required Local.decode? base
      let f ← required FieldSig.decode? f
      return (base, f)
  | _ => none

namespace Expr

def encode : Expr → Json
  | .operand o => tagged "immediate" o.encode
  | .staticField f => tagged "static_field" f.encode
  | .instanceField base f => encodeInstanceField base f
  | .new c => tagged "new" c.encode
  | .invoke i => tagged "invoke" i.encode
  | .uninterpreted source => tagged "opaque" (.str source)

def decode? (j : Json) : Option Expr :=
  match variant? j with
  | some ("immediate", some content) => (Operand.decode? content).map .operand
  | some ("static_field", some content) => (FieldSig.decode? content).map .staticField
  | some ("instance_field", some content) =>
      (decodeInstanceField? content).map (fun p => .instanceField p.1 p.2)
  | some ("new", some content) => (ClassName.decode? content).map .new
  | some ("invoke", some content) => (Invoke.decode? content).map .invoke
  | some ("opaque", some content) => content.string?.map .uninterpreted
  | _ => none

end Expr

namespace Place

def arrayElementMembers : List String := ["base"]

def encode : Place → Json
  | .var l => tagged "local" l.encode
  | .staticField f => tagged "static_field" f.encode
  | .instanceField base f => encodeInstanceField base f
  | .arrayElement base => tagged "array_element" (.obj [("base", base.encode)])

def decode? (j : Json) : Option Place :=
  match variant? j with
  | some ("local", some content) => (Local.decode? content).map .var
  | some ("static_field", some content) => (FieldSig.decode? content).map .staticField
  | some ("instance_field", some content) =>
      (decodeInstanceField? content).map (fun p => .instanceField p.1 p.2)
  | some ("array_element", some content) =>
      match record? arrayElementMembers content with
      | some [base] => (required Local.decode? base).map .arrayElement
      | _ => none
  | _ => none

end Place

namespace Origin

def encode : Origin → Json
  | .this => .str "this"
  | .parameter index => tagged "parameter" (.ofNat index.toNat)
  | .caughtException => .str "caught_exception"

def decode? (j : Json) : Option Origin :=
  match variant? j with
  | some ("this", content) => if noContent content then some .this else none
  | some ("parameter", some content) => content.uint64?.map .parameter
  | some ("caught_exception", content) => if noContent content then some .caughtException else none
  | _ => none

end Origin

namespace Stmt

def identityMembers : List String := ["local", "source"]

def assignMembers : List String := ["place", "value"]

def gotoMembers : List String := ["target"]

def branchMembers : List String := ["operands", "target"]

def switchMembers : List String := ["key", "targets", "default"]

def encodeOffset (o : UInt32) : Json := .ofNat o.toNat

def encode : Stmt → Json
  | .identity l source =>
      tagged "identity" (.obj [("local", l.encode), ("source", source.encode)])
  | .assign place value =>
      tagged "assign" (.obj [("place", place.encode), ("value", value.encode)])
  | .invoke i => tagged "invoke" i.encode
  | .ret value => tagged "return" value.encode
  | .retVoid => .str "return_void"
  | .goto target => tagged "goto" (.obj [("target", encodeOffset target)])
  | .branch operands target =>
      tagged "if" (.obj [("operands", Json.ofList Operand.encode operands),
        ("target", encodeOffset target)])
  | .switch key targets default =>
      tagged "switch" (.obj [("key", key.encode), ("targets", Json.ofList encodeOffset targets),
        ("default", encodeOffset default)])
  | .throw value => tagged "throw" value.encode
  | .nop => .str "nop"

def decodeIdentity? (j : Json) : Option Stmt :=
  match record? identityMembers j with
  | some [l, source] => do
      let l ← required Local.decode? l
      let source ← required Origin.decode? source
      return .identity l source
  | _ => none

def decodeAssign? (j : Json) : Option Stmt :=
  match record? assignMembers j with
  | some [place, value] => do
      let place ← required Place.decode? place
      let value ← required Expr.decode? value
      return .assign place value
  | _ => none

def decodeGoto? (j : Json) : Option Stmt :=
  match record? gotoMembers j with
  | some [target] => (required Json.uint32? target).map .goto
  | _ => none

def decodeBranch? (j : Json) : Option Stmt :=
  match record? branchMembers j with
  | some [operands, target] => do
      let operands ← required (Json.list? Operand.decode?) operands
      let target ← required Json.uint32? target
      return .branch operands target
  | _ => none

def decodeSwitch? (j : Json) : Option Stmt :=
  match record? switchMembers j with
  | some [key, targets, default] => do
      let key ← required Operand.decode? key
      let targets ← required (Json.list? Json.uint32?) targets
      let default ← required Json.uint32? default
      return .switch key targets default
  | _ => none

def decode? (j : Json) : Option Stmt :=
  match variant? j with
  | some ("identity", some content) => decodeIdentity? content
  | some ("assign", some content) => decodeAssign? content
  | some ("invoke", some content) => (Invoke.decode? content).map .invoke
  | some ("return", some content) => (Operand.decode? content).map .ret
  | some ("return_void", content) => if noContent content then some .retVoid else none
  | some ("goto", some content) => decodeGoto? content
  | some ("if", some content) => decodeBranch? content
  | some ("switch", some content) => decodeSwitch? content
  | some ("throw", some content) => (Operand.decode? content).map .throw
  | some ("nop", content) => if noContent content then some .nop else none
  | _ => none

end Stmt

namespace Body

def members : List String := ["locals", "stmts"]

def encode (b : Body) : Json :=
  .obj [("locals", Json.ofList Local.encode b.locals), ("stmts", Json.ofList Stmt.encode b.stmts)]

def decode? (j : Json) : Option Body :=
  match record? members j with
  | some [locals, stmts] => do
      let locals ← defaulted [] (Json.list? Local.decode?) locals
      let stmts ← required (Json.list? Stmt.decode?) stmts
      return ⟨locals, stmts⟩
  | _ => none

end Body

namespace Method

def members : List String := ["signature", "is_static", "body"]

def encode (m : Method) : Json :=
  .obj [("signature", m.signature.encode), ("is_static", .bool m.isStatic),
    ("body", Json.ofOption Body.encode m.body)]

def decode? (j : Json) : Option Method :=
  match record? members j with
  | some [signature, isStatic, body] => do
      let signature ← required MethodSig.decode? signature
      let isStatic ← defaulted false Json.bool? isStatic
      let body ← defaulted none (nullable Body.decode?) body
      return ⟨signature, isStatic, body⟩
  | _ => none

end Method

namespace ClassDecl

def members : List String := ["name", "super_class", "interfaces", "outer_class", "methods"]

def encode (c : ClassDecl) : Json :=
  .obj [("name", c.name.encode), ("super_class", Json.ofOption ClassName.encode c.superclass),
    ("interfaces", Json.ofList ClassName.encode c.interfaces),
    ("outer_class", Json.ofOption ClassName.encode c.outer),
    ("methods", Json.ofList Method.encode c.methods)]

def decode? (j : Json) : Option ClassDecl :=
  match record? members j with
  | some [name, superclass, interfaces, outer, methods] => do
      let name ← required ClassName.decode? name
      let superclass ← defaulted none (nullable ClassName.decode?) superclass
      let interfaces ← defaulted [] (Json.list? ClassName.decode?) interfaces
      let outer ← defaulted none (nullable ClassName.decode?) outer
      let methods ← defaulted [] (Json.list? Method.decode?) methods
      return ⟨name, superclass, interfaces, outer, methods⟩
  | _ => none

end ClassDecl

namespace StmtId

def members : List String := ["method", "offset"]

def encode (p : StmtId) : Json :=
  .obj [("method", p.method.encode), ("offset", .ofNat p.offset)]

def decode? (j : Json) : Option StmtId :=
  match record? members j with
  | some [method, offset] => do
      let method ← required MethodSig.decode? method
      let offset ← required (Json.natBelow? UInt32.size) offset
      return ⟨method, offset⟩
  | _ => none

end StmtId

end ServiceFlow
