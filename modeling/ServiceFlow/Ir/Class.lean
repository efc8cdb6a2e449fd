import ServiceFlow.Ir.Statement
import ServiceFlow.Point

/-!
# Classes

Bodies, methods and classes, with the flow of control inside a body and the look-ups by
signature.  Where several declarations match, the first one counts.
-/

namespace ServiceFlow

/-- The locals and the statements of a method. -/
structure Body where
  locals : List Local
  stmts : List Stmt
deriving DecidableEq, Inhabited

/-- A method; abstract and native methods have no body. -/
structure Method where
  signature : MethodSig
  isStatic : Bool
  body : Option Body
deriving DecidableEq, Inhabited

/-- A class; `outer` is the class it is nested in. -/
structure ClassDecl where
  name : ClassName
  superclass : Option ClassName
  interfaces : List ClassName
  outer : Option ClassName
  methods : List Method
deriving DecidableEq, Inhabited

/-- A statement of the program: its method and its offset. -/
abbrev StmtId := Point MethodSig

def StmtId.text (p : StmtId) : String := p.method.text ++ "@" ++ toString p.offset

/-- The list without the repetitions of an element right behind it. -/
def dropRepeats {α : Type} [DecidableEq α] : List α → List α
  | [] => []
  | [a] => [a]
  | a :: b :: rest => if a = b then dropRepeats (b :: rest) else a :: dropRepeats (b :: rest)

namespace Body

/-- The offsets a statement hands control to, those outside the body included. -/
def rawSuccessors (offset : Nat) : Stmt → List Nat
  | .ret _ => []
  | .retVoid => []
  | .throw _ => []
  | .goto target => [target.toNat]
  | .branch _ target => [offset + 1, target.toNat]
  | .switch _ targets default => targets.map UInt32.toNat ++ [default.toNat]
  | _ => [offset + 1]

/-- The offsets that control may reach next; targets outside the body are dropped. -/
def successors (b : Body) (offset : Nat) : List Nat :=
  match b.stmts[offset]? with
  | none => []
  | some stmt => dropRepeats ((rawSuccessors offset stmt).filter (· < b.stmts.length))

/-- The offsets of the return statements. -/
def exits (b : Body) : List Nat :=
  (b.stmts.zipIdx.filter (·.1.isReturn)).map (·.2)

/-- The local bound to an origin by the first identity statement for it. -/
def boundLocal? (b : Body) (source : Origin) : Option Local :=
  b.stmts.findSome? fun
    | .identity l s => if s = source then some l else none
    | _ => none

def thisLocal? (b : Body) : Option Local := b.boundLocal? .this

def parameterLocal? (b : Body) (index : Nat) : Option Local :=
  if index < UInt64.size then b.boundLocal? (.parameter (UInt64.ofNat index)) else none

/-- Some statement assigns the local. -/
def assigns (b : Body) (l : Local) : Bool :=
  b.stmts.any fun
    | .assign (.var l') _ => l' = l
    | _ => false

end Body

def Method.isConcrete (m : Method) : Bool := m.body.isSome

namespace ClassDecl

/-- A class that declares nothing but its name. -/
def empty (name : ClassName) : ClassDecl := ⟨name, none, [], none, []⟩

def method? (c : ClassDecl) (m : MethodSig) : Option Method :=
  c.methods.find? (fun d => d.signature = m)

/-- The method declared here under the name, parameters and result of the signature. -/
def methodBySubSignature? (c : ClassDecl) (m : MethodSig) : Option Method :=
  c.methods.find? (fun d => d.signature.sameSubSignature m)

def staticInitializer? (c : ClassDecl) : Option Method :=
  c.methods.find? (fun d => d.signature.isStaticInitializer)

def isInner (c : ClassDecl) : Bool := c.outer.isSome

end ClassDecl

end ServiceFlow
