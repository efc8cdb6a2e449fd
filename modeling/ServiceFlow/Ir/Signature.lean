/-!
# Signatures

Names of classes, the types of values, and the signatures of fields and methods.  A signature is
all that identifies a part of the program from one view of it to the next.  Each of these types
has a text form and a linear order, in which alternatives count in the order of their declaration
and members are compared one after another.
-/

namespace ServiceFlow

/-- The full name of a class in dotted form. -/
structure ClassName where
  text : String
deriving DecidableEq, Hashable, Inhabited

/-- The types of numbers and truth values, the narrower first. -/
inductive Primitive where
  | boolean
  | byte
  | char
  | short
  | int
  | long
  | float
  | double
deriving DecidableEq, Hashable, Inhabited

/-- The type of a value. -/
inductive Ty where
  | void
  | primitive (p : Primitive)
  | object (c : ClassName)
  | array (element : Ty)
deriving DecidableEq, Hashable, Inhabited

/-- A field: the class that declares it, its name and its type. -/
structure FieldSig where
  owner : ClassName
  name : String
  type : Ty
deriving DecidableEq, Hashable, Inhabited

/-- A method: the class that declares it, its name, its parameter types and its result type. -/
structure MethodSig where
  owner : ClassName
  name : String
  params : List Ty
  result : Ty
deriving DecidableEq, Hashable, Inhabited

/-! ### Names with a fixed meaning -/

namespace ClassName

def object : ClassName := ⟨"java.lang.Object"⟩
def string : ClassName := ⟨"java.lang.String"⟩
def cls : ClassName := ⟨"java.lang.Class"⟩
def stringBuilder : ClassName := ⟨"java.lang.StringBuilder"⟩
def stringBuffer : ClassName := ⟨"java.lang.StringBuffer"⟩
def serviceLoader : ClassName := ⟨"java.util.ServiceLoader"⟩

/-- The classes whose instances accumulate a text. -/
def isBuilder (c : ClassName) : Bool := c = stringBuilder || c = stringBuffer

/-- The part of a list behind the last separator, and the part before it if there is one. -/
def splitLast (sep : Char) (cs : List Char) : Option (List Char) × List Char :=
  let tail := (cs.reverse.takeWhile (· ≠ sep)).reverse
  if tail.length = cs.length then (none, tail)
  else (some (cs.take (cs.length - tail.length - 1)), tail)

/-- The part of the name behind its last dot. -/
def shortName (c : ClassName) : String := String.ofList (splitLast '.' c.text.toList).2

/-- The part of the name before its last dot, empty if there is none. -/
def package (c : ClassName) : String :=
  String.ofList ((splitLast '.' c.text.toList).1.getD [])

end ClassName

namespace Ty

def string : Ty := .object .string
def cls : Ty := .object .cls

/-- The class of a reference type that is not an array. -/
def className? : Ty → Option ClassName
  | .object c => some c
  | _ => none

/-- The type is that of the instances of the class. -/
def isObject (t : Ty) (c : ClassName) : Bool := t.className? = some c

end Ty

namespace MethodSig

/-- The name of constructors. -/
def constructorName : String := "<init>"

/-- The name of static initializers. -/
def staticInitializerName : String := "<clinit>"

def isConstructor (m : MethodSig) : Bool := m.name = constructorName

def isStaticInitializer (m : MethodSig) : Bool := m.name = staticInitializerName

/-- Equality of name, parameters and result; the declaring classes may differ. -/
def sameSubSignature (m n : MethodSig) : Bool :=
  m.name = n.name && m.params = n.params && m.result = n.result

/-- The signature as another class would declare it. -/
def withOwner (m : MethodSig) (c : ClassName) : MethodSig := { m with owner := c }

end MethodSig

/-! ### Texts -/

namespace Primitive

def text : Primitive → String
  | boolean => "boolean"
  | byte => "byte"
  | char => "char"
  | short => "short"
  | int => "int"
  | long => "long"
  | float => "float"
  | double => "double"

/-- All of them, in order. -/
def all : List Primitive := [boolean, byte, char, short, int, long, float, double]

/-- The type with the given text. -/
def ofText? (s : String) : Option Primitive := all.find? (fun p => p.text = s)

end Primitive

def Ty.text : Ty → String
  | .void => "void"
  | .primitive p => p.text
  | .object c => c.text
  | .array element => element.text ++ "[]"

def FieldSig.text (f : FieldSig) : String :=
  "<" ++ f.owner.text ++ ": " ++ f.type.text ++ " " ++ f.name ++ ">"

def MethodSig.text (m : MethodSig) : String :=
  "<" ++ m.owner.text ++ ": " ++ m.result.text ++ " " ++ m.name ++ "("
    ++ ",".intercalate (m.params.map Ty.text) ++ ")>"

/-! ### Orders -/

instance : Ord ClassName := ⟨compareOn (·.text)⟩

instance : Std.TransOrd ClassName :=
  inferInstanceAs (Std.TransCmp (compareOn ClassName.text))

instance : Std.LawfulEqOrd ClassName where
  eq_of_compare {a b} h := by
    have h' : a.text = b.text := Std.LawfulEqOrd.eq_of_compare h
    cases a
    cases b
    exact congrArg _ h'

instance : Ord Primitive := ⟨compareOn Primitive.ctorIdx⟩

instance : Std.TransOrd Primitive :=
  inferInstanceAs (Std.TransCmp (compareOn Primitive.ctorIdx))

instance : Std.LawfulEqOrd Primitive where
  eq_of_compare {a b} h := by
    have h' : a.ctorIdx = b.ctorIdx := Std.LawfulEqOrd.eq_of_compare h
    revert h'
    cases a <;> cases b <;> decide

/-- Void, then the primitive types, then the classes by name, then the arrays by their elements. -/
def Ty.order : Ty → Ty → Ordering
  | .void, .void => .eq
  | .void, _ => .lt
  | .primitive _, .void => .gt
  | .primitive p, .primitive q => compare p q
  | .primitive _, _ => .lt
  | .object _, .void => .gt
  | .object _, .primitive _ => .gt
  | .object c, .object d => compare c d
  | .object _, .array _ => .lt
  | .array a, .array b => a.order b
  | .array _, _ => .gt

instance : Ord Ty := ⟨Ty.order⟩

theorem Ty.order_swap (a b : Ty) :
  a.order b = (b.order a).swap
  := by
  induction a generalizing b with
  | array a ih =>
      cases b with
      | array b => exact ih b
      | _ => rfl
  | primitive p =>
      cases b with
      | primitive q => exact (Std.OrientedOrd.eq_swap : compare p q = (compare q p).swap)
      | _ => rfl
  | object c =>
      cases b with
      | object d => exact (Std.OrientedOrd.eq_swap : compare c d = (compare d c).swap)
      | _ => rfl
  | void => cases b <;> rfl

theorem Ty.order_isLE_trans {a b c : Ty} (hab : (a.order b).isLE) (hbc : (b.order c).isLE) :
  (a.order c).isLE
  := by
  induction a generalizing b c with
  | array a ih =>
      cases b with
      | array b =>
          cases c with
          | array c => exact ih hab hbc
          | _ => cases hbc
      | _ => cases hab
  | primitive p =>
      cases b with
      | void => cases hab
      | primitive q =>
          cases c with
          | void => cases hbc
          | primitive r =>
              have h : (compare p r).isLE := Std.TransOrd.isLE_trans (b := q) hab hbc
              exact h
          | _ => rfl
      | _ =>
          cases c with
          | void => cases hbc
          | primitive r => cases hbc
          | _ => rfl
  | object d =>
      cases b with
      | void => cases hab
      | primitive q => cases hab
      | object e =>
          cases c with
          | object f =>
              have h : (compare d f).isLE := Std.TransOrd.isLE_trans (b := e) hab hbc
              exact h
          | array c => rfl
          | _ => cases hbc
      | array b =>
          cases c with
          | array c => rfl
          | _ => cases hbc
  | void => cases c <;> rfl

theorem Ty.eq_of_order {a b : Ty} (h : a.order b = .eq) :
  a = b
  := by
  induction a generalizing b with
  | array a ih =>
      cases b with
      | array b => exact congrArg _ (ih h)
      | _ => cases h
  | primitive p =>
      cases b with
      | primitive q => exact congrArg _ (Std.LawfulEqOrd.eq_of_compare h)
      | _ => cases h
  | object c =>
      cases b with
      | object d => exact congrArg _ (Std.LawfulEqOrd.eq_of_compare h)
      | _ => cases h
  | void =>
      cases b with
      | void => rfl
      | _ => cases h

theorem Ty.order_self (a : Ty) :
  a.order a = .eq
  := by
  induction a with
  | array a ih => exact ih
  | primitive p => exact (Std.ReflOrd.compare_self : compare p p = .eq)
  | object c => exact (Std.ReflOrd.compare_self : compare c c = .eq)
  | void => rfl

instance : Std.TransOrd Ty where
  eq_swap := Ty.order_swap _ _
  isLE_trans := Ty.order_isLE_trans

instance : Std.LawfulEqOrd Ty where
  compare_self := Ty.order_self _
  eq_of_compare := Ty.eq_of_order

instance : Ord FieldSig :=
  ⟨compareLex (compareOn (·.owner)) (compareLex (compareOn (·.name)) (compareOn (·.type)))⟩

instance : Std.TransOrd FieldSig :=
  inferInstanceAs (Std.TransCmp (compareLex (compareOn FieldSig.owner)
    (compareLex (compareOn FieldSig.name) (compareOn FieldSig.type))))

instance : Std.LawfulEqOrd FieldSig where
  eq_of_compare {a b} h := by
    obtain ⟨howner, h⟩ := Ordering.then_eq_eq.1 h
    obtain ⟨hname, htype⟩ := Ordering.then_eq_eq.1 h
    cases a
    cases b
    obtain rfl := Std.LawfulEqOrd.eq_of_compare howner
    obtain rfl := Std.LawfulEqOrd.eq_of_compare hname
    obtain rfl := Std.LawfulEqOrd.eq_of_compare htype
    rfl

instance : Ord MethodSig :=
  ⟨compareLex (compareOn (·.owner)) (compareLex (compareOn (·.name))
    (compareLex (compareOn (·.params)) (compareOn (·.result))))⟩

instance : Std.TransOrd MethodSig :=
  inferInstanceAs (Std.TransCmp (compareLex (compareOn MethodSig.owner)
    (compareLex (compareOn MethodSig.name)
      (compareLex (compareOn MethodSig.params) (compareOn MethodSig.result)))))

instance : Std.LawfulEqOrd MethodSig where
  eq_of_compare {a b} h := by
    obtain ⟨howner, h⟩ := Ordering.then_eq_eq.1 h
    obtain ⟨hname, h⟩ := Ordering.then_eq_eq.1 h
    obtain ⟨hparams, hresult⟩ := Ordering.then_eq_eq.1 h
    cases a
    cases b
    obtain rfl := Std.LawfulEqOrd.eq_of_compare howner
    obtain rfl := Std.LawfulEqOrd.eq_of_compare hname
    obtain rfl := Std.LawfulEqOrd.eq_of_compare hparams
    obtain rfl := Std.LawfulEqOrd.eq_of_compare hresult
    rfl

end ServiceFlow
