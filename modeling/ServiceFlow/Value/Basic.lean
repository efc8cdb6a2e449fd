import ServiceFlow.Ir.Statement
import ServiceFlow.Sorted
import ServiceFlow.Value.ClassLiteral

/-!
# Abstract values

What the analysis knows of a value: nothing, that it is a certain string, class or null, or that
it is an object made in view, with what is known of its fields.  `Value.unknown` absorbs every
operation.  The fields of an object are kept in ascending order, and are absent until the first
of them is written.
-/

namespace ServiceFlow

/-- What is known of a value. -/
inductive Value where
  | unknown
  | str (s : String)
  /-- A class, under its name as it was obtained. -/
  | cls (name : String)
  | null
  | object (type : ClassName) (fields : Option (List (FieldSig × Value)))
deriving Inhabited

namespace Value

/-! ### Equality and order -/

mutual

def decEq : (a b : Value) → Decidable (a = b)
  | .unknown, .unknown => isTrue rfl
  | .str s, .str t => decidable_of_iff (s = t) (by simp)
  | .cls s, .cls t => decidable_of_iff (s = t) (by simp)
  | .null, .null => isTrue rfl
  | .object c none, .object d none => decidable_of_iff (c = d) (by simp)
  | .object c (some fs), .object d (some gs) =>
      have := decEqFields fs gs
      decidable_of_iff (c = d ∧ fs = gs) (by simp)
  | .unknown, .str _ => isFalse nofun
  | .unknown, .cls _ => isFalse nofun
  | .unknown, .null => isFalse nofun
  | .unknown, .object _ _ => isFalse nofun
  | .str _, .unknown => isFalse nofun
  | .str _, .cls _ => isFalse nofun
  | .str _, .null => isFalse nofun
  | .str _, .object _ _ => isFalse nofun
  | .cls _, .unknown => isFalse nofun
  | .cls _, .str _ => isFalse nofun
  | .cls _, .null => isFalse nofun
  | .cls _, .object _ _ => isFalse nofun
  | .null, .unknown => isFalse nofun
  | .null, .str _ => isFalse nofun
  | .null, .cls _ => isFalse nofun
  | .null, .object _ _ => isFalse nofun
  | .object _ _, .unknown => isFalse nofun
  | .object _ _, .str _ => isFalse nofun
  | .object _ _, .cls _ => isFalse nofun
  | .object _ _, .null => isFalse nofun
  | .object _ none, .object _ (some _) => isFalse (by simp)
  | .object _ (some _), .object _ none => isFalse (by simp)

def decEqFields : (fs gs : List (FieldSig × Value)) → Decidable (fs = gs)
  | [], [] => isTrue rfl
  | [], _ :: _ => isFalse nofun
  | _ :: _, [] => isFalse nofun
  | (f, v) :: fs, (g, w) :: gs =>
      have := decEq v w
      have := decEqFields fs gs
      decidable_of_iff ((f = g ∧ v = w) ∧ fs = gs) (by simp)

end

instance : DecidableEq Value := decEq

/-- The alternatives in the order of their declaration. -/
def rank : Value → Nat
  | .unknown => 0
  | .str _ => 1
  | .cls _ => 2
  | .null => 3
  | .object _ _ => 4

mutual

/-- Equal alternatives are compared by content, objects by type and then by their fields; an
object without fields comes before one with fields. -/
def order : Value → Value → Ordering
  | .str s, .str t => compare s t
  | .cls s, .cls t => compare s t
  | .object c none, .object d none => compare c d
  | .object c none, .object d (some _) => (compare c d).then .lt
  | .object c (some _), .object d none => (compare c d).then .gt
  | .object c (some fs), .object d (some gs) => (compare c d).then (orderFields fs gs)
  | a, b => compare a.rank b.rank

def orderFields : List (FieldSig × Value) → List (FieldSig × Value) → Ordering
  | [], [] => .eq
  | [], _ :: _ => .lt
  | _ :: _, [] => .gt
  | (f, v) :: fs, (g, w) :: gs => (compare f g).then ((order v w).then (orderFields fs gs))

end

instance : Ord Value := ⟨order⟩

mutual

def hashValue : Value → UInt64
  | .unknown => 11
  | .str s => mixHash 13 (hash s)
  | .cls s => mixHash 17 (hash s)
  | .null => 19
  | .object c none => mixHash 23 (hash c)
  | .object c (some fs) => mixHash (hash c) (hashFields fs)

def hashFields : List (FieldSig × Value) → UInt64
  | [] => 29
  | (f, v) :: fs => mixHash (hash f) (mixHash (hashValue v) (hashFields fs))

end

instance : Hashable Value := ⟨hashValue⟩

/-! ### Operations -/

/-- The value of a literal; numbers are not followed. -/
def ofConstant : Constant → Value
  | .string s => .str s
  | .cls name => .cls name
  | .null => .null
  | _ => .unknown

/-- An object that was just made. -/
def fresh (type : ClassName) : Value := .object type none

def isKnown (v : Value) : Bool := v ≠ .unknown

/-- A string, a class or null. -/
def isConstant : Value → Bool
  | .str _ => true
  | .cls _ => true
  | .null => true
  | _ => false

def isObject : Value → Bool
  | .object _ _ => true
  | _ => false

def string? : Value → Option String
  | .str s => some s
  | _ => none

/-- A known string, and nothing else. -/
def onlyString : Value → Value
  | .str s => .str s
  | _ => .unknown

/-- What is known of a field. -/
def field (v : Value) (f : FieldSig) : Value :=
  match v with
  | .object _ (some fields) => (Sorted.lookup f fields).getD .unknown
  | _ => .unknown

/-- The object with the field written; to write an unknown value is to forget the field.  What is
not an object stays as it is. -/
def withField (v : Value) (f : FieldSig) (value : Value) : Value :=
  match v with
  | .object type fields =>
      let fields := fields.getD []
      .object type (some (if value.isKnown then Sorted.insert f value fields
        else Sorted.erase f fields))
  | other => other

/-- The concatenation of two strings. -/
def concat : Value → Value → Value
  | .str s, .str t => .str (s ++ t)
  | _, _ => .unknown

/-- The canonical name of a class. -/
def canonicalName : Value → Value
  | .cls name => .str (ClassLiteral.canonical name)
  | _ => .unknown

/-- The simple name of a class. -/
def simpleName : Value → Value
  | .cls name => .str (ClassLiteral.simple name)
  | _ => .unknown

/-- The class of the given name. -/
def classForName : Value → Value
  | .str s => .cls s
  | _ => .unknown

/-! ### Texts -/

mutual

def text : Value → String
  | .unknown => "Unknown"
  | .str s => "String: " ++ s
  | .cls name => "Class: " ++ name
  | .null => "Null"
  | .object type none => "Object: " ++ type.text
  | .object type (some fields) =>
      "Object: " ++ type.text ++ " \x7b" ++ ", ".intercalate (fieldTexts fields) ++ "\x7d"

def fieldTexts : List (FieldSig × Value) → List String
  | [] => []
  | (f, v) :: rest => (f.name ++ " = " ++ v.text) :: fieldTexts rest

end

end Value

end ServiceFlow
