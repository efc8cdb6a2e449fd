import ServiceFlow.Json.Basic

/-!
# Reading structures from JSON values

A structure is written as an object, or as an array of its members in the order of their
declaration.  In an object unknown members are skipped and a member must not be repeated; in an
array members at the end may be missing.  An alternative is written as its name, or as an object
with its name as the only key and its content as the value.
-/

namespace ServiceFlow.Json

variable {α : Type}

/-! ### Structures -/

/-- The member with the key: nothing if it is missing, an error if it is repeated. -/
def uniqueMember? (members : List (String × Json)) (key : String) : Option (Option Json) :=
  match members.filter (fun m => m.1 = key) with
  | [] => some none
  | [m] => some (some m.2)
  | _ => none

/-- The members of a structure under the given names, one place for each name. -/
def record? (names : List String) : Json → Option (List (Option Json))
  | .obj members => names.mapM (uniqueMember? members)
  | .arr items =>
      if items.length ≤ names.length then
        some (items.map some ++ List.replicate (names.length - items.length) none)
      else none
  | _ => none

/-- A member that must be there. -/
def required (read : Json → Option α) (j : Option Json) : Option α := j.bind read

/-- A member with a default. -/
def defaulted (default : α) (read : Json → Option α) : Option Json → Option α
  | none => some default
  | some j => read j

/-- A value or null. -/
def nullable (read : Json → Option α) : Json → Option (Option α)
  | .null => some none
  | j => (read j).map some

/-! ### Alternatives -/

/-- The name of an alternative and its content, if it has any. -/
def variant? : Json → Option (String × Option Json)
  | .str name => some (name, none)
  | .obj [(name, content)] => some (name, some content)
  | _ => none

/-- The content of an alternative that has none: nothing, or null. -/
def noContent : Option Json → Bool
  | none => true
  | some .null => true
  | some _ => false

/-- The name of an alternative without content. -/
def plainVariant? (j : Json) : Option String :=
  match j.variant? with
  | some (name, content) => if noContent content then some name else none
  | none => none

mutual

/-- The value with null in the place of each empty object that is the content of an
alternative. -/
def withoutEmptyContents : Json → Json
  | .obj [(name, .obj [])] => .obj [(name, .null)]
  | .obj members => .obj (membersWithoutEmptyContents members)
  | .arr items => .arr (itemsWithoutEmptyContents items)
  | j => j

def itemsWithoutEmptyContents : List Json → List Json
  | [] => []
  | j :: rest => j.withoutEmptyContents :: itemsWithoutEmptyContents rest

def membersWithoutEmptyContents : List (String × Json) → List (String × Json)
  | [] => []
  | (key, j) :: rest => (key, j.withoutEmptyContents) :: membersWithoutEmptyContents rest

end

/-! ### Scalars and lists -/

def string? : Json → Option String
  | .str s => some s
  | _ => none

def bool? : Json → Option Bool
  | .bool b => some b
  | _ => none

def int? : Json → Option Int
  | .int i => some i
  | _ => none

/-- A natural number below the bound. -/
def natBelow? (bound : Nat) (j : Json) : Option Nat := do
  let i ← j.int?
  if 0 ≤ i ∧ i < bound then some i.toNat else none

def uint32? (j : Json) : Option UInt32 := (j.natBelow? UInt32.size).map UInt32.ofNat

def uint64? (j : Json) : Option UInt64 := (j.natBelow? UInt64.size).map UInt64.ofNat

def int64? (j : Json) : Option Int64 := do
  let i ← j.int?
  if Int64.minValue.toInt ≤ i ∧ i ≤ Int64.maxValue.toInt then some (Int64.ofInt i) else none

def list? (read : Json → Option α) : Json → Option (List α)
  | .arr items => items.mapM read
  | _ => none

/-! ### Writing -/

def ofNat (n : Nat) : Json := .int n

def ofWord (n : UInt64) : Json := ofNat n.toNat

def ofList (write : α → Json) (l : List α) : Json := .arr (l.map write)

def ofOption (write : α → Json) : Option α → Json
  | none => .null
  | some a => write a

/-- An alternative with its content. -/
def tagged (name : String) (content : Json) : Json := .obj [(name, content)]

end ServiceFlow.Json
