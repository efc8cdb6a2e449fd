/-!
# JSON values

The values of JSON texts.  An object keeps its members in order, repeated ones included, and
integers of up to 64 bits are apart from the other numbers.  `garbled` stands for a part of a
text that is well formed and yet denotes nothing here, so that reading it fails and skipping it
does not.
-/

namespace ServiceFlow

/-- The value of a JSON text. -/
inductive Json where
  | null
  | bool (b : Bool)
  /-- A number written without fraction and exponent that fits into 64 bits. -/
  | int (i : Int)
  /-- Any other number, `mantissa * 10 ^ exponent`. -/
  | decimal (mantissa exponent : Int)
  | str (s : String)
  | arr (items : List Json)
  | obj (members : List (String × Json))
  /-- A value that nests too deeply, a number too large for a double, or a string with an
  unpaired surrogate. -/
  | garbled
deriving Inhabited

namespace Json

mutual

/-- Every part of the value denotes something. -/
def isSound : Json → Bool
  | .arr items => itemsSound items
  | .obj members => membersSound members
  | .garbled => false
  | _ => true

def itemsSound : List Json → Bool
  | [] => true
  | j :: rest => j.isSound && itemsSound rest

def membersSound : List (String × Json) → Bool
  | [] => true
  | (_, j) :: rest => j.isSound && membersSound rest

end

/-- Prepends a member unless the key occurs behind it. -/
def addMember (key : String) (j : Json) (members : List (String × Json)) : List (String × Json) :=
  if members.any (fun m => m.1 = key) then members else (key, j) :: members

mutual

/-- The value with the last of repeated members only. -/
def lastMembers : Json → Json
  | .arr items => .arr (lastMembersItems items)
  | .obj members => .obj (lastMembersMembers members)
  | j => j

def lastMembersItems : List Json → List Json
  | [] => []
  | j :: rest => j.lastMembers :: lastMembersItems rest

def lastMembersMembers : List (String × Json) → List (String × Json)
  | [] => []
  | (key, j) :: rest => addMember key j.lastMembers (lastMembersMembers rest)

end

mutual

/-- The number of arrays and objects around the innermost value. -/
def depth : Json → Nat
  | .arr items => itemsDepth items + 1
  | .obj members => membersDepth members + 1
  | _ => 0

def itemsDepth : List Json → Nat
  | [] => 0
  | j :: rest => max j.depth (itemsDepth rest)

def membersDepth : List (String × Json) → Nat
  | [] => 0
  | (_, j) :: rest => max j.depth (membersDepth rest)

end

/-- The first member with the key. -/
def member? (key : String) : Json → Option Json
  | .obj members => (members.find? (fun m => m.1 = key)).map (·.2)
  | _ => none

end Json

end ServiceFlow
