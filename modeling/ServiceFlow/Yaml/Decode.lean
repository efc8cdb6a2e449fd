import ServiceFlow.Yaml.Node
import ServiceFlow.Yaml.Word

/-!
# Decoding YAML documents

What a node says as a text, a truth value, a number, or a record of members with known names.
-/

namespace ServiceFlow.Yaml.Tree

/-- The name of a standard tag. -/
def standardTag (name : String) : String := "tag:yaml.org,2002:" ++ name

/-- A scalar of any style as a text. -/
def text? (t : Tree) : Option String :=
  match t.node with
  | .scalar _ _ text => some text
  | _ => none

/-- A scalar as a word that need not be a text: it has no quotes, or it is a literal with the
tag. -/
def word? (tagName : String) (t : Tree) : Option String :=
  match t.node with
  | .scalar .plain _ text => some text
  | .scalar .literal tag text => if tag = some (standardTag tagName) then some text else none
  | _ => none

def bool? (t : Tree) : Option Bool := (t.word? "bool").bind boolean?

/-- A number that fits into the given count of values. -/
def nat? (size : Nat) (t : Tree) : Option Nat :=
  ((t.word? "int").bind natural?).filter (· < size)

def uint64? (t : Tree) : Option UInt64 := (t.nat? UInt64.size).map UInt64.ofNat

def uint32? (t : Tree) : Option UInt32 := (t.nat? UInt32.size).map UInt32.ofNat

/-- A node that may say that there is nothing.  With a tag other than that of null it says
something. -/
def optional? {α : Type} (read : Tree → Option α) (t : Tree) : Option (Option α) :=
  match t.node with
  | .scalar .plain none text =>
      if text.isEmpty || isNull text then some none else (read t).map some
  | .scalar .plain (some tag) text =>
      if tag = standardTag "null" then if isNull text then some none else none
      else (read t).map some
  | _ => (read t).map some

/-! ### Records -/

/-- A member of a mapping by the text of its key. -/
def entry? (t : Tree) (e : Node × Node) : Option (String × Tree) := do
  let key ← (← t.at? e.1).text?
  let value ← t.at? e.2
  return (key, value)

/-- The members of a mapping by the texts of their keys; nothing at all stands for no members. -/
def members? (t : Tree) : Option (List (String × Tree)) :=
  match t.node with
  | .map entries => entries.mapM t.entry?
  | .scalar .plain _ text => if text.isEmpty then some [] else none
  | _ => none

/-- The values of the members with one name. -/
def valuesOf (key : String) (members : List (String × Tree)) : List Tree :=
  (members.filter (fun m => m.1 = key)).map (fun m => m.2)

/-- The members of a record, among which no known name is repeated. -/
def openRecord? (known : List String) (t : Tree) : Option (List (String × Tree)) :=
  t.members?.filter (fun ms => known.all (fun key => (valuesOf key ms).length ≤ 1))

/-- The members of a record, all of which have known names. -/
def record? (known : List String) (t : Tree) : Option (List (String × Tree)) :=
  (t.openRecord? known).filter (fun ms => ms.all (fun m => m.1 ∈ known))

/-- A member that may be left out. -/
def member? {α : Type} (key : String) (read : Tree → Option α) (members : List (String × Tree)) :
    Option (Option α) :=
  match valuesOf key members with
  | [] => some none
  | t :: _ => (read t).map some

/-- A member that may be left out or say that there is nothing. -/
def optionalMember? {α : Type} (key : String) (read : Tree → Option α)
    (members : List (String × Tree)) : Option (Option α) :=
  (member? key (optional? read) members).map Option.join

end ServiceFlow.Yaml.Tree
