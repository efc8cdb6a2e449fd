import ServiceFlow.Yaml.Node
import ServiceFlow.Yaml.Word

/-!
# Writing YAML documents

A document to be written is a mapping whose values are scalars and mappings.  Mappings are written
as blocks, two spaces a level.  A text is written without quotes where it can be, and otherwise in
the plainest style that reads back.
-/

namespace ServiceFlow.Yaml

/-- A document to be written. -/
inductive Document where
  | scalar (style : ScalarStyle) (text : String)
  | map (members : List (String × Document))

/-! ### The style of a text -/

/-- Some pair of neighbours is related. -/
def anyNeighbours (p : Char → Char → Bool) (cs : List Char) : Bool :=
  (cs.zip (cs.drop 1)).any (fun n => p n.1 n.2)

/-- The character is an indicator in front of the rest. -/
def indicatesAtStart (c : Char) (rest : List Char) : Bool :=
  "#,[]\x7b\x7d&*!|>\x27\"%@\x60".contains c || ("?:-".contains c && spaceAhead rest)

/-- The text has an indicator where it would be read as one. -/
def hasIndicator (cs : List Char) : Bool :=
  ['-', '-', '-'].isPrefixOf cs || ['.', '.', '.'].isPrefixOf cs
    || (match cs with
      | [] => false
      | c :: rest => indicatesAtStart c rest)
    || anyNeighbours (fun c d => (c = ':' && isSpace d) || (isSpace c && d = '#')) cs
    || cs.getLast? = some ':'

/-- The text begins or ends with a space or with the end of a line. -/
def hasOuterSpace (cs : List Char) : Bool :=
  let outer := fun c => c = ' ' || isBreak c
  cs.head?.elim false outer || cs.getLast?.elim false outer

/-- The text has to be written with escapes. -/
def needsEscapes (cs : List Char) : Bool :=
  cs.any (fun c => !isPrintable c) || anyNeighbours (fun c d => c = ' ' && isBreak d) cs

/-- The text reads back without quotes. -/
def plainAllowed (cs : List Char) : Bool :=
  !hasIndicator cs && !hasOuterSpace cs && !cs.any isBreak && !needsEscapes cs

/-- The text reads back between single quotes. -/
def singleQuotedAllowed (cs : List Char) : Bool :=
  !needsEscapes cs && !anyNeighbours (fun c d => isBreak c && d = ' ') cs

/-- The text reads back as a literal block. -/
def literalAllowed (cs : List Char) : Bool := !needsEscapes cs && cs.getLast? ≠ some ' '

/-- The style in which a text is written. -/
def ScalarStyle.ofText (s : String) : ScalarStyle :=
  let cs := s.toList
  if cs.contains '\n' then if literalAllowed cs then .literal else .doubleQuoted
  else if !isAmbiguous s && plainAllowed cs then .plain
  else if singleQuotedAllowed cs then .singleQuoted
  else .doubleQuoted

/-! ### Scalars -/

/-- Each line is indented but for lines that are empty. -/
def indentLines (indent : List Char) : Bool → List Char → List Char
  | _, [] => []
  | start, c :: cs =>
      if isBreak c then c :: indentLines indent true cs
      else (if start then indent else []) ++ c :: indentLines indent false cs

def singleQuotedText (indent : List Char) (cs : List Char) : List Char :=
  let doubled := cs.flatMap (fun c => if c = '\x27' then ['\x27', '\x27'] else [c])
  let closing := if cs.getLast?.elim false isBreak then indent else []
  '\x27' :: indentLines indent false doubled ++ closing ++ ['\x27']

def upperHex (digits n : Nat) : List Char :=
  let ds := (Nat.toDigits 16 n).map Char.toUpper
  List.replicate (digits - ds.length) '0' ++ ds

/-- The letter behind a backslash that stands for a character. -/
def escapeLetter? (c : Char) : Option Char :=
  match c with
  | '\x00' => some '0'
  | '\x07' => some 'a'
  | '\x08' => some 'b'
  | '\t' => some 't'
  | '\n' => some 'n'
  | '\x0b' => some 'v'
  | '\x0c' => some 'f'
  | '\r' => some 'r'
  | '\x1b' => some 'e'
  | '"' => some '"'
  | '\\' => some '\\'
  | '\x85' => some 'N'
  | '\u2028' => some 'L'
  | '\u2029' => some 'P'
  | _ => none

/-- A character between double quotes. -/
def escapedText (c : Char) : List Char :=
  match escapeLetter? c with
  | some e => ['\\', e]
  | none =>
      if isPrintable c then [c]
      else if c.toNat ≤ 0xff then ['\\', 'x'] ++ upperHex 2 c.toNat
      else if c.toNat ≤ 0xffff then ['\\', 'u'] ++ upperHex 4 c.toNat
      else ['\\', 'U'] ++ upperHex 8 c.toNat

/-- The marks of a literal scalar: its indentation where the text itself begins with space, and
what becomes of the ends of lines at its end. -/
def literalMarks (cs : List Char) : List Char :=
  let indentation := if cs.head?.elim false (fun c => c = ' ' || isBreak c) then ['2'] else []
  let ending := match cs.reverse with
    | c :: rest =>
        if !isBreak c then ['-']
        else if rest.head?.elim true isBreak then ['+']
        else []
    | [] => ['-']
  indentation ++ ending

/-- A scalar in its style with the end of its last line.  The lines after its first one are
indented. -/
def scalarText (indent : List Char) (style : ScalarStyle) (cs : List Char) : List Char :=
  match style with
  | .plain => cs ++ ['\n']
  | .singleQuoted => singleQuotedText indent cs ++ ['\n']
  | .doubleQuoted => '"' :: cs.flatMap escapedText ++ ['"', '\n']
  | .literal | .folded =>
      let ending := if cs.getLast?.elim false isBreak then [] else ['\n']
      '|' :: literalMarks cs ++ '\n' :: indentLines indent true cs ++ ending

namespace Document

def text (s : String) : Document := .scalar (.ofText s) s

def nat (n : Nat) : Document := .scalar .plain (toString n)

def uint64 (n : UInt64) : Document := nat n.toNat

def bool (b : Bool) : Document := .scalar .plain (if b then "true" else "false")

/-- A member that is left out if there is no value. -/
def optional {α : Type} (key : String) (write : α → Document) (a : Option α) :
    List (String × Document) :=
  a.toList.map (fun a => (key, write a))

@[simp] theorem optional_some {α : Type} (key : String) (write : α → Document) (a : α) :
  optional key write (some a) = [(key, write a)]
  := rfl

mutual

/-- The node of a document. -/
def toNode : Document → Node
  | .scalar style text => .scalar style none text
  | .map members => .map (memberNodes members)

def memberNodes : List (String × Document) → List (Node × Node)
  | [] => []
  | (key, d) :: rest => (.scalar .plain none key, d.toNode) :: memberNodes rest

end

/-- The document as it is read back; it has no anchors. -/
def toTree (d : Document) : Tree := ⟨d.toNode, {}⟩

def indentation (level : Nat) : List Char := List.replicate (2 * level) ' '

mutual

/-- What follows the key of a member. -/
def body (level : Nat) : Document → List Char
  | .scalar style text => ' ' :: scalarText (indentation level) style text.toList
  | .map members => '\n' :: memberTexts level members

def memberTexts (level : Nat) : List (String × Document) → List Char
  | [] => []
  | (key, d) :: rest =>
      indentation level ++ key.toList ++ ':' :: body (level + 1) d ++ memberTexts level rest

end

/-- The text of a document. -/
def render : Document → String
  | .scalar style text => String.ofList (scalarText [' ', ' '] style text.toList)
  | .map members => String.ofList (memberTexts 0 members)

end Document

end ServiceFlow.Yaml
