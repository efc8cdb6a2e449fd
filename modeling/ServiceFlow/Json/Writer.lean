import ServiceFlow.Json.Basic

/-!
# Writing JSON texts

`Json.compress` writes a value without white space, `Json.pretty` with one item or member a line,
two blanks deeper on each level.  The quotation mark, the backslash and the control characters
are escaped in strings, and nothing else.
-/

namespace ServiceFlow.Json

def hexText (n : Nat) : List Char :=
  let ds := Nat.toDigits 16 n
  List.replicate (4 - ds.length) '0' ++ ds

def escapeChar (c : Char) : List Char :=
  if c = '"' then ['\\', '"']
  else if c = '\\' then ['\\', '\\']
  else if c = '\n' then ['\\', 'n']
  else if c = '\r' then ['\\', 'r']
  else if c = '\t' then ['\\', 't']
  else if c = '\x08' then ['\\', 'b']
  else if c = '\x0c' then ['\\', 'f']
  else if c.toNat < 0x20 then '\\' :: 'u' :: hexText c.toNat
  else [c]

def stringText (s : String) : String :=
  String.ofList ('"' :: (s.toList.flatMap escapeChar ++ ['"']))

/-- The text of a value that is neither array nor object.  What denotes nothing is written as
null. -/
def scalarText : Json → String
  | .bool true => "true"
  | .bool false => "false"
  | .int i => toString i
  | .decimal mantissa exponent => toString mantissa ++ "e" ++ toString exponent
  | .str s => stringText s
  | _ => "null"

mutual

/-- The value without white space. -/
def compress : Json → String
  | .arr items => "[" ++ ",".intercalate (compressItems items) ++ "]"
  | .obj members => "\x7b" ++ ",".intercalate (compressMembers members) ++ "\x7d"
  | j => j.scalarText

def compressItems : List Json → List String
  | [] => []
  | j :: rest => j.compress :: compressItems rest

def compressMembers : List (String × Json) → List String
  | [] => []
  | (key, j) :: rest => (stringText key ++ ":" ++ j.compress) :: compressMembers rest

end

/-- A line break and the indentation of a level. -/
def lineBreak (level : Nat) : String := "\n" ++ String.ofList (List.replicate (2 * level) ' ')

/-- Items on lines of their own between brackets. -/
def block (level : Nat) (opening closing : String) (items : List String) : String :=
  if items.isEmpty then opening ++ closing
  else
    opening ++ ",".intercalate (items.map (lineBreak (level + 1) ++ ·)) ++ lineBreak level
      ++ closing

mutual

def prettyAt (level : Nat) : Json → String
  | .arr items => block level "[" "]" (prettyItems (level + 1) items)
  | .obj members => block level "\x7b" "\x7d" (prettyMembers (level + 1) members)
  | j => j.scalarText

def prettyItems (level : Nat) : List Json → List String
  | [] => []
  | j :: rest => prettyAt level j :: prettyItems level rest

def prettyMembers (level : Nat) : List (String × Json) → List String
  | [] => []
  | (key, j) :: rest => (stringText key ++ ": " ++ prettyAt level j) :: prettyMembers level rest

end

/-- The value on several lines. -/
def pretty (j : Json) : String := prettyAt 0 j

end ServiceFlow.Json
