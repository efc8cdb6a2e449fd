/-!
# Positions in a YAML text

Classes of characters, and a cursor that knows its line and its column.
-/

namespace ServiceFlow.Yaml

/-! ### Characters -/

/-- A character that ends a line. -/
def isBreak (c : Char) : Bool :=
  c = '\n' || c = '\r' || c = '\x85' || c = '\u2028' || c = '\u2029'

def isBlank (c : Char) : Bool := c = ' ' || c = '\t'

/-- A blank or the end of a line. -/
def isSpace (c : Char) : Bool := isBlank c || isBreak c

/-- A character of a name. -/
def isWord (c : Char) : Bool := c.isAlphanum || c = '_' || c = '-'

/-- A character that may stand in a text at all. -/
def isAllowed (c : Char) : Bool :=
  c = '\t' || c = '\n' || c = '\r' || c = '\x85' || (' ' ≤ c && c ≤ '~')
    || ('\xa0' ≤ c && c ≤ '\ufffd') || '\uffff' < c

/-- A character that need not be escaped. -/
def isPrintable (c : Char) : Bool :=
  c = '\n' || (' ' ≤ c && c ≤ '~') || ('\xa0' ≤ c && c ≤ '\ufffd' && c ≠ '\ufeff') || '\uffff' < c

/-- A space, the end of a line or the end of the text follows. -/
def spaceAhead : List Char → Bool
  | [] => true
  | c :: _ => isSpace c

/-! ### Cursors -/

/-- The bytes that characters take up. -/
def byteCount (cs : List Char) : Nat := cs.foldl (fun n c => n + c.utf8Size) 0

/-- A position in a text, with the text behind it. -/
structure Cursor where
  rest : List Char
  /-- The bytes in front of the cursor. -/
  index : Nat := 0
  line : Nat := 0
  column : Nat := 0

namespace Cursor

/-- Moves inside a line to a later part of the text. -/
def moveTo (c : Cursor) (rest : List Char) : Cursor :=
  let passed := c.rest.take (c.rest.length - rest.length)
  { c with rest, index := c.index + byteCount passed, column := c.column + passed.length }

def skip (c : Cursor) (n : Nat) : Cursor := c.moveTo (c.rest.drop n)

def skipWhile (p : Char → Bool) (c : Cursor) : Cursor := c.moveTo (c.rest.dropWhile p)

/-- The start of the next line. -/
def nextLine (c : Cursor) (n : Nat) : Cursor where
  rest := c.rest.drop n
  index := c.index + byteCount (c.rest.take n)
  line := c.line + 1
  column := 0

/-- The end of the line as it counts in a scalar, and the start of the next line. -/
def break? (c : Cursor) : Option (Char × Cursor) :=
  match c.rest with
  | '\r' :: '\n' :: _ => some ('\n', c.nextLine 2)
  | b :: _ =>
      if b = '\u2028' || b = '\u2029' then some (b, c.nextLine 1)
      else if isBreak b then some ('\n', c.nextLine 1)
      else none
  | [] => none

/-- A line that divides documents begins here. -/
def atMarker (c : Cursor) : Bool :=
  c.column = 0 &&
    match c.rest with
    | '-' :: '-' :: '-' :: rest => spaceAhead rest
    | '.' :: '.' :: '.' :: rest => spaceAhead rest
    | _ => false

/-- Skips a mark of the byte order at the start of a line, which takes up a column. -/
def skipMark (c : Cursor) : Cursor :=
  if c.column = 0 && c.rest.head? = some '\ufeff' then c.skip 1 else c

/-- Skips a comment. -/
def skipComment (c : Cursor) : Cursor :=
  if c.rest.head? = some '#' then c.skipWhile (fun ch => !isBreak ch) else c

end Cursor

end ServiceFlow.Yaml
