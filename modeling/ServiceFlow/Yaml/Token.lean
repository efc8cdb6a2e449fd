import ServiceFlow.Yaml.Scalar

/-!
# Tokens of a YAML text

A text is cut into scalars, indicators and properties.  The indentation of lines shows as tokens
that open and close blocks.  A scalar turns out to be a key only when a colon follows it on the
same line, so the place of a possible key is kept until then.
-/

namespace ServiceFlow.Yaml

/-- A piece of a text that the grammar of documents speaks of. -/
inductive Token where
  | version (major minor : Nat)
  | tagHandle (handle text : String)
  | documentStart
  | documentEnd
  | blockSeqStart
  | blockMapStart
  | blockEnd
  | flowSeqStart
  | flowSeqEnd
  | flowMapStart
  | flowMapEnd
  | blockEntry
  | flowEntry
  | key
  | value
  | alias (name : String)
  | anchor (name : String)
  | tag (handle suffix : String)
  | scalar (style : ScalarStyle) (text : String)
deriving DecidableEq, Inhabited

/-- A place where a key may have begun. -/
structure KeyPlace where
  /-- At this place there has to be a key. -/
  required : Bool
  /-- How many tokens come before it. -/
  token : Nat
  index : Nat
  line : Nat
  column : Nat

/-- How far a text has been cut into tokens. -/
structure Lexer where
  cursor : Cursor
  tokens : Array Token := #[]
  /-- The indentation of the block. -/
  indent : Int := -1
  /-- The indentations of the blocks around it. -/
  outer : List Int := []
  /-- The possible key in each collection in braces or brackets and outside of them all, the
  innermost first. -/
  keys : List (Option KeyPlace) := [none]
  /-- A key may begin here. -/
  keyAllowed : Bool := true

namespace Lexer

/-- Some collection in braces or brackets is open. -/
def inFlow (l : Lexer) : Bool := 1 < l.keys.length

def push (l : Lexer) (t : Token) : Lexer := { l with tokens := l.tokens.push t }

/-- Steps over an indicator. -/
def indicator (l : Lexer) (n : Nat) (t : Token) : Lexer :=
  { l with cursor := l.cursor.skip n, tokens := l.tokens.push t }

/-! ### Possible keys -/

/-- Gives up a possible key, which must not be required. -/
def giveUp : Option KeyPlace → Option (Option KeyPlace)
  | some k => if k.required then none else some none
  | none => some none

/-- Gives up the possible key of the innermost collection. -/
def dropKey (l : Lexer) : Option Lexer :=
  match l.keys with
  | k :: rest => (giveUp k).map (fun k => { l with keys := k :: rest })
  | [] => some l

/-- A key is short and does not go beyond its line. -/
def isStale (c : Cursor) (k : KeyPlace) : Bool := k.line < c.line || k.index + 1024 < c.index

/-- Gives up the possible keys that came too long ago. -/
def dropStaleKeys (l : Lexer) : Option Lexer :=
  let keep := fun k : Option KeyPlace =>
    if k.elim false (isStale l.cursor) then giveUp k else some k
  (l.keys.mapM keep).map (fun keys => { l with keys })

/-- Keeps the place as that of a possible key. -/
def saveKey (l : Lexer) : Option Lexer :=
  if l.keyAllowed then do
    let l ← l.dropKey
    let c := l.cursor
    let k : KeyPlace :=
      { required := !l.inFlow && l.indent = c.column, token := l.tokens.size
        index := c.index, line := c.line, column := c.column }
    return { l with keys := some k :: l.keys.drop 1 }
  else some l

/-! ### Indentation -/

/-- Closes the blocks that are indented further than the column. -/
def closeBlocks (column : Int) : List Int → Int → Array Token → List Int × Int × Array Token
  | [], indent, ts => ([], indent, ts)
  | i :: outer, indent, ts =>
      if column < indent then closeBlocks column outer i (ts.push .blockEnd)
      else (i :: outer, indent, ts)

/-- Closes blocks, except inside of braces and brackets. -/
def unroll (l : Lexer) (column : Int) : Lexer :=
  if l.inFlow then l
  else
    let (outer, indent, tokens) := closeBlocks column l.outer l.indent l.tokens
    { l with outer, indent, tokens }

/-- Opens a block at the column with a token in the given place, unless there is one already. -/
def roll (l : Lexer) (column : Nat) (place : Nat) (t : Token) : Lexer :=
  if !l.inFlow && l.indent < column then
    { l with
      outer := l.indent :: l.outer
      indent := column
      tokens := l.tokens.insertIdxIfInBounds place t }
  else l

/-! ### Space between tokens -/

/-- Skips blanks, comments and ends of lines, and marks of the byte order that lines begin with.  A
tab must not stand where a key may begin. -/
def skipSpace : Nat → Lexer → Lexer
  | 0, l => l
  | fuel + 1, l =>
      let blank := fun ch => ch = ' ' || ((l.inFlow || !l.keyAllowed) && ch = '\t')
      let c := (l.cursor.skipMark.skipWhile blank).skipComment
      match c.break? with
      | some (_, next) =>
          skipSpace fuel { l with cursor := next, keyAllowed := l.keyAllowed || !l.inFlow }
      | none => { l with cursor := c }

/-! ### Indicators -/

/-- A line that divides documents. -/
def marker (l : Lexer) (t : Token) : Option Lexer := do
  let l ← (l.unroll (-1)).dropKey
  return { l.indicator 3 t with keyAllowed := false }

/-- An indicator that opens a collection, which may be a key. -/
def openFlow (l : Lexer) (t : Token) : Option Lexer := do
  let l ← l.saveKey
  let l := l.indicator 1 t
  return { l with keys := none :: l.keys, keyAllowed := true }

/-- An indicator that closes a collection. -/
def closeFlow (l : Lexer) (t : Token) : Option Lexer := do
  let l ← l.dropKey
  let l := l.indicator 1 t
  return { l with keys := if l.inFlow then l.keys.drop 1 else l.keys, keyAllowed := false }

def flowEntry (l : Lexer) : Option Lexer := do
  let l ← l.dropKey
  return { l.indicator 1 .flowEntry with keyAllowed := true }

/-- An indicator that opens a block where there is none. -/
def openBlock (l : Lexer) (start t : Token) (keyAllowed : Bool) : Option Lexer := do
  let l ← if l.inFlow then some l
    else if l.keyAllowed then some (l.roll l.cursor.column l.tokens.size start)
    else none
  let l ← l.dropKey
  return { l.indicator 1 t with keyAllowed }

/-- A colon behind a key: marks the key, and opens a mapping where there is none. -/
def value (l : Lexer) : Option Lexer :=
  match l.keys with
  | some k :: rest =>
      let l := { l with tokens := l.tokens.insertIdxIfInBounds k.token .key }
      let l := l.roll k.column k.token .blockMapStart
      some { l.indicator 1 .value with keys := none :: rest, keyAllowed := false }
  | _ => do
      let l ← if l.inFlow then some l
        else if l.keyAllowed then some (l.roll l.cursor.column l.tokens.size .blockMapStart)
        else none
      return { l.indicator 1 .value with keyAllowed := !l.inFlow }

/-! ### Properties -/

/-- The name of an anchor, which must end at a space or at an indicator. -/
def anchorName? (cs : List Char) : Option (String × List Char) :=
  let name := cs.takeWhile isWord
  let rest := cs.dropWhile isWord
  let ends := rest.head?.elim true (fun c => isSpace c || "?:,]\x7d%@\x60".contains c)
  if !name.isEmpty && ends then some (String.ofList name, rest) else none

def property (l : Lexer) (make : String → Token) : Option Lexer := do
  let l ← l.saveKey
  let (name, rest) ← anchorName? (l.cursor.rest.drop 1)
  return { l with
    cursor := l.cursor.moveTo rest, tokens := l.tokens.push (make name), keyAllowed := false }

def isTagChar (c : Char) : Bool := isWord c || ";/?:@&=+$.%!~*\x27()".contains c

/-- A character of a tag that is written out in full. -/
def isVerbatimTagChar (c : Char) : Bool := isTagChar c || ",[]".contains c

/-- How many bytes follow the first byte of a character. -/
def followers? (first : Nat) : Option Nat :=
  if first < 0x80 then some 0
  else if 0xc0 ≤ first && first < 0xe0 then some 1
  else if 0xe0 ≤ first && first < 0xf0 then some 2
  else if 0xf0 ≤ first && first < 0xf8 then some 3
  else none

def isFollower (byte : Nat) : Bool := 0x80 ≤ byte && byte < 0xc0

/-- The bytes of a tag, each as the character with its number.  A percent sign and two digits stand
for a byte, and the bytes that a first byte calls for, `pending` of them, stand right behind it. -/
def tagBytes? : (pending : Nat) → List Char → Option (List Char)
  | 0, [] => some []
  | pending, '%' :: high :: low :: cs => do
      let byte ← Text.number? 16 [high, low]
      let pending ← match pending with
        | 0 => followers? byte
        | n + 1 => if isFollower byte then some n else none
      return Char.ofNat byte :: (← tagBytes? pending cs)
  | 0, c :: cs => if c = '%' then none else (tagBytes? 0 cs).map (c :: ·)
  | _, _ => none

/-- The text of a tag.  A zero byte ends it. -/
def tagText? (cs : List Char) : Option String :=
  (tagBytes? 0 cs).map (fun bytes => String.ofList (bytes.takeWhile (· ≠ '\x00')))

/-- A handle: an exclamation mark, or a word between two of them. -/
def tagHandle? (cs : List Char) : Option (List Char × List Char) :=
  match cs with
  | '!' :: rest =>
      let word := rest.takeWhile isWord
      match rest.dropWhile isWord with
      | '!' :: behind => some ('!' :: word ++ ['!'], behind)
      | behind => some ('!' :: word, behind)
  | _ => none

/-- The handle and the rest of a tag. -/
def tag? (cs : List Char) : Option (String × String × List Char) :=
  match cs with
  | '!' :: '<' :: rest =>
      match rest.takeWhile isVerbatimTagChar, rest.dropWhile isVerbatimTagChar with
      | [], _ => none
      | name, '>' :: behind => (tagText? name).map (fun name => ("", name, behind))
      | _, _ => none
  | _ => do
      let (handle, rest) ← tagHandle? cs
      let chars := rest.takeWhile isTagChar
      let name ← tagText? chars
      let behind := rest.dropWhile isTagChar
      if 1 < handle.length && handle.getLast? = some '!' then
        if chars.isEmpty then none else some (String.ofList handle, name, behind)
      else
        let suffix := String.ofList (handle.drop 1) ++ name
        some (if suffix.isEmpty then ("", "!", behind) else ("!", suffix, behind))

/-- A tag, which may be that of a key. -/
def tag (l : Lexer) : Option Lexer := do
  let l ← l.saveKey
  let (handle, suffix, rest) ← tag? l.cursor.rest
  if (l.inFlow && rest.head? = some ',') || spaceAhead rest then
    some { l with
      cursor := l.cursor.moveTo rest
      tokens := l.tokens.push (.tag handle suffix)
      keyAllowed := false }
  else none

/-! ### Directives -/

/-- A number of at most nine digits. -/
def versionNumber? (cs : List Char) : Option (Nat × List Char) :=
  let (digits, rest) := Text.spanDigits cs
  if digits.isEmpty || 9 < digits.length then none else some (Text.digitsValue digits, rest)

def versionDirective? (cs : List Char) : Option (Token × List Char) := do
  let (major, rest) ← versionNumber? (cs.dropWhile isBlank)
  match rest with
  | '.' :: rest =>
      let (minor, rest) ← versionNumber? rest
      return (.version major minor, rest)
  | _ => none

def tagDirective? (cs : List Char) : Option (Token × List Char) := do
  let (handle, rest) ← tagHandle? (cs.dropWhile isBlank)
  if handle ≠ ['!'] && handle.getLast? ≠ some '!' then none
  else if !rest.head?.elim false isBlank then none
  else
    let rest := rest.dropWhile isBlank
    let chars := rest.takeWhile isVerbatimTagChar
    let name ← tagText? chars
    let behind := rest.dropWhile isVerbatimTagChar
    if chars.isEmpty || !spaceAhead behind then none
    else some (.tagHandle (String.ofList handle) name, behind)

/-- A directive with the end of its line. -/
def directive (l : Lexer) : Option Lexer := do
  let l ← (l.unroll (-1)).dropKey
  let cs := l.cursor.rest.drop 1
  let behind := cs.dropWhile isWord
  let (token, rest) ← match String.ofList (cs.takeWhile isWord) with
    | "YAML" => if spaceAhead behind then versionDirective? behind else none
    | "TAG" => if spaceAhead behind then tagDirective? behind else none
    | _ => none
  let c := ((l.cursor.moveTo rest).skipWhile isBlank).skipComment
  let c ← match c.break? with
    | some (_, next) => some next
    | none => if c.rest.isEmpty then some c else none
  return { l with cursor := c, tokens := l.tokens.push token, keyAllowed := false }

/-! ### Scalars -/

/-- A scalar that goes on for the lines of its block. -/
def blockScalar (l : Lexer) (folded : Bool) : Option Lexer := do
  let l ← l.dropKey
  let (text, cursor) ← readBlock folded l.indent l.cursor
  return { l with
    cursor
    tokens := l.tokens.push (.scalar (if folded then .folded else .literal) text)
    keyAllowed := true }

/-- A scalar between quotes, which may be a key. -/
def quotedScalar (l : Lexer) (double : Bool) : Option Lexer := do
  let l ← l.saveKey
  let (text, cursor) ← readQuoted double l.cursor
  return { l with
    cursor
    tokens := l.tokens.push (.scalar (if double then .doubleQuoted else .singleQuoted) text)
    keyAllowed := false }

/-- A scalar without quotes, which may be a key. -/
def plainScalar (l : Lexer) : Option Lexer := do
  let l ← l.saveKey
  let (text, keyAllowed, cursor) ← readPlain l.inFlow l.indent l.cursor
  return { l with cursor, tokens := l.tokens.push (.scalar .plain text), keyAllowed }

/-- A character that does not begin a plain scalar. -/
def isIndicator (c : Char) : Bool := "-?:,[]\x7b\x7d#&*!|>\x27\"%@\x60".contains c

/-- A plain scalar begins here. -/
def plainAhead (l : Lexer) (c : Char) (rest : List Char) : Bool :=
  (!isSpace c && !isIndicator c)
    || (c = '-' && !rest.head?.elim false isBlank)
    || (!l.inFlow && (c = '?' || c = ':') && !spaceAhead rest)

/-- Reads the next token, which begins with the given character. -/
def next (l : Lexer) (c : Char) (rest : List Char) : Option Lexer :=
  if l.cursor.column = 0 && c = '%' then l.directive
  else if l.cursor.atMarker then l.marker (if c = '-' then .documentStart else .documentEnd)
  else if c = '[' then l.openFlow .flowSeqStart
  else if c = '\x7b' then l.openFlow .flowMapStart
  else if c = ']' then l.closeFlow .flowSeqEnd
  else if c = '\x7d' then l.closeFlow .flowMapEnd
  else if c = ',' then l.flowEntry
  else if c = '-' && spaceAhead rest then l.openBlock .blockSeqStart .blockEntry true
  else if c = '?' && (l.inFlow || spaceAhead rest) then l.openBlock .blockMapStart .key (!l.inFlow)
  else if c = ':' && (l.inFlow || spaceAhead rest) then l.value
  else if c = '*' then l.property .alias
  else if c = '&' then l.property .anchor
  else if c = '!' then l.tag
  else if c = '|' && !l.inFlow then l.blockScalar false
  else if c = '>' && !l.inFlow then l.blockScalar true
  else if c = '\x27' then l.quotedScalar false
  else if c = '"' then l.quotedScalar true
  else if l.plainAhead c rest then l.plainScalar
  else none

/-- Reads all tokens. -/
def run : Nat → Lexer → Option (List Token)
  | 0, _ => none
  | fuel + 1, l => do
      let l ← (skipSpace (l.cursor.rest.length + 1) l).dropStaleKeys
      let l := l.unroll l.cursor.column
      match l.cursor.rest with
      | [] =>
          let l ← (l.unroll (-1)).dropKey
          return l.tokens.toList
      | c :: rest => (l.next c rest).bind (run fuel)

end Lexer

/-- The tokens of a text. -/
def Token.scan? (s : String) : Option (List Token) :=
  let cs := s.toList
  if cs.all isAllowed then Lexer.run (cs.length + 1) { cursor := { rest := cs } } else none

end ServiceFlow.Yaml
