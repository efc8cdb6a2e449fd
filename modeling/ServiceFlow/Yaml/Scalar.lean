import ServiceFlow.Yaml.Cursor
import ServiceFlow.Text.Digits

/-!
# Scalars of a YAML text

Plain scalars, quoted scalars and block scalars, each from the cursor at its start to the cursor
behind it.  Inside plain and quoted scalars the end of a line counts as a space, and empty lines
count as ends of lines.
-/

namespace ServiceFlow.Yaml

/-- How a scalar is set off from the text around it. -/
inductive ScalarStyle where
  | plain
  | singleQuoted
  | doubleQuoted
  | literal
  | folded
deriving DecidableEq, Inhabited

/-! ### Gaps between the words of a scalar -/

/-- The blanks up to the first end of a line, that end, and the ends of the lines that follow. -/
structure Gap where
  blanks : List Char := []
  broken : Bool := false
  first : List Char := []
  more : List Char := []

/-- What a gap counts for. -/
def Gap.text (g : Gap) : List Char :=
  if g.broken then
    if g.first = ['\n'] then (if g.more.isEmpty then [' '] else g.more) else g.first ++ g.more
  else g.blanks

/-- Reads blanks and ends of lines.  In front of the given column a tab must not indent a line. -/
def readGap (indent : Int) : Nat → Gap → Cursor → Option (Gap × Cursor)
  | 0, _, _ => none
  | fuel + 1, g, c =>
      match c.break? with
      | some (b, next) =>
          readGap indent fuel
            (if g.broken then { g with more := g.more ++ [b] }
              else { g with broken := true, blanks := [], first := [b] }) next
      | none =>
          match c.rest with
          | ch :: _ =>
              if isBlank ch then
                if g.broken && c.column < indent && ch = '\t' then none
                else
                  readGap indent fuel
                    (if g.broken then g else { g with blanks := g.blanks ++ [ch] }) (c.skip 1)
              else some (g, c)
          | [] => some (g, c)

/-! ### Plain scalars -/

/-- A character with a meaning in collections in braces and brackets. -/
def isFlowIndicator (c : Char) : Bool :=
  c = ',' || c = '[' || c = ']' || c = '\x7b' || c = '\x7d'

/-- The next word of a plain scalar.  In a flow collection a colon must not stand right before an
indicator. -/
def plainWord (flow : Bool) : List Char → Option (List Char × List Char)
  | [] => some ([], [])
  | c :: rest =>
      if isSpace c then some ([], c :: rest)
      else if flow && c = ':' && rest.head?.elim false (fun d => isFlowIndicator d || d = '?') then
        none
      else if (c = ':' && spaceAhead rest) || (flow && isFlowIndicator c) then some ([], c :: rest)
      else (plainWord flow rest).map (fun r => (c :: r.1, r.2))

/-- Reads the words of a plain scalar.  The result says whether the cursor stands behind the end
of a line. -/
def plainWords (flow : Bool) (indent : Int) :
    Nat → List Char → Gap → Cursor → Option (List Char × Bool × Cursor)
  | 0, _, _, _ => none
  | fuel + 1, text, g, c =>
      if c.atMarker || c.rest.head? = some '#' then some (text, g.broken, c)
      else do
        let (word, rest) ← plainWord flow c.rest
        let c := c.moveTo rest
        let text := if word.isEmpty then text else text ++ g.text ++ word
        let g := if word.isEmpty then g else {}
        match c.rest with
        | ch :: _ =>
            if isSpace ch then
              let (g, c) ← readGap indent (c.rest.length + 1) g c
              if !flow && c.column < indent then some (text, g.broken, c)
              else plainWords flow indent fuel text g c
            else some (text, g.broken, c)
        | [] => some (text, g.broken, c)

/-- Reads a plain scalar that stands inside a block of the given indentation. -/
def readPlain (flow : Bool) (indent : Int) (c : Cursor) : Option (String × Bool × Cursor) :=
  (plainWords flow (indent + 1) (c.rest.length + 1) [] {} c).map
    (fun r => (String.ofList r.1, r.2))

/-! ### Quoted scalars -/

/-- The character with the code that the first digits write. -/
def escapedCode? (digits : Nat) (cs : List Char) : Option (Char × List Char) := do
  let code ← Text.number? 16 (cs.take digits)
  if digits ≤ cs.length && code.isValidChar then some (Char.ofNat code, cs.drop digits) else none

/-- The character of an escape of one letter. -/
def escapedLetter? (c : Char) : Option Char :=
  match c with
  | '0' => some '\x00'
  | 'a' => some '\x07'
  | 'b' => some '\x08'
  | 't' => some '\t'
  | '\t' => some '\t'
  | 'n' => some '\n'
  | 'v' => some '\x0b'
  | 'f' => some '\x0c'
  | 'r' => some '\r'
  | 'e' => some '\x1b'
  | ' ' => some ' '
  | '"' => some '"'
  | '/' => some '/'
  | '\\' => some '\\'
  | 'N' => some '\x85'
  | '_' => some '\xa0'
  | 'L' => some '\u2028'
  | 'P' => some '\u2029'
  | _ => none

/-- The character of an escape, from what follows the backslash. -/
def escape? : List Char → Option (Char × List Char)
  | 'x' :: rest => escapedCode? 2 rest
  | 'u' :: rest => escapedCode? 4 rest
  | 'U' :: rest => escapedCode? 8 rest
  | c :: rest => (escapedLetter? c).map (fun e => (e, rest))
  | [] => none

/-- The next word of a single-quoted scalar. -/
def singleWord : List Char → List Char × List Char
  | [] => ([], [])
  | '\x27' :: '\x27' :: rest =>
      let r := singleWord rest
      ('\x27' :: r.1, r.2)
  | c :: rest =>
      if isSpace c || c = '\x27' then ([], c :: rest)
      else
        let r := singleWord rest
        (c :: r.1, r.2)

/-- The next word of a double-quoted scalar, up to a space, the closing quote, or a backslash at
the end of a line. -/
def doubleWord : Nat → List Char → Option (List Char × List Char)
  | 0, _ => none
  | _ + 1, [] => some ([], [])
  | fuel + 1, '\\' :: rest =>
      if rest.head?.elim false isBreak then some ([], '\\' :: rest)
      else do
        let (c, rest) ← escape? rest
        let (word, rest) ← doubleWord fuel rest
        return (c :: word, rest)
  | fuel + 1, c :: rest =>
      if isSpace c || c = '"' then some ([], c :: rest)
      else (doubleWord fuel rest).map (fun r => (c :: r.1, r.2))

/-- Reads the words of a quoted scalar up to the closing quote. -/
def quotedWords (double : Bool) : Nat → List Char → Cursor → Option (List Char × Cursor)
  | 0, _, _ => none
  | fuel + 1, text, c =>
      if c.atMarker || c.rest.isEmpty then none
      else do
        let (word, rest) ←
          if double then doubleWord (c.rest.length + 1) c.rest else some (singleWord c.rest)
        let c := c.moveTo rest
        let text := text ++ word
        match c.rest with
        | '\\' :: _ =>
            let (_, c) ← (c.skip 1).break?
            let (g, c) ← readGap 0 (c.rest.length + 1) { broken := true } c
            quotedWords double fuel (text ++ g.text) c
        | ch :: _ =>
            if isSpace ch then
              let (g, c) ← readGap 0 (c.rest.length + 1) {} c
              quotedWords double fuel (text ++ g.text) c
            else some (text, c.skip 1)
        | [] => none

/-- Reads a quoted scalar from its opening quote. -/
def readQuoted (double : Bool) (c : Cursor) : Option (String × Cursor) :=
  (quotedWords double (c.rest.length + 1) [] (c.skip 1)).map
    (fun r => (String.ofList r.1, r.2))

/-! ### Block scalars -/

/-- What becomes of the ends of lines at the end of a block scalar. -/
inductive Chomping where
  | strip
  | clip
  | keep
deriving DecidableEq, Inhabited

def chomping? : Char → Option Chomping
  | '+' => some .keep
  | '-' => some .strip
  | _ => none

/-- An indentation between one and nine. -/
def indentDigit? (c : Char) : Option Nat :=
  if '1' ≤ c && c ≤ '9' then some (c.toNat - '0'.toNat) else none

/-- The header of a block scalar: an indentation and a chomping in any order. -/
def blockHeader? (cs : List Char) : Option (Option Nat × Chomping × List Char) :=
  let isDigit := fun (rest : List Char) => rest.head?.elim false Char.isDigit
  match cs with
  | a :: rest =>
      match chomping? a with
      | some chomping =>
          match rest with
          | b :: rest' =>
              if b.isDigit then (indentDigit? b).map (fun n => (some n, chomping, rest'))
              else some (none, chomping, rest)
          | [] => some (none, chomping, rest)
      | none =>
          if isDigit cs then do
            let n ← indentDigit? a
            match rest with
            | b :: rest' =>
                match chomping? b with
                | some chomping => some (some n, chomping, rest')
                | none => some (some n, .clip, rest)
            | [] => some (some n, .clip, rest)
          else some (none, .clip, cs)
  | [] => some (none, .clip, [])

/-- Reads empty lines and the indentation of the next line.  Where the indentation is not known
yet, zero stands for it, and the largest one that was met is given back. -/
def blockBreaks (indent : Nat) : Nat → Nat → List Char → Cursor →
    Option (Nat × List Char × Cursor)
  | 0, _, _, _ => none
  | fuel + 1, widest, breaks, c =>
      let room := if indent = 0 then c.rest.length else indent - c.column
      let c := c.skip ((c.rest.take room).takeWhile (· = ' ')).length
      let widest := max widest c.column
      if (indent = 0 || c.column < indent) && c.rest.head? = some '\t' then none
      else
        match c.break? with
        | some (b, next) => blockBreaks indent fuel widest (breaks ++ [b]) next
        | none => some (widest, breaks, c)

/-- The text of a block scalar so far: the end of the last line, the empty lines behind it, and
whether the last line began with a blank. -/
structure BlockText where
  text : List Char := []
  lineEnd : List Char := []
  empties : List Char := []
  blank : Bool := false

/-- Adds a line.  In a folded scalar the end of a line counts as a space between lines that do not
begin with a blank. -/
def BlockText.add (folded : Bool) (t : BlockText) (line : List Char) : BlockText :=
  let blank := line.head?.elim false isBlank
  let joined :=
    if folded && t.lineEnd = ['\n'] && !t.blank && !blank then
      (if t.empties.isEmpty then t.text ++ [' '] else t.text)
    else t.text ++ t.lineEnd
  { text := joined ++ t.empties ++ line, blank }

/-- Reads the lines of a block scalar. -/
def blockLines (folded : Bool) (indent : Nat) :
    Nat → BlockText → Cursor → Option (BlockText × Cursor)
  | 0, _, _ => none
  | fuel + 1, t, c =>
      if c.column = indent && !c.rest.isEmpty then do
        let line := c.rest.takeWhile (fun ch => !isBreak ch)
        let c := c.moveTo (c.rest.dropWhile (fun ch => !isBreak ch))
        let t := t.add folded line
        let (lineEnd, c) := match c.break? with
          | some (b, next) => ([b], next)
          | none => ([], c)
        let (_, empties, c) ← blockBreaks indent (c.rest.length + 1) 0 [] c
        blockLines folded indent fuel { t with lineEnd, empties } c
      else some (t, c)

/-- Reads a block scalar that stands inside a block of the given indentation. -/
def readBlock (folded : Bool) (outer : Int) (c : Cursor) : Option (String × Cursor) := do
  let (given, chomping, rest) ← blockHeader? (c.rest.drop 1)
  let c := ((c.moveTo rest).skipWhile isBlank).skipComment
  let c ← match c.break? with
    | some (_, next) => some next
    | none => if c.rest.isEmpty then some c else none
  let start := match given with
    | some n => if 0 ≤ outer then outer.toNat + n else n
    | none => 0
  let (widest, empties, c) ← blockBreaks start (c.rest.length + 1) 0 [] c
  let indent := if start = 0 then max (max widest (outer + 1).toNat) 1 else start
  let (t, c) ← blockLines folded indent (c.rest.length + 1) { empties } c
  let ending := match chomping with
    | .strip => []
    | .clip => t.lineEnd
    | .keep => t.lineEnd ++ t.empties
  return (String.ofList (t.text ++ ending), c)

end ServiceFlow.Yaml
