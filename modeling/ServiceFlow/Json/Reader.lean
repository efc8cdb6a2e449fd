import ServiceFlow.Json.Basic
import ServiceFlow.Text.Digits

/-!
# Reading JSON texts

`Json.parse?` reads a whole text strictly: no comments, no trailing commas, no leading zeros, no
control characters in strings, nothing but white space around the value.  Values below
`Json.maxDepth` levels, numbers beyond the doubles and strings with unpaired surrogates are read
as `Json.garbled`.  `Json.parseSound?` admits none of these and lets the last of repeated members
win.
-/

namespace ServiceFlow.Json

/-- The number of levels of arrays and objects that are read. -/
def maxDepth : Nat := 127

def isBlank (c : Char) : Bool := c = ' ' || c = '\n' || c = '\t' || c = '\r'

def skipBlanks (cs : List Char) : List Char := cs.dropWhile isBlank

/-! ### Strings -/

def hexUnit? (a b c d : Char) : Option Nat := Text.number? 16 [a, b, c, d]

def isLeadingSurrogate (n : Nat) : Bool := 0xd800 ≤ n && n < 0xdc00

def isTrailingSurrogate (n : Nat) : Bool := 0xdc00 ≤ n && n < 0xe000

/-- The character behind a backslash that stands for the given one. -/
def simpleEscape? (c : Char) : Option Char :=
  match c with
  | '"' => some '"'
  | '\\' => some '\\'
  | '/' => some '/'
  | 'b' => some '\x08'
  | 'f' => some '\x0c'
  | 'n' => some '\n'
  | 'r' => some '\r'
  | 't' => some '\t'
  | _ => none

/-- Reads up to the closing quotation mark.  The code units read before are in `acc`, the last one
first. -/
def readUnits (acc : List Nat) : List Char → Option (List Nat × List Char)
  | [] => none
  | '"' :: rest => some (acc, rest)
  | '\\' :: 'u' :: a :: b :: c :: d :: rest =>
      match hexUnit? a b c d with
      | some n => readUnits (n :: acc) rest
      | none => none
  | '\\' :: c :: rest =>
      match simpleEscape? c with
      | some e => readUnits (e.toNat :: acc) rest
      | none => none
  | c :: rest => if c.toNat < 0x20 || c = '\\' then none else readUnits (c.toNat :: acc) rest

/-- The character of a leading and a trailing surrogate. -/
def pairedChar (leading trailing : Nat) : Char :=
  Char.ofNat (0x10000 + (leading - 0xd800) * 0x400 + (trailing - 0xdc00))

/-- The characters of code units, the last unit first, in front of `acc`.  A surrogate must have its
partner next to it. -/
def joinUnits (acc : List Char) : List Nat → Option (List Char)
  | [] => some acc
  | [n] =>
      if isLeadingSurrogate n || isTrailingSurrogate n then none else some (Char.ofNat n :: acc)
  | n :: m :: rest =>
      if isTrailingSurrogate n then
        if isLeadingSurrogate m then joinUnits (pairedChar m n :: acc) rest else none
      else if isLeadingSurrogate n then none
      else joinUnits (Char.ofNat n :: acc) (m :: rest)

/-- Reads a string behind its opening quotation mark.  With an unpaired surrogate it denotes
nothing. -/
def readString (cs : List Char) : Option (Option String × List Char) :=
  (readUnits [] cs).map (fun r => ((joinUnits [] r.1).map String.ofList, r.2))

/-! ### Numbers -/

/-- The fraction of a number, if one is there; a point without digits is an error. -/
def readFraction : List Char → Option (Option (List Char) × List Char)
  | '.' :: rest =>
      let (ds, rest) := Text.spanDigits rest
      if ds.isEmpty then none else some (some ds, rest)
  | cs => some (none, cs)

/-- The largest power of ten among the doubles. -/
def largestPower : Nat := 308

/-- The number is too large.  It is taken as a product of two doubles: the number that its first
digits make up, as long as it has 64 bits, and a power of ten. -/
def isTooLarge (whole fraction : List Char) (exponent : Int) : Bool :=
  let (n, more) := Text.appendDigits UInt64.size 0 whole
  let (n, unread) := Text.appendDigits UInt64.size n fraction
  let power : Int := more.length + unread.length - fraction.length + exponent
  n ≠ 0 && 0 ≤ power &&
    (largestPower < power ||
      Text.doubleLimit ≤ Text.roundToDouble n * Text.roundToDouble (Nat.pow 10 power.toNat))

/-- A number from its parts. -/
def number (negative : Bool) (whole : List Char) (fraction : Option (List Char))
    (exponent : Option Int) : Json :=
  let mantissa := Text.digitsValue (whole ++ fraction.getD [])
  let power : Int := exponent.getD 0 - (fraction.getD []).length
  let signed : Int := if negative then -(mantissa : Int) else mantissa
  if fraction.isNone && exponent.isNone && !(negative && mantissa = 0)
      && Int64.minValue.toInt ≤ signed && signed < UInt64.size then .int signed
  else if isTooLarge whole (fraction.getD []) (exponent.getD 0) then .garbled
  else .decimal signed power

def readUnsigned (negative : Bool) (cs : List Char) : Option (Json × List Char) :=
  let (whole, rest) := Text.spanDigits cs
  if whole.isEmpty || (whole.head? = some '0' && 1 < whole.length) then none
  else do
    let (fraction, rest) ← readFraction rest
    let (exponent, rest) ← Text.readExponent rest
    return (number negative whole fraction exponent, rest)

def readNumber : List Char → Option (Json × List Char)
  | '-' :: rest => readUnsigned true rest
  | cs => readUnsigned false cs

/-! ### Values -/

/-- An array or object, if one more level is left for it. -/
def nested (levels : Nat) (j : Json) : Json := if levels = 0 then .garbled else j

mutual

/-- Reads a value with white space in front, arrays and objects on `levels` levels. -/
def readValue : Nat → Nat → List Char → Option (Json × List Char)
  | 0, _, _ => none
  | fuel + 1, levels, cs =>
      match skipBlanks cs with
      | '"' :: rest =>
          (readString rest).map (fun r => (r.1.elim .garbled .str, r.2))
      | '[' :: rest =>
          match skipBlanks rest with
          | ']' :: rest => some (nested levels (.arr []), rest)
          | rest =>
              (readItems fuel (levels - 1) [] rest).map (fun r => (nested levels (.arr r.1), r.2))
      | '\x7b' :: rest =>
          match skipBlanks rest with
          | '\x7d' :: rest => some (nested levels (.obj []), rest)
          | rest =>
              (readMembers fuel (levels - 1) (some []) rest).map
                (fun r => (nested levels (r.1.elim .garbled .obj), r.2))
      | 't' :: 'r' :: 'u' :: 'e' :: rest => some (.bool true, rest)
      | 'f' :: 'a' :: 'l' :: 's' :: 'e' :: rest => some (.bool false, rest)
      | 'n' :: 'u' :: 'l' :: 'l' :: rest => some (.null, rest)
      | rest => readNumber rest

/-- Reads the items up to the closing bracket behind those read before, in reverse. -/
def readItems : Nat → Nat → List Json → List Char → Option (List Json × List Char)
  | 0, _, _, _ => none
  | fuel + 1, levels, acc, cs =>
      match readValue fuel levels cs with
      | none => none
      | some (j, rest) =>
          match skipBlanks rest with
          | ',' :: rest => readItems fuel levels (j :: acc) rest
          | ']' :: rest => some ((j :: acc).reverse, rest)
          | _ => none

/-- Reads the members up to the closing brace behind those read before, in reverse.  With a key
that denotes no string there is no object. -/
def readMembers : Nat → Nat → Option (List (String × Json)) → List Char →
    Option (Option (List (String × Json)) × List Char)
  | 0, _, _, _ => none
  | fuel + 1, levels, acc, cs =>
      match skipBlanks cs with
      | '"' :: rest =>
          match readString rest with
          | none => none
          | some (key, rest) =>
              match skipBlanks rest with
              | ':' :: rest =>
                  match readValue fuel levels rest with
                  | none => none
                  | some (j, rest) =>
                      let acc := acc.bind (fun members => key.map (fun k => (k, j) :: members))
                      match skipBlanks rest with
                      | ',' :: rest => readMembers fuel levels acc rest
                      | '\x7d' :: rest => some (acc.map List.reverse, rest)
                      | _ => none
              | _ => none
      | _ => none

end

/-- The value of a text.  A step of the reader that does not consume a character is followed by one
that does. -/
def parse? (s : String) : Option Json :=
  let cs := s.toList
  match readValue (2 * cs.length + 2) maxDepth cs with
  | some (j, rest) => if (skipBlanks rest).isEmpty then some j else none
  | none => none

/-- The value of a text all of which denotes something, with the last of repeated members. -/
def parseSound? (s : String) : Option Json :=
  (parse? s).bind (fun j => if j.isSound then some j.lastMembers else none)

end ServiceFlow.Json
