import ServiceFlow.Text.Digits

/-!
# Words that are not texts

A scalar without quotes may be read as nothing, as a truth value or as a number.
-/

namespace ServiceFlow.Yaml

/-- The word says that there is nothing. -/
def isNull (s : String) : Bool := s ∈ ["~", "null", "Null", "NULL"]

def boolean? (s : String) : Option Bool :=
  if s ∈ ["true", "True", "TRUE"] then some true
  else if s ∈ ["false", "False", "FALSE"] then some false
  else none

/-- More than one digit, with a zero in front: these are no number. -/
def hasLeadingZero (cs : List Char) : Bool :=
  1 < cs.length && cs.head? = some '0' && cs.all Char.isDigit

/-- A number in one of the bases that have a mark. -/
def marked? : List Char → Option Nat
  | '0' :: 'x' :: ds => Text.number? 16 ds
  | '0' :: 'o' :: ds => Text.number? 8 ds
  | '0' :: 'b' :: ds => Text.number? 2 ds
  | _ => none

def unsigned? (cs : List Char) : Option Nat :=
  if hasLeadingZero cs then none else (marked? cs).or (Text.number? 10 cs)

/-- The natural number that a word writes, with or without a plus sign. -/
def natural? (s : String) : Option Nat :=
  match s.toList with
  | '+' :: cs => unsigned? cs
  | cs => unsigned? cs

/-! ### Words that look like numbers -/

/-- A decimal number that is not beyond the doubles. -/
def isDecimal (cs : List Char) : Bool :=
  let (whole, rest) := Text.spanDigits cs
  let (fraction, rest) := match rest with
    | '.' :: rest => Text.spanDigits rest
    | rest => ([], rest)
  if whole.isEmpty && fraction.isEmpty then false
  else
    match Text.readExponent rest with
    | some (exponent, []) =>
        !Text.beyondDouble (Text.digitsValue (whole ++ fraction))
          (exponent.getD 0 - fraction.length)
    | _ => false

/-- A number without its sign, where a number in a marked base does not go beyond the limit. -/
def isMagnitude (limit : Nat) (cs : List Char) : Bool :=
  hasLeadingZero cs || isDecimal cs || (marked? cs).elim false (· < limit)
    || String.ofList cs ∈ [".inf", ".Inf", ".INF"]

/-- Numbers in a marked base have 128 bits. -/
def isNumeric (s : String) : Bool :=
  match s.toList with
  | '+' :: cs => isMagnitude (Nat.pow 2 128) cs
  | '-' :: cs => isMagnitude (Nat.pow 2 127 + 1) cs
  | cs => isMagnitude (Nat.pow 2 128) cs || s ∈ [".nan", ".NaN", ".NAN"]

/-- The word would not be read as a text. -/
def isAmbiguous (s : String) : Bool :=
  s.isEmpty || isNull s || (boolean? s).isSome || isNumeric s

end ServiceFlow.Yaml
