/-!
# Numbers in digits

Whole numbers in a base of at most sixteen, and the parts of decimal numbers.
-/

namespace ServiceFlow.Text

/-- The value of a digit; letters of either case stand for ten and more. -/
def digit? (base : Nat) (c : Char) : Option Nat :=
  let value :=
    if '0' ≤ c ∧ c ≤ '9' then some (c.toNat - '0'.toNat)
    else if 'a' ≤ c ∧ c ≤ 'f' then some (c.toNat - 'a'.toNat + 10)
    else if 'A' ≤ c ∧ c ≤ 'F' then some (c.toNat - 'A'.toNat + 10)
    else none
  value.filter (· < base)

/-- The number that at least one digit writes. -/
def number? (base : Nat) (cs : List Char) : Option Nat :=
  if cs.isEmpty then none
  else (cs.mapM (digit? base)).map (List.foldl (fun n d => n * base + d) 0)

/-! ### Decimal numbers -/

/-- The number that decimal digits write. -/
def digitsValue (ds : List Char) : Nat :=
  ds.foldl (fun n d => n * 10 + (d.toNat - '0'.toNat)) 0

/-- The decimal digits at the front and what follows them. -/
def spanDigits (cs : List Char) : List Char × List Char :=
  (cs.takeWhile Char.isDigit, cs.dropWhile Char.isDigit)

def readExponentDigits (negative : Bool) (cs : List Char) : Option (Option Int × List Char) :=
  let (ds, rest) := spanDigits cs
  if ds.isEmpty then none
  else some (some (if negative then -(digitsValue ds : Int) else digitsValue ds), rest)

/-- The exponent of a number, if one is there. -/
def readExponent : List Char → Option (Option Int × List Char)
  | 'e' :: '-' :: rest => readExponentDigits true rest
  | 'e' :: '+' :: rest => readExponentDigits false rest
  | 'e' :: rest => readExponentDigits false rest
  | 'E' :: '-' :: rest => readExponentDigits true rest
  | 'E' :: '+' :: rest => readExponentDigits false rest
  | 'E' :: rest => readExponentDigits false rest
  | cs => some (none, cs)

/-- Appends decimal digits to a number as long as it stays below the bound.  The other digits are
given back. -/
def appendDigits (bound : Nat) : Nat → List Char → Nat × List Char
  | n, [] => (n, [])
  | n, d :: ds =>
      let longer := n * 10 + (d.toNat - '0'.toNat)
      if longer < bound then appendDigits bound longer ds else (n, d :: ds)

/-! ### Doubles -/

/-- The binary digits of a double. -/
def doubleBits : Nat := 53

/-- The nearest number with no more binary digits than a double, of two the one with the even last
digit. -/
def roundToDouble (n : Nat) : Nat :=
  let unit := Nat.pow 2 (n.log2 + 1 - doubleBits)
  let below := n / unit
  let rest := 2 * (n % unit)
  (if unit < rest || (unit = rest && below % 2 = 1) then below + 1 else below) * unit

/-- The least real number that rounds to no finite double. -/
def doubleLimit : Nat := Nat.pow 2 1024 - Nat.pow 2 970

/-- `mantissa * 10 ^ exponent` is beyond the doubles.  The count of digits decides but for the
largest power of ten that fits. -/
def beyondDouble (mantissa : Nat) (exponent : Int) : Bool :=
  let magnitude : Int := (Nat.toDigits 10 mantissa).length + exponent
  if mantissa = 0 || magnitude < 309 then false
  else if 309 < magnitude then true
  else doubleLimit * Nat.pow 10 (-exponent).toNat ≤ mantissa * Nat.pow 10 exponent.toNat

end ServiceFlow.Text
