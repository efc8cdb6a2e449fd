/-!
# Decimal texts of binary floating-point numbers

A binary floating-point number is given by its bits.  The finite ones are `mantissa * 2 ^ exponent`
with a sign, and each stands for the interval of reals that round to it.  `shortest` finds the
coarsest power of ten of which some multiple lies in that interval, and the multiple nearest to
the number; `text` writes it without an exponent.  All arithmetic is on natural numbers.
-/

namespace ServiceFlow.Text

/-- The widths of a binary interchange format. -/
structure FloatFormat where
  fractionBits : Nat
  exponentBits : Nat

/-- Thirty-two bits, twenty-three of them for the fraction. -/
def FloatFormat.single : FloatFormat := ⟨23, 8⟩

/-- Sixty-four bits, fifty-two of them for the fraction. -/
def FloatFormat.double : FloatFormat := ⟨52, 11⟩

/-- The magnitude of a finite nonzero number, `mantissa * 2 ^ up / 2 ^ down`, one of `up` and
`down` being zero.  `narrowBelow` holds when the next smaller number is only half as far away
as the next larger one. -/
structure Magnitude where
  mantissa : Nat
  up : Nat
  down : Nat
  narrowBelow : Bool

/-- What the bits of a number say. -/
inductive FloatClass where
  | zero
  | finite (m : Magnitude)
  | infinite
  | notANumber

namespace FloatFormat

/-- The largest biased exponent, that of the infinities and of what is not a number. -/
def topExponent (f : FloatFormat) : Nat := Nat.pow 2 f.exponentBits - 1

/-- The distance of the biased exponent from the power of two of the last fraction bit. -/
def bias (f : FloatFormat) : Nat := Nat.pow 2 (f.exponentBits - 1) - 1 + f.fractionBits

/-- The sign bit. -/
def isNegative (f : FloatFormat) (bits : Nat) : Bool :=
  bits / Nat.pow 2 (f.fractionBits + f.exponentBits) % 2 == 1

/-- The class of a number, its sign aside. -/
def classify (f : FloatFormat) (bits : Nat) : FloatClass :=
  let fraction := bits % Nat.pow 2 f.fractionBits
  let biased := bits / Nat.pow 2 f.fractionBits % Nat.pow 2 f.exponentBits
  if biased = f.topExponent then
    if fraction = 0 then .infinite else .notANumber
  else if biased = 0 then
    if fraction = 0 then .zero else .finite ⟨fraction, 1 - f.bias, f.bias - 1, false⟩
  else
    .finite ⟨Nat.pow 2 f.fractionBits + fraction, biased - f.bias, f.bias - biased,
      fraction = 0 && 1 < biased⟩

end FloatFormat

/-- A decimal number: digits with zeros behind them, or with a point among or before them. -/
structure Decimal where
  digits : Nat
  /-- Zeros that follow the digits. -/
  zeros : Nat
  /-- Digits, with zeros in front where needed, that stand behind the point. -/
  places : Nat

namespace Magnitude

/-- Four times the magnitude.  This and the ends of the interval are over four times
`2 ^ down`. -/
def quadruple (m : Magnitude) : Nat := 4 * m.mantissa * Nat.pow 2 m.up

/-- The upper end of the interval. -/
def upperEnd (m : Magnitude) : Nat := (4 * m.mantissa + 2) * Nat.pow 2 m.up

/-- The lower end of the interval. -/
def lowerEnd (m : Magnitude) : Nat :=
  (4 * m.mantissa - if m.narrowBelow then 1 else 2) * Nat.pow 2 m.up

/-- A fraction rounds to the number: it lies between the ends, which belong to the interval when
the mantissa is even.  The fraction is `num / den` over four times `2 ^ down`. -/
def contains (m : Magnitude) (num den : Nat) : Bool :=
  if m.mantissa % 2 = 0 then m.lowerEnd * den ≤ num && num ≤ m.upperEnd * den
  else m.lowerEnd * den < num && num < m.upperEnd * den

/-- The multiple of `unit / den` nearest to the number among its two neighbours, if one rounds to
it.  Of two neighbours at the same distance it is the upper one. -/
def nearest? (m : Magnitude) (unit den : Nat) : Option Nat :=
  let scaled := m.quadruple * den
  let step := 4 * Nat.pow 2 m.down * unit
  let below := scaled / step
  let above := below + 1
  let fits n := 0 < n && m.contains (n * step) den
  if fits below then
    if fits above && above * step - scaled ≤ scaled - below * step then some above
    else some below
  else if fits above then some above
  else none

/-- The multiple of the first power of ten that has one which rounds to the number, among the
powers with at least so many places behind the point. -/
def searchPlaces (m : Magnitude) : Nat → Nat → Decimal
  | 0, places => ⟨0, 0, places⟩
  | fuel + 1, places =>
      match m.nearest? 1 (Nat.pow 10 places) with
      | some n => ⟨n, 0, places⟩
      | none => searchPlaces m fuel (places + 1)

/-- The multiple of the first power of ten that has one which rounds to the number, among the
powers with at most so many zeros and those with places behind the point. -/
def searchZeros (m : Magnitude) (fuel : Nat) : Nat → Decimal
  | 0 => searchPlaces m fuel 0
  | zeros + 1 =>
      match m.nearest? (Nat.pow 10 (zeros + 1)) 1 with
      | some n => ⟨n, zeros + 1, 0⟩
      | none => searchZeros m fuel zeros

/-- The shortest decimal that rounds to the number, and the nearest of those.  A number with
`d` binary digits behind the point is itself a decimal with `d` places, so the search ends. -/
def shortest (m : Magnitude) : Decimal :=
  let whole := m.mantissa * Nat.pow 2 m.up / Nat.pow 2 m.down
  searchZeros m (m.down + 1) (Nat.toDigits 10 whole).length

end Magnitude

/-- A decimal without exponent: zeros behind the digits, or a point among or before them. -/
def Decimal.text (d : Decimal) : List Char :=
  let digits := Nat.toDigits 10 d.digits
  if d.places = 0 then digits ++ List.replicate d.zeros '0'
  else
    let padded := List.replicate (d.places + 1 - digits.length) '0' ++ digits
    padded.take (padded.length - d.places) ++ '.' :: padded.drop (padded.length - d.places)

/-- The text of a number: its shortest decimal behind its sign. -/
def FloatFormat.text (f : FloatFormat) (bits : Nat) : String :=
  let sign := if f.isNegative bits then "-" else ""
  match f.classify bits with
  | .zero => sign ++ "0"
  | .finite m => sign ++ String.ofList m.shortest.text
  | .infinite => sign ++ "inf"
  | .notANumber => "NaN"

end ServiceFlow.Text
