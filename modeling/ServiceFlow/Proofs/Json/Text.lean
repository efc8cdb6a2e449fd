import Mathlib.Tactic.IntervalCases
import ServiceFlow.Json.Writer
import ServiceFlow.Proofs.Json.Reader
import ServiceFlow.Proofs.Text.Digits

/-!
# Reading back what is written

`Json.compress` writes a text of the value, as long as the numbers of the value are integers of 64
bits.  So the text is read as this value, if its arrays and objects are nested on no more levels
than are read.
-/

namespace ServiceFlow.Json

/-- A value whose text holds all of it: its numbers are integers of 64 bits, and every part of it
denotes something. -/
inductive Exact : Json → Prop
  | null : Exact .null
  | bool (b : Bool) : Exact (.bool b)
  | int {i : Int} (hmin : Int64.minValue.toInt ≤ i) (hmax : i < UInt64.size) : Exact (.int i)
  | str (s : String) : Exact (.str s)
  | arr {items : List Json} (h : ∀ j ∈ items, Exact j) : Exact (.arr items)
  | obj {members : List (String × Json)} (h : ∀ m ∈ members, Exact m.2) : Exact (.obj members)

/-! ### Strings -/

/-- Four digits stand for a control character. -/
theorem units_hexText {n : Nat} (hn : n < 0x20) {cs : List Char} {ns : List Nat}
    (h : Units cs ns) :
  Units ('\\' :: 'u' :: hexText n ++ cs) (n :: ns)
  := by
  interval_cases n <;> exact .hex rfl h

/-- A character is written as itself or as its escape. -/
theorem units_escapeChar (c : Char) {cs : List Char} {ns : List Nat} (h : Units cs ns) :
  Units (escapeChar c ++ cs) (c.toNat :: ns)
  := by
  unfold escapeChar
  split_ifs with hquote hslash hline hreturn htab hback hfeed hcontrol
  · subst hquote
    exact .escape rfl h
  · subst hslash
    exact .escape rfl h
  · subst hline
    exact .escape rfl h
  · subst hreturn
    exact .escape rfl h
  · subst htab
    exact .escape rfl h
  · subst hback
    exact .escape rfl h
  · subst hfeed
    exact .escape rfl h
  · apply units_hexText hcontrol h
  · exact .plain (Nat.le_of_not_lt hcontrol) hquote hslash h

theorem units_flatMap_escapeChar (cs : List Char) :
  Units (cs.flatMap escapeChar) (cs.map Char.toNat)
  := by
  induction cs with
  | nil => exact .nil
  | cons c cs ih =>
      rw [List.flatMap_cons]
      apply units_escapeChar c ih

/-- No character is half of a pair of surrogates. -/
theorem not_surrogate (c : Char) :
  isLeadingSurrogate c.toNat = false ∧ isTrailingSurrogate c.toNat = false
  := by
  have hvalid : c.toNat < 0xd800 ∨ 0xdfff < c.toNat ∧ c.toNat < 0x110000 := c.valid
  simp only [isLeadingSurrogate, isTrailingSurrogate, Bool.and_eq_false_iff,
    decide_eq_false_iff_not]
  omega

/-- Code points of characters are joined to these characters. -/
theorem joinUnits_map_toNat (acc cs : List Char) :
  joinUnits acc (cs.map Char.toNat) = some (cs.reverse ++ acc)
  := by
  induction cs generalizing acc with
  | nil => rfl
  | cons c cs ih =>
      obtain ⟨hleading, htrailing⟩ := not_surrogate c
      have hjoin : joinUnits acc (c.toNat :: cs.map Char.toNat) =
          joinUnits (c :: acc) (cs.map Char.toNat) := by
        cases cs with
        | nil => simp [joinUnits, hleading, htrailing]
        | cons d cs => simp [joinUnits, hleading, htrailing]
      rw [List.map_cons, hjoin, ih]
      simp

theorem stringOf?_map_toNat (s : String) :
  stringOf? (s.toList.map Char.toNat) = some s
  := by
  rw [stringOf?, ← List.map_reverse, joinUnits_map_toNat, List.reverse_reverse, List.append_nil,
    Option.map_some, String.ofList_toList]

theorem quoted_stringText (s : String) :
  Quoted (stringText s).toList (some s)
  := by
  have h := Quoted.intro blank_nil (units_flatMap_escapeChar s.toList) blank_nil
  rw [stringOf?_map_toNat] at h
  simpa [stringText] using h

/-! ### Numbers -/

/-- The decimal digits of a number make up that number. -/
theorem digitsValue_toDigits (n : Nat) :
  Text.digitsValue (Nat.toDigits 10 n) = n
  := by
  have h := Nat.ofDigitChars_ten_toDigits (n := n)
  rw [Nat.ofDigitChars_eq_foldl] at h
  simpa only [Text.digitsValue, Nat.mul_comm] using h

/-- The digits of a number write it, unless they are too many or write a negative zero. -/
theorem number_toDigits {negative : Bool} {n : Nat} {i : Int}
    (hi : (if negative then -(n : Int) else n) = i) (hzero : negative → n ≠ 0)
    (hmin : Int64.minValue.toInt ≤ i) (hmax : i < UInt64.size) :
  number negative (Nat.toDigits 10 n) none none = .int i
  := by
  have hsigned : (negative && decide (n = 0)) = false := by simpa using hzero
  simp only [number, Option.getD_none, List.append_nil, digitsValue_toDigits, hi]
  rw [if_pos]
  simp only [Option.isNone_none, hsigned, Bool.not_false, Bool.and_true, Bool.true_and,
    Bool.and_eq_true, decide_eq_true_eq]
  exact ⟨hmin, hmax⟩

/-- A sign and the digits of a number are a numeral. -/
theorem numeral_toDigits (negative : Bool) (n : Nat) :
  Numeral (signText negative ++ Nat.toDigits 10 n) (number negative (Nat.toDigits 10 n) none none)
  := by
  have hdigits : Digits (Nat.toDigits 10 n) := by
    constructor
    · intro d hd
      apply Nat.isDigit_of_mem_toDigits (by decide) (by decide) hd
    · apply Nat.toDigits_ne_nil
  have hzero : (Nat.toDigits 10 n).head? = some '0' → (Nat.toDigits 10 n).length ≤ 1 := by
    intro hhead
    rcases Nat.eq_zero_or_pos n with rfl | hn
    · decide
    · cases Text.head?_toDigits_ne hn hhead
  have h : Numeral (signText negative ++ (Nat.toDigits 10 n ++ ([] ++ []))) _ :=
    .intro hdigits hzero .absent .absent
  rwa [List.append_nil, List.append_nil] at h

/-- The digits of an integer spell it. -/
theorem numeral_toString {i : Int} (hmin : Int64.minValue.toInt ≤ i) (hmax : i < UInt64.size) :
  Numeral (toString i).toList (.int i)
  := by
  cases i with
  | ofNat n =>
      have htext : (toString (Int.ofNat n)).toList = signText false ++ Nat.toDigits 10 n := by
        simp [Int.toString_eq_repr, Int.repr, Nat.repr_eq_ofList_toDigits, signText]
      have hnumber : number false (Nat.toDigits 10 n) none none = .int (Int.ofNat n) :=
        number_toDigits (by simp) (by simp) hmin hmax
      rw [htext, ← hnumber]
      apply numeral_toDigits
  | negSucc n =>
      have htext : (toString (Int.negSucc n)).toList =
          signText true ++ Nat.toDigits 10 (n + 1) := by
        simp [Int.toString_eq_repr, Int.repr, Nat.repr_eq_ofList_toDigits, signText]
      have hnumber : number true (Nat.toDigits 10 (n + 1)) none none = .int (Int.negSucc n) :=
        number_toDigits (by simp [Int.negSucc_eq]) (by simp) hmin hmax
      rw [htext, ← hnumber]
      apply numeral_toDigits

/-! ### Values -/

theorem compressItems_eq_map (items : List Json) :
  compressItems items = items.map compress
  := by
  induction items with
  | nil => rfl
  | cons j items ih => rw [compressItems, ih, List.map_cons]

theorem compressMembers_eq_map (members : List (String × Json)) :
  compressMembers members = members.map (fun m => stringText m.1 ++ ":" ++ m.2.compress)
  := by
  induction members with
  | nil => rfl
  | cons m members ih => rw [compressMembers, ih, List.map_cons]

/-- An item and the text that is written for it. -/
def itemText (j : Json) : List Char × Json := (j.compress.toList, j)

/-- A member and the texts that are written for it. -/
def memberText (m : String × Json) : MemberText :=
  ⟨(stringText m.1).toList, some m.1, m.2.compress.toList, m.2⟩

theorem objectOf_map_memberText (members : List (String × Json)) :
  objectOf (members.map memberText) = .obj members
  := by
  have hmembers : (members.map memberText).mapM MemberText.member? = some members := by
    induction members with
    | nil => rfl
    | cons m members ih =>
        rw [List.map_cons, List.mapM_cons, ih]
        rfl
  rw [objectOf, hmembers]
  rfl

theorem toList_compress_arr (items : List Json) :
  (compress (.arr items)).toList =
    '[' :: ([','].intercalate ((items.map itemText).map Prod.fst) ++ [']'])
  := by
  simp [compress, compressItems_eq_map, itemText, Function.comp_def]

theorem toList_compress_obj (members : List (String × Json)) :
  (compress (.obj members)).toList =
    '\x7b' :: ([','].intercalate ((members.map memberText).map MemberText.whole) ++ ['\x7d'])
  := by
  simp [compress, compressMembers_eq_map, memberText, MemberText.whole, Function.comp_def]

/-- What is written for a value spells it. -/
theorem Exact.spells {j : Json} (h : j.Exact) :
  Spells j.compress.toList j
  := by
  induction h with
  | null => exact .null
  | bool b =>
      cases b with
      | false => exact .boolFalse
      | true => exact .boolTrue
  | int hmin hmax => exact .number (numeral_toString hmin hmax)
  | str s => exact .string (quoted_stringText s)
  | @arr items h ih =>
      rw [toList_compress_arr]
      cases items with
      | nil => exact .emptyArr blank_nil
      | cons j items =>
          have hitems : ∀ y ∈ itemText j :: items.map itemText, Spells y.1 y.2 := by
            rw [← List.map_cons, List.forall_mem_map]
            apply ih
          have hspells := Spells.arr hitems
          rw [← List.map_cons] at hspells
          simpa [itemText, Function.comp_def] using hspells
  | @obj members h ih =>
      rw [toList_compress_obj]
      cases members with
      | nil => exact .emptyObj blank_nil
      | cons m members =>
          have hkeys : ∀ n ∈ memberText m :: members.map memberText, Quoted n.key n.name := by
            rw [← List.map_cons, List.forall_mem_map]
            intro n _
            apply quoted_stringText
          have hvalues : ∀ n ∈ memberText m :: members.map memberText,
              Spells n.text n.value := by
            rw [← List.map_cons, List.forall_mem_map]
            apply ih
          have hspells := Spells.obj hkeys hvalues
          rwa [← List.map_cons, objectOf_map_memberText] at hspells

/-- What is written for a value is read as this value. -/
theorem parse?_compress {j : Json} (hj : j.Exact) (hdepth : j.depth ≤ maxDepth) :
  parse? j.compress = some j
  := parse?_eq_some_iff.2 ⟨j, hj.spells, (within_of_depth_le j hdepth).symm⟩

end ServiceFlow.Json
