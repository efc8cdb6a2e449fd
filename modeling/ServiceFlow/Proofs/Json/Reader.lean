import Mathlib.Data.List.Basic
import Mathlib.Data.List.TakeWhile
import ServiceFlow.Proofs.Json.Grammar

/-!
# Reading follows the grammar

`Json.parse?` reads exactly the texts of the grammar, and reads each of them as the value it spells,
on the levels that are read.  So no text spells two values.

In one direction the reader goes along the text of a value and stops at its end, as long as what
follows does not go on with a number; white space behind the value may be left over.  Each of its
steps consumes a character or is followed by one that does, so twice the length of the text is
enough fuel.  In the other direction an induction on the fuel shows that whatever was consumed
spells what was read.
-/

namespace ServiceFlow.Json

/-! ### White space -/

theorem skipBlanks_append {before : List Char} (h : Blank before) (cs : List Char) :
  skipBlanks (before ++ cs) = skipBlanks cs
  := List.dropWhile_append_of_pos h

theorem skipBlanks_cons {c : Char} (hc : isBlank c = false) (cs : List Char) :
  skipBlanks (c :: cs) = c :: cs
  := by
  rw [skipBlanks, List.dropWhile_cons_of_neg (by simp [hc])]

theorem skipBlanks_skipBlanks (cs : List Char) :
  skipBlanks (skipBlanks cs) = skipBlanks cs
  := by
  induction cs with
  | nil => rfl
  | cons c cs ih =>
      by_cases hc : isBlank c
      · have hskip : skipBlanks (c :: cs) = skipBlanks cs := List.dropWhile_cons_of_pos hc
        rw [hskip, ih]
      · rw [skipBlanks_cons (by simpa using hc), skipBlanks_cons (by simpa using hc)]

/-- What is skipped is white space. -/
theorem exists_blank (cs : List Char) :
  ∃ before, Blank before ∧ cs = before ++ skipBlanks cs
  := by
  use cs.takeWhile isBlank
  constructor
  · intro c hc
    apply List.mem_takeWhile_imp hc
  · rw [skipBlanks, List.takeWhile_append_dropWhile]

/-! ### Strings -/

/-- Code units are read in reverse, up to the closing quotation mark. -/
theorem Units.readUnits {cs : List Char} {ns : List Nat} (h : Units cs ns) (acc : List Nat)
    (rest : List Char) :
  readUnits acc (cs ++ '"' :: rest) = some (ns.reverse ++ acc, rest)
  := by
  induction h generalizing acc with
  | nil => rfl
  | @plain c cs ns hcontrol hquote hslash h ih =>
      have hplain : ¬(c.toNat < 0x20 || c = '\\') := by simp [hslash, hcontrol]
      rw [List.cons_append, readUnits.eq_def]
      split <;> simp_all
  | @escape c e cs ns hc h ih =>
      rw [List.cons_append, List.cons_append]
      unfold simpleEscape? at hc
      split at hc <;> cases hc <;> simp [Json.readUnits, simpleEscape?, ih]
  | hex hn h ih => simp [Json.readUnits, hn, ih]

theorem exists_units {acc ns' : List Nat} {cs rest : List Char}
    (h : readUnits acc cs = some (ns', rest)) :
  ∃ cs' ns, cs = cs' ++ '"' :: rest ∧ Units cs' ns ∧ ns' = ns.reverse ++ acc
  := by
  fun_induction readUnits acc cs with
  | case1 => cases h
  | case2 acc rest' =>
      cases h
      exact ⟨[], [], rfl, .nil, rfl⟩
  | case3 acc a b c d rest' n hn ih =>
      obtain ⟨cs', ns, rfl, hunits, rfl⟩ := ih h
      exact ⟨_, n :: ns, rfl, .hex hn hunits, by simp⟩
  | case4 => cases h
  | case5 acc c rest' _ e he ih =>
      obtain ⟨cs', ns, rfl, hunits, rfl⟩ := ih h
      exact ⟨_, e.toNat :: ns, rfl, .escape he hunits, by simp⟩
  | case6 => cases h
  | case7 => cases h
  | case8 acc c rest' hquote _ _ hc ih =>
      obtain ⟨cs', ns, rfl, hunits, rfl⟩ := ih h
      simp at hc
      exact ⟨_, c.toNat :: ns, rfl, .plain hc.1 hquote hc.2 hunits, by simp⟩

theorem Quoted.readString {cs : List Char} {s : Option String} (h : Quoted cs s)
    (rest : List Char) :
  ∃ body after, skipBlanks (cs ++ rest) = '"' :: body ∧ Blank after ∧
    readString body = some (s, after ++ rest)
  := by
  cases h with
  | @intro before cs after ns hbefore h hafter =>
      use cs ++ '"' :: (after ++ rest), after
      rw [List.append_assoc, skipBlanks_append hbefore, List.cons_append, skipBlanks_cons rfl,
        List.append_assoc, List.cons_append, Json.readString, h.readUnits, List.append_nil]
      exact ⟨rfl, hafter, rfl⟩

theorem Quoted.length_pos {cs : List Char} {s : Option String} (h : Quoted cs s) :
  0 < cs.length
  := by
  cases h
  rw [List.length_append, List.length_cons]
  omega

theorem exists_quoted {cs rest : List Char} {s : Option String}
    (h : readString cs = some (s, rest)) :
  ∃ cs' ns, cs = cs' ++ '"' :: rest ∧ Units cs' ns ∧ s = stringOf? ns
  := by
  obtain ⟨⟨ns', rest'⟩, hunits, heq⟩ := Option.map_eq_some_iff.1 h
  cases heq
  obtain ⟨cs', ns, rfl, hns, rfl⟩ := exists_units hunits
  exact ⟨cs', ns, rfl, hns, by rw [List.append_nil]; rfl⟩

/-! ### Numbers -/

/-- Nothing that goes on with a number stands at the front. -/
def Stops (rest : List Char) : Prop :=
  ∀ c ∈ rest.head?, ¬c.isDigit ∧ c ≠ '.' ∧ c ≠ 'e' ∧ c ≠ 'E'

theorem Digits.exists_cons {ds : List Char} (h : Digits ds) :
  ∃ d rest, ds = d :: rest ∧ d.isDigit
  := by
  obtain ⟨d, rest, rfl⟩ := List.exists_cons_of_ne_nil h.ne_nil
  exact ⟨d, rest, rfl, h.isDigit d List.mem_cons_self⟩

theorem digits_takeWhile {cs : List Char} (h : cs.takeWhile Char.isDigit ≠ []) :
  Digits (cs.takeWhile Char.isDigit)
  := ⟨fun _ hd => List.mem_takeWhile_imp hd, h⟩

theorem Digits.spanDigits {ds rest : List Char} (h : Digits ds)
    (hrest : ∀ c ∈ rest.head?, ¬c.isDigit) :
  Text.spanDigits (ds ++ rest) = (ds, rest)
  := by
  rw [Text.spanDigits, List.takeWhile_append_of_pos h.isDigit,
    List.dropWhile_append_of_pos h.isDigit]
  cases rest with
  | nil => simp
  | cons c rest =>
      have hc : ¬c.isDigit := hrest c rfl
      simp [hc]

theorem Digits.readExponentDigits {ds rest : List Char} (h : Digits ds)
    (hrest : ∀ c ∈ rest.head?, ¬c.isDigit) (negative : Bool) :
  Text.readExponentDigits negative (ds ++ rest) =
    some (some (if negative then -(Text.digitsValue ds : Int) else Text.digitsValue ds), rest)
  := by
  simp [Text.readExponentDigits, h.spanDigits hrest, h.ne_nil]

theorem exists_digits {negative : Bool} {cs rest : List Char} {exponent : Option Int}
    (h : Text.readExponentDigits negative cs = some (exponent, rest)) :
  ∃ ds, cs = ds ++ rest ∧ Digits ds ∧
    exponent = some (if negative then -(Text.digitsValue ds : Int) else Text.digitsValue ds)
  := by
  obtain ⟨hne, h⟩ := Option.ite_none_left_eq_some.1 h
  cases h
  use cs.takeWhile Char.isDigit
  rw [List.takeWhile_append_dropWhile]
  exact ⟨rfl, digits_takeWhile (by simpa using hne), rfl⟩

theorem Exponent.readExponent {es rest : List Char} {exponent : Option Int}
    (h : Exponent es exponent) (hrest : Stops rest) :
  Text.readExponent (es ++ rest) = some (exponent, rest)
  := by
  have hdigit : ∀ c ∈ rest.head?, ¬c.isDigit := fun c hc => (hrest c hc).1
  cases h with
  | absent =>
      cases rest with
      | nil => rfl
      | cons c rest =>
          obtain ⟨-, -, he, hE⟩ := hrest c rfl
          rw [List.nil_append, Text.readExponent.eq_def]
          split <;> simp_all
  | @unsigned mark ds hmark hds =>
      have hread := hds.readExponentDigits hdigit false
      obtain ⟨d, ds, rfl, hd⟩ := hds.exists_cons
      have hminus : d ≠ '-' := by
        rintro rfl
        cases hd
      have hplus : d ≠ '+' := by
        rintro rfl
        cases hd
      rcases hmark with rfl | rfl <;>
      · rw [List.cons_append, List.cons_append, Text.readExponent.eq_def]
        split <;> simp_all
  | plus hmark hds =>
      rcases hmark with rfl | rfl
      · apply hds.readExponentDigits hdigit false
      · apply hds.readExponentDigits hdigit false
  | minus hmark hds =>
      rcases hmark with rfl | rfl
      · apply hds.readExponentDigits hdigit true
      · apply hds.readExponentDigits hdigit true

theorem exists_exponent {cs rest : List Char} {exponent : Option Int}
    (h : Text.readExponent cs = some (exponent, rest)) :
  ∃ es, cs = es ++ rest ∧ Exponent es exponent
  := by
  unfold Text.readExponent at h
  split at h
  · obtain ⟨ds, rfl, hds, rfl⟩ := exists_digits h
    exact ⟨_, rfl, .minus (.inl rfl) hds⟩
  · obtain ⟨ds, rfl, hds, rfl⟩ := exists_digits h
    exact ⟨_, rfl, .plus (.inl rfl) hds⟩
  · obtain ⟨ds, rfl, hds, rfl⟩ := exists_digits h
    exact ⟨_, rfl, .unsigned (.inl rfl) hds⟩
  · obtain ⟨ds, rfl, hds, rfl⟩ := exists_digits h
    exact ⟨_, rfl, .minus (.inr rfl) hds⟩
  · obtain ⟨ds, rfl, hds, rfl⟩ := exists_digits h
    exact ⟨_, rfl, .plus (.inr rfl) hds⟩
  · obtain ⟨ds, rfl, hds, rfl⟩ := exists_digits h
    exact ⟨_, rfl, .unsigned (.inr rfl) hds⟩
  · cases h
    exact ⟨[], rfl, .absent⟩

/-- An exponent does not go on with digits or a fraction. -/
theorem Exponent.head {es rest : List Char} {exponent : Option Int} (h : Exponent es exponent)
    (hrest : Stops rest) :
  ∀ c ∈ (es ++ rest).head?, ¬c.isDigit ∧ c ≠ '.'
  := by
  have hmark : ∀ mark : Char, mark = 'e' ∨ mark = 'E' → ¬mark.isDigit ∧ mark ≠ '.' := by
    rintro mark (rfl | rfl) <;> decide
  intro c hc
  cases h with
  | absent => exact ⟨(hrest c hc).1, (hrest c hc).2.1⟩
  | unsigned h | plus h | minus h =>
      obtain rfl := Option.some.inj hc
      apply hmark _ h

theorem Fraction.readFraction {fs rest : List Char} {fraction : Option (List Char)}
    (h : Fraction fs fraction) (hrest : ∀ c ∈ rest.head?, ¬c.isDigit ∧ c ≠ '.') :
  readFraction (fs ++ rest) = some (fraction, rest)
  := by
  cases h with
  | absent =>
      cases rest with
      | nil => rfl
      | cons c rest =>
          have hpoint : c ≠ '.' := (hrest c rfl).2
          rw [List.nil_append, readFraction.eq_def]
          split <;> simp_all
  | present hds =>
      have hspan := hds.spanDigits (fun c hc => (hrest c hc).1)
      simp [Json.readFraction, hspan, hds.ne_nil]

theorem exists_fraction {cs rest : List Char} {fraction : Option (List Char)}
    (h : readFraction cs = some (fraction, rest)) :
  ∃ fs, cs = fs ++ rest ∧ Fraction fs fraction
  := by
  unfold readFraction at h
  split at h
  · next cs =>
    obtain ⟨hne, h⟩ := Option.ite_none_left_eq_some.1 h
    cases h
    refine ⟨_, ?_, .present (digits_takeWhile (by simpa using hne))⟩
    rw [List.cons_append, List.takeWhile_append_dropWhile]
  · cases h
    exact ⟨[], rfl, .absent⟩

theorem Fraction.head {fs rest : List Char} {fraction : Option (List Char)}
    (h : Fraction fs fraction) (hrest : ∀ c ∈ rest.head?, ¬c.isDigit) :
  ∀ c ∈ (fs ++ rest).head?, ¬c.isDigit
  := by
  intro c hc
  cases h with
  | absent => apply hrest c hc
  | present hds =>
      obtain rfl := Option.some.inj hc
      decide

theorem Numeral.exists_cons {cs : List Char} {j : Json} (h : Numeral cs j) :
  ∃ c rest, cs = c :: rest ∧ (c = '-' ∨ c.isDigit)
  := by
  cases h with
  | @intro negative ds fs es fraction exponent hds hzero hfs hes =>
      cases negative with
      | false =>
          obtain ⟨d, ds, rfl, hd⟩ := hds.exists_cons
          exact ⟨d, _, rfl, .inr hd⟩
      | true => exact ⟨'-', _, rfl, .inl rfl⟩

/-- A number is read to its end. -/
theorem Numeral.readNumber {cs rest : List Char} {j : Json} (h : Numeral cs j)
    (hrest : Stops rest) :
  readNumber (cs ++ rest) = some (j, rest)
  := by
  cases h with
  | @intro negative ds fs es fraction exponent hds hzero hfs hes =>
      have hexponent := hes.head hrest
      have hspan := hds.spanDigits (hfs.head (fun c hc => (hexponent c hc).1))
      have hunsigned : readUnsigned negative (ds ++ (fs ++ (es ++ rest))) =
          some (number negative ds fraction exponent, rest) := by
        have hleading : ¬(ds.isEmpty || (ds.head? = some '0' && 1 < ds.length)) := by
          simpa [hds.ne_nil] using hzero
        simp [readUnsigned, hspan, hleading, hfs.readFraction hexponent, hes.readExponent hrest]
      rw [List.append_assoc, List.append_assoc, List.append_assoc]
      cases negative with
      | true => apply hunsigned
      | false =>
          obtain ⟨d, ds, rfl, hd⟩ := hds.exists_cons
          rw [← hunsigned, signText, if_neg (by simp), List.nil_append, List.cons_append,
            readNumber.eq_def]
          split
          · next heq =>
            cases heq
            cases hd
          · rfl

theorem exists_numeral_of_readUnsigned {negative : Bool} {cs rest : List Char} {j : Json}
    (h : readUnsigned negative cs = some (j, rest)) :
  ∃ cs', cs = cs' ++ rest ∧ Numeral (signText negative ++ cs') j
  := by
  obtain ⟨hleading, h⟩ := Option.ite_none_left_eq_some.1 h
  obtain ⟨⟨fraction, rest₁⟩, hfraction, h⟩ := Option.bind_eq_some_iff.1 h
  obtain ⟨⟨exponent, rest₂⟩, hexponent, h⟩ := Option.bind_eq_some_iff.1 h
  cases h
  obtain ⟨fs, hrest, hfs⟩ := exists_fraction hfraction
  obtain ⟨es, rfl, hes⟩ := exists_exponent hexponent
  simp only [Bool.or_eq_true, List.isEmpty_iff, Bool.and_eq_true, decide_eq_true_eq, not_or,
    not_and, Nat.not_lt] at hleading
  refine ⟨_, ?_, .intro (digits_takeWhile hleading.1) hleading.2 hfs hes⟩
  rw [List.append_assoc, List.append_assoc, ← hrest, List.takeWhile_append_dropWhile]

theorem exists_numeral {cs rest : List Char} {j : Json} (h : readNumber cs = some (j, rest)) :
  ∃ cs', cs = cs' ++ rest ∧ Numeral cs' j
  := by
  unfold readNumber at h
  split at h
  · obtain ⟨cs', rfl, hnumeral⟩ := exists_numeral_of_readUnsigned h
    exact ⟨'-' :: cs', rfl, hnumeral⟩
  · apply exists_numeral_of_readUnsigned h


/-! ### Values that are spelled are read -/

theorem stops_nil :
  Stops []
  := by
  intro c hc
  cases hc

theorem stops_cons {c : Char} (hc : ¬c.isDigit ∧ c ≠ '.' ∧ c ≠ 'e' ∧ c ≠ 'E') (cs : List Char) :
  Stops (c :: cs)
  := by
  intro d hd
  obtain rfl := Option.some.inj hd
  apply hc

theorem Blank.stops {after rest : List Char} (hafter : Blank after) (hrest : Stops rest) :
  Stops (after ++ rest)
  := by
  cases after with
  | nil => apply hrest
  | cons c after =>
      have hc : isBlank c := hafter c List.mem_cons_self
      simp only [isBlank, Bool.or_eq_true, decide_eq_true_eq] at hc
      apply stops_cons
      rcases hc with ((rfl | rfl) | rfl) | rfl <;> decide

theorem readValue_append {before : List Char} (h : Blank before) (fuel levels : Nat)
    (cs : List Char) :
  readValue fuel levels (before ++ cs) = readValue fuel levels cs
  := by
  cases fuel with
  | zero => rfl
  | succ fuel => rw [readValue, readValue, skipBlanks_append h]

theorem readValue_skipBlanks (fuel levels : Nat) (cs : List Char) :
  readValue fuel levels (skipBlanks cs) = readValue fuel levels cs
  := by
  cases fuel with
  | zero => rfl
  | succ fuel => rw [readValue, readValue, skipBlanks_skipBlanks]

theorem readItems_skipBlanks (fuel levels : Nat) (acc : List Json) (cs : List Char) :
  readItems fuel levels acc (skipBlanks cs) = readItems fuel levels acc cs
  := by
  cases fuel with
  | zero => rfl
  | succ fuel => rw [readItems, readItems, readValue_skipBlanks]

theorem readMembers_skipBlanks (fuel levels : Nat) (acc : Option (List (String × Json)))
    (cs : List Char) :
  readMembers fuel levels acc (skipBlanks cs) = readMembers fuel levels acc cs
  := by
  cases fuel with
  | zero => rfl
  | succ fuel => rw [readMembers, readMembers, skipBlanks_skipBlanks]

/-- No value begins with a closing bracket. -/
theorem skipBlanks_ne_of_readItems {fuel levels : Nat} {acc : List Json} {cs : List Char}
    {r : List Json × List Char} (h : readItems fuel levels acc cs = some r) (rest : List Char) :
  skipBlanks cs ≠ ']' :: rest
  := by
  intro hclose
  cases fuel with
  | zero => cases h
  | succ fuel =>
      rw [readItems] at h
      cases fuel with
      | zero => cases h
      | succ fuel =>
          rw [readValue, hclose] at h
          cases h

/-- No member begins with a closing brace. -/
theorem skipBlanks_ne_of_readMembers {fuel levels : Nat} {acc : Option (List (String × Json))}
    {cs : List Char} {r : Option (List (String × Json)) × List Char}
    (h : readMembers fuel levels acc cs = some r) (rest : List Char) :
  skipBlanks cs ≠ '\x7d' :: rest
  := by
  intro hclose
  cases fuel with
  | zero => cases h
  | succ fuel =>
      rw [readMembers, hclose] at h
      cases h

/-- An array that does not close at once is read item by item. -/
theorem readValue_arr (fuel levels : Nat) {cs : List Char}
    (h : ∀ rest, skipBlanks cs ≠ ']' :: rest) :
  readValue (fuel + 1) levels ('[' :: cs) =
    (readItems fuel (levels - 1) [] cs).map (fun r => (nested levels (.arr r.1), r.2))
  := by
  rw [readValue, skipBlanks_cons rfl, ← readItems_skipBlanks]
  simp only

/-- An object that does not close at once is read member by member. -/
theorem readValue_obj (fuel levels : Nat) {cs : List Char}
    (h : ∀ rest, skipBlanks cs ≠ '\x7d' :: rest) :
  readValue (fuel + 1) levels ('\x7b' :: cs) =
    (readMembers fuel (levels - 1) (some []) cs).map
      (fun r => (nested levels (r.1.elim .garbled .obj), r.2))
  := by
  rw [readValue, skipBlanks_cons rfl, ← readMembers_skipBlanks]
  simp only

theorem ne_of_sign {c d : Char} (hc : c = '-' ∨ c.isDigit) (hminus : d ≠ '-')
    (hdigit : d.isDigit = false) :
  c ≠ d
  := by
  rintro rfl
  simp_all

theorem not_isBlank_of_sign {c : Char} (hc : c = '-' ∨ c.isDigit) :
  isBlank c = false
  := by
  have hspace : c ≠ ' ' := ne_of_sign hc (by decide) (by decide)
  have hline : c ≠ '\n' := ne_of_sign hc (by decide) (by decide)
  have htab : c ≠ '\t' := ne_of_sign hc (by decide) (by decide)
  have hreturn : c ≠ '\r' := ne_of_sign hc (by decide) (by decide)
  simp [isBlank, hspace, hline, htab, hreturn]

/-- A value that begins as numbers do is read as a number. -/
theorem readValue_number (fuel levels : Nat) {c : Char} (hc : c = '-' ∨ c.isDigit)
    (cs : List Char) :
  readValue (fuel + 1) levels (c :: cs) = readNumber (c :: cs)
  := by
  rw [readValue, skipBlanks_cons (not_isBlank_of_sign hc)]
  split <;> simp_all

theorem Numeral.within {cs : List Char} {j : Json} (h : Numeral cs j) (levels : Nat) :
  j.within levels = j
  := by
  cases h with
  | intro hds hzero hfs hes =>
      simp only [number]
      repeat' split
      all_goals rfl

/-- With fuel for twice its length, the characters are read as the value, whatever follows, as long
as it does not go on with a number.  White space behind the value may be left over. -/
def IsReadAs (cs : List Char) (j : Json) : Prop :=
  ∀ (fuel levels : Nat) (rest : List Char), 2 * cs.length ≤ fuel + 1 → Stops rest →
    ∃ tail, readValue fuel levels (cs ++ rest) = some (j.within levels, tail) ∧
      skipBlanks tail = skipBlanks rest

theorem IsReadAs.length_pos {cs : List Char} {j : Json} (h : IsReadAs cs j) :
  0 < cs.length
  := by
  by_contra hlength
  obtain ⟨tail, hread, _⟩ := h 0 0 [] (by omega) stops_nil
  cases hread

theorem isReadAs_of_succ {cs : List Char} {j : Json} (hpos : 0 < cs.length)
    (h : ∀ (fuel levels : Nat) (rest : List Char), 2 * cs.length ≤ fuel + 2 → Stops rest →
      ∃ tail, readValue (fuel + 1) levels (cs ++ rest) = some (j.within levels, tail) ∧
        skipBlanks tail = skipBlanks rest) :
  IsReadAs cs j
  := by
  rintro (_ | fuel) levels rest hfuel hrest
  · omega
  · apply h fuel levels rest hfuel hrest

/-- Items are read up to the closing bracket. -/
theorem readItems_eq {x : List Char × Json} {items : List (List Char × Json)}
    (h : ∀ y ∈ x :: items, IsReadAs y.1 y.2) (fuel levels : Nat) (acc : List Json)
    (rest : List Char)
    (hfuel : 2 * ([','].intercalate ((x :: items).map Prod.fst)).length ≤ fuel) :
  readItems fuel levels acc ([','].intercalate ((x :: items).map Prod.fst) ++ ']' :: rest) =
    some (acc.reverse ++ ((x :: items).map Prod.snd).map (within levels), rest)
  := by
  induction items generalizing x acc fuel with
  | nil =>
      have hx := h x List.mem_cons_self
      have hpos := hx.length_pos
      rw [List.map_singleton, List.intercalate_singleton] at hfuel ⊢
      obtain ⟨fuel, rfl⟩ : ∃ n, fuel = n + 1 := ⟨fuel - 1, by omega⟩
      obtain ⟨tail, hread, htail⟩ := hx fuel levels (']' :: rest) hfuel
        (stops_cons (by decide) rest)
      have hclose : skipBlanks tail = ']' :: rest := htail
      simp [readItems, hread, hclose]
  | cons y items ih =>
      have hx := h x List.mem_cons_self
      rw [List.map_cons, List.map_cons, List.intercalate_cons_cons, ← List.map_cons] at hfuel ⊢
      simp only [List.length_append, List.length_singleton] at hfuel
      obtain ⟨fuel, rfl⟩ : ∃ n, fuel = n + 1 := ⟨fuel - 1, by omega⟩
      set more := [','].intercalate ((y :: items).map Prod.fst) ++ ']' :: rest with hmore
      obtain ⟨tail, hread, htail⟩ := hx fuel levels (',' :: more) (by omega)
        (stops_cons (by decide) more)
      have hcomma : skipBlanks tail = ',' :: more := htail
      have hitems := ih (fun z hz => h z (List.mem_cons_of_mem _ hz)) fuel
        (x.2.within levels :: acc) (by omega)
      rw [← hmore] at hitems
      rw [List.append_assoc, List.append_assoc, ← hmore]
      simp [readItems, hread, hcomma, hitems]

/-- The members of an object as they are read on some levels. -/
def membersWithin (levels : Nat) (members : List MemberText) : Option (List (String × Json)) :=
  (members.mapM MemberText.member?).map (withinMembers levels)

theorem map_reverse_eq (levels : Nat) (acc : Option (List (String × Json))) :
  acc.map List.reverse =
    acc.bind (fun before => (membersWithin levels []).map (before.reverse ++ ·))
  := by
  cases acc with
  | none => rfl
  | some before => simp [membersWithin, withinMembers]

/-- A member is read in front of the others. -/
theorem bind_membersWithin (levels : Nat) (m : MemberText) (members : List MemberText)
    (acc : Option (List (String × Json))) :
  (acc.bind (fun before => m.name.map (fun key => (key, m.value.within levels) :: before))).bind
      (fun before => (membersWithin levels members).map (before.reverse ++ ·)) =
    acc.bind (fun before => (membersWithin levels (m :: members)).map (before.reverse ++ ·))
  := by
  rw [membersWithin, membersWithin, List.mapM_cons, MemberText.member?]
  cases acc with
  | none => rfl
  | some before =>
      cases m.name with
      | none => rfl
      | some key =>
          cases members.mapM MemberText.member? with
          | none => rfl
          | some l => simp [withinMembers]

theorem within_objectOf (levels : Nat) (members : List MemberText) :
  (objectOf members).within levels =
    nested levels ((membersWithin (levels - 1) members).elim .garbled .obj)
  := by
  rw [objectOf, membersWithin]
  cases members.mapM MemberText.member? with
  | none => simp [within, nested]
  | some l => rfl

/-- The steps along a member: its quotation mark, its key, its colon and its value. -/
theorem exists_member_steps {m : MemberText} (hkey : Quoted m.key m.name)
    (hvalue : IsReadAs m.text m.value) (fuel levels : Nat) {rest : List Char}
    (hfuel : 2 * m.text.length ≤ fuel + 1) (hrest : Stops rest) :
  ∃ body after tail, skipBlanks (m.whole ++ rest) = '"' :: body ∧
    readString body = some (m.name, after) ∧ skipBlanks after = ':' :: (m.text ++ rest) ∧
    readValue fuel levels (m.text ++ rest) = some (m.value.within levels, tail) ∧
    skipBlanks tail = skipBlanks rest
  := by
  obtain ⟨body, after, hquote, hafter, hread⟩ := hkey.readString (':' :: (m.text ++ rest))
  obtain ⟨tail, htail⟩ := hvalue fuel levels rest hfuel hrest
  refine ⟨body, _, tail, ?_, hread, skipBlanks_append hafter _, htail⟩
  rw [MemberText.whole, List.append_assoc, List.cons_append, hquote]

/-- Members are read up to the closing brace. -/
theorem readMembers_eq {m : MemberText} {members : List MemberText}
    (hkeys : ∀ n ∈ m :: members, Quoted n.key n.name)
    (hvalues : ∀ n ∈ m :: members, IsReadAs n.text n.value) (fuel levels : Nat)
    (acc : Option (List (String × Json))) (rest : List Char)
    (hfuel : 2 * ([','].intercalate ((m :: members).map MemberText.whole)).length ≤ fuel) :
  readMembers fuel levels acc
      ([','].intercalate ((m :: members).map MemberText.whole) ++ '\x7d' :: rest) =
    some (acc.bind (fun before =>
      (membersWithin levels (m :: members)).map (before.reverse ++ ·)), rest)
  := by
  have hlength : ∀ n : MemberText, n.text.length + 1 ≤ n.whole.length := by
    intro n
    simp [MemberText.whole]
  induction members generalizing m acc fuel with
  | nil =>
      have hpos := hlength m
      rw [List.map_singleton, List.intercalate_singleton] at hfuel ⊢
      obtain ⟨fuel, rfl⟩ : ∃ n, fuel = n + 1 := ⟨fuel - 1, by omega⟩
      obtain ⟨body, after, tail, hquote, hkey, hcolon, hvalue, htail⟩ :=
        exists_member_steps (hkeys m List.mem_cons_self) (hvalues m List.mem_cons_self) fuel
          levels (by omega) (stops_cons (c := '\x7d') (by decide) rest)
      have hclose : skipBlanks tail = '\x7d' :: rest := htail
      simp only [readMembers, hquote, hkey, hcolon, hvalue, hclose]
      rw [map_reverse_eq levels, bind_membersWithin]
  | cons n members ih =>
      have hpos := hlength m
      rw [List.map_cons, List.map_cons, List.intercalate_cons_cons, ← List.map_cons] at hfuel ⊢
      simp only [List.length_append, List.length_singleton] at hfuel
      obtain ⟨fuel, rfl⟩ : ∃ n, fuel = n + 1 := ⟨fuel - 1, by omega⟩
      set more := [','].intercalate ((n :: members).map MemberText.whole) ++ '\x7d' :: rest
        with hmore
      obtain ⟨body, after, tail, hquote, hkey, hcolon, hvalue, htail⟩ :=
        exists_member_steps (hkeys m List.mem_cons_self) (hvalues m List.mem_cons_self) fuel
          levels (by omega) (stops_cons (c := ',') (by decide) more)
      have hcomma : skipBlanks tail = ',' :: more := htail
      have hmembers := ih (fun k hk => hkeys k (List.mem_cons_of_mem _ hk))
        (fun k hk => hvalues k (List.mem_cons_of_mem _ hk)) fuel
        (acc.bind (fun before => m.name.map (fun key => (key, m.value.within levels) :: before)))
        (by omega)
      rw [← hmore] at hmembers
      rw [List.append_assoc, List.append_assoc, ← hmore, List.singleton_append]
      simp only [readMembers, hquote, hkey, hcolon, hvalue, hcomma, hmembers]
      rw [bind_membersWithin]

theorem IsReadAs.padded {before cs after : List Char} {j : Json} (hbefore : Blank before)
    (h : IsReadAs cs j) (hafter : Blank after) :
  IsReadAs (before ++ (cs ++ after)) j
  := by
  intro fuel levels rest hfuel hrest
  simp only [List.length_append] at hfuel
  obtain ⟨tail, hread, htail⟩ := h fuel levels (after ++ rest) (by omega) (hafter.stops hrest)
  use tail
  rw [List.append_assoc, List.append_assoc, readValue_append hbefore, hread, htail,
    skipBlanks_append hafter]
  exact ⟨rfl, rfl⟩

theorem Numeral.isReadAs {cs : List Char} {j : Json} (h : Numeral cs j) :
  IsReadAs cs j
  := by
  obtain ⟨c, cs, rfl, hc⟩ := h.exists_cons
  apply isReadAs_of_succ (by simp)
  intro fuel levels rest _ hrest
  use rest
  rw [List.cons_append, readValue_number fuel levels hc, ← List.cons_append, h.readNumber hrest,
    h.within]
  exact ⟨rfl, rfl⟩

theorem Quoted.isReadAs {cs : List Char} {s : Option String} (h : Quoted cs s) :
  IsReadAs cs (s.elim .garbled .str)
  := by
  apply isReadAs_of_succ h.length_pos
  intro fuel levels rest _ _
  obtain ⟨body, after, hquote, hafter, hread⟩ := h.readString rest
  refine ⟨after ++ rest, ?_, skipBlanks_append hafter rest⟩
  simp only [readValue, hquote, hread]
  cases s with
  | none => rfl
  | some s => rfl

theorem Blank.isReadAs_arr {cs : List Char} (h : Blank cs) :
  IsReadAs ('[' :: (cs ++ [']'])) (.arr [])
  := by
  apply isReadAs_of_succ (by simp)
  intro fuel levels rest _ _
  have hclose : skipBlanks (cs ++ ']' :: rest) = ']' :: rest := skipBlanks_append h _
  refine ⟨rest, ?_, rfl⟩
  rw [List.cons_append, List.append_assoc, List.singleton_append, readValue, skipBlanks_cons rfl]
  simp only [hclose]
  rfl

theorem Blank.isReadAs_obj {cs : List Char} (h : Blank cs) :
  IsReadAs ('\x7b' :: (cs ++ ['\x7d'])) (.obj [])
  := by
  apply isReadAs_of_succ (by simp)
  intro fuel levels rest _ _
  have hclose : skipBlanks (cs ++ '\x7d' :: rest) = '\x7d' :: rest := skipBlanks_append h _
  refine ⟨rest, ?_, rfl⟩
  rw [List.cons_append, List.append_assoc, List.singleton_append, readValue, skipBlanks_cons rfl]
  simp only [hclose]
  rfl

theorem isReadAs_arr {x : List Char × Json} {items : List (List Char × Json)}
    (h : ∀ y ∈ x :: items, IsReadAs y.1 y.2) :
  IsReadAs ('[' :: ([','].intercalate ((x :: items).map Prod.fst) ++ [']']))
    (.arr ((x :: items).map Prod.snd))
  := by
  apply isReadAs_of_succ (by simp)
  intro fuel levels rest hfuel _
  simp only [List.length_cons, List.length_append] at hfuel
  have hitems := readItems_eq h fuel (levels - 1) [] rest (by omega)
  refine ⟨rest, ?_, rfl⟩
  rw [List.cons_append, List.append_assoc, List.singleton_append,
    readValue_arr fuel levels (skipBlanks_ne_of_readItems hitems), hitems, Json.within,
    withinItems_eq_map]
  rfl

theorem isReadAs_obj {m : MemberText} {members : List MemberText}
    (hkeys : ∀ n ∈ m :: members, Quoted n.key n.name)
    (hvalues : ∀ n ∈ m :: members, IsReadAs n.text n.value) :
  IsReadAs ('\x7b' :: ([','].intercalate ((m :: members).map MemberText.whole) ++ ['\x7d']))
    (objectOf (m :: members))
  := by
  apply isReadAs_of_succ (by simp)
  intro fuel levels rest hfuel _
  simp only [List.length_cons, List.length_append] at hfuel
  have hmembers := readMembers_eq hkeys hvalues fuel (levels - 1) (some []) rest (by omega)
  refine ⟨rest, ?_, rfl⟩
  rw [List.cons_append, List.append_assoc, List.singleton_append,
    readValue_obj fuel levels (skipBlanks_ne_of_readMembers hmembers), hmembers, within_objectOf]
  simp

/-- What the grammar spells is read. -/
theorem Spells.isReadAs {cs : List Char} {j : Json} (h : Spells cs j) :
  IsReadAs cs j
  := by
  induction h with
  | null | boolTrue | boolFalse =>
      apply isReadAs_of_succ (by simp)
      intro fuel levels rest _ _
      exact ⟨rest, rfl, rfl⟩
  | number h => apply h.isReadAs
  | string h => apply h.isReadAs
  | emptyArr h => apply h.isReadAs_arr
  | arr _ ih => apply isReadAs_arr ih
  | emptyObj h => apply h.isReadAs_obj
  | obj hkeys _ ih => apply isReadAs_obj hkeys ih
  | padded hbefore _ hafter ih => apply ih.padded hbefore hafter

/-! ### Values that are read are spelled -/

/-- What is read with the given fuel is spelled. -/
structure ReadsSpelled (fuel : Nat) : Prop where
  value {levels : Nat} {cs rest : List Char} {j : Json}
    (h : readValue fuel levels cs = some (j, rest)) :
    ∃ cs' j', cs = cs' ++ rest ∧ Spells cs' j' ∧ j = j'.within levels
  items {levels : Nat} {acc js : List Json} {cs rest : List Char}
    (h : readItems fuel levels acc cs = some (js, rest)) :
    ∃ (x : List Char × Json) (items : List (List Char × Json)),
      cs = [','].intercalate ((x :: items).map Prod.fst) ++ ']' :: rest ∧
      (∀ y ∈ x :: items, Spells y.1 y.2) ∧
      js = acc.reverse ++ ((x :: items).map Prod.snd).map (within levels)
  members {levels : Nat} {acc ms : Option (List (String × Json))} {cs rest : List Char}
    (h : readMembers fuel levels acc cs = some (ms, rest)) :
    ∃ (m : MemberText) (members : List MemberText),
      cs = [','].intercalate ((m :: members).map MemberText.whole) ++ '\x7d' :: rest ∧
      (∀ n ∈ m :: members, Quoted n.key n.name) ∧ (∀ n ∈ m :: members, Spells n.text n.value) ∧
      ms = acc.bind (fun before => (membersWithin levels (m :: members)).map (before.reverse ++ ·))

theorem ReadsSpelled.value_succ {fuel : Nat} (ih : ReadsSpelled fuel) {levels : Nat}
    {cs rest : List Char} {j : Json} (h : readValue (fuel + 1) levels cs = some (j, rest)) :
  ∃ cs' j', cs = cs' ++ rest ∧ Spells cs' j' ∧ j = j'.within levels
  := by
  obtain ⟨before, hbefore, hcs⟩ := exists_blank cs
  suffices hcore : ∃ cs' j', skipBlanks cs = cs' ++ rest ∧ Spells cs' j' ∧ j = j'.within levels by
    obtain ⟨cs', j', hcore, hspells, hj⟩ := hcore
    refine ⟨before ++ (cs' ++ []), j', ?_, .padded hbefore hspells blank_nil, hj⟩
    rw [List.append_nil, List.append_assoc, ← hcore, ← hcs]
  rw [readValue] at h
  split at h
  · next body hbody =>
    obtain ⟨⟨s, rest'⟩, hread, heq⟩ := Option.map_eq_some_iff.1 h
    cases heq
    obtain ⟨cs', ns, rfl, hunits, rfl⟩ := exists_quoted hread
    refine ⟨_, _, ?_, .string (@Quoted.intro [] cs' [] ns blank_nil hunits blank_nil), ?_⟩
    · rw [hbody]
      simp
    · cases stringOf? ns with
      | none => rfl
      | some s => rfl
  · next body hbody =>
    obtain ⟨inner, hinner, hskip⟩ := exists_blank body
    split at h
    · next rest' hclose =>
      cases h
      refine ⟨'[' :: (inner ++ [']']), .arr [], ?_, .emptyArr hinner, rfl⟩
      rw [hbody, hskip, hclose]
      simp
    · obtain ⟨⟨js, rest'⟩, hitems, heq⟩ := Option.map_eq_some_iff.1 h
      cases heq
      rw [readItems_skipBlanks] at hitems
      obtain ⟨x, items, rfl, hspells, rfl⟩ := ih.items hitems
      refine ⟨_, _, ?_, .arr hspells, ?_⟩
      · rw [hbody]
        simp
      · rw [within, withinItems_eq_map]
        rfl
  · next body hbody =>
    obtain ⟨inner, hinner, hskip⟩ := exists_blank body
    split at h
    · next rest' hclose =>
      cases h
      refine ⟨'\x7b' :: (inner ++ ['\x7d']), .obj [], ?_, .emptyObj hinner, rfl⟩
      rw [hbody, hskip, hclose]
      simp
    · obtain ⟨⟨ms, rest'⟩, hmembers, heq⟩ := Option.map_eq_some_iff.1 h
      cases heq
      rw [readMembers_skipBlanks] at hmembers
      obtain ⟨m, members, rfl, hkeys, hvalues, rfl⟩ := ih.members hmembers
      refine ⟨_, _, ?_, .obj hkeys hvalues, ?_⟩
      · rw [hbody]
        simp
      · rw [within_objectOf]
        simp
  · next hbody =>
    cases h
    exact ⟨_, _, hbody, .boolTrue, rfl⟩
  · next hbody =>
    cases h
    exact ⟨_, _, hbody, .boolFalse, rfl⟩
  · next hbody =>
    cases h
    exact ⟨_, _, hbody, .null, rfl⟩
  · obtain ⟨cs', hcs', hnumeral⟩ := exists_numeral h
    exact ⟨cs', j, hcs', .number hnumeral, (hnumeral.within levels).symm⟩

/-- A value is spelled up to the character that follows it. -/
theorem ReadsSpelled.value_before {fuel : Nat} (ih : ReadsSpelled fuel) {levels : Nat}
    {cs tail rest : List Char} {c : Char} {j : Json}
    (h : readValue fuel levels cs = some (j, tail)) (htail : skipBlanks tail = c :: rest) :
  ∃ cs' j', cs = cs' ++ c :: rest ∧ Spells cs' j' ∧ j = j'.within levels
  := by
  obtain ⟨cs', j', rfl, hspells, hj⟩ := ih.value h
  obtain ⟨after, hafter, hskip⟩ := exists_blank tail
  refine ⟨cs' ++ after, j', ?_, hspells.append hafter, hj⟩
  rw [hskip, htail, List.append_assoc]

theorem ReadsSpelled.items_succ {fuel : Nat} (ih : ReadsSpelled fuel) {levels : Nat}
    {acc js : List Json} {cs rest : List Char}
    (h : readItems (fuel + 1) levels acc cs = some (js, rest)) :
  ∃ (x : List Char × Json) (items : List (List Char × Json)),
    cs = [','].intercalate ((x :: items).map Prod.fst) ++ ']' :: rest ∧
    (∀ y ∈ x :: items, Spells y.1 y.2) ∧
    js = acc.reverse ++ ((x :: items).map Prod.snd).map (within levels)
  := by
  rw [readItems] at h
  split at h
  · cases h
  · next j tail hvalue =>
    split at h
    · next more hcomma =>
      obtain ⟨cs', j', rfl, hspells, rfl⟩ := ih.value_before hvalue hcomma
      obtain ⟨x, items, rfl, hitems, rfl⟩ := ih.items h
      refine ⟨(cs', j'), x :: items, ?_, List.forall_mem_cons.2 ⟨hspells, hitems⟩, ?_⟩
      · simp [List.intercalate_cons_cons]
      · simp
    · next more hclose =>
      cases h
      obtain ⟨cs', j', rfl, hspells, rfl⟩ := ih.value_before hvalue hclose
      refine ⟨(cs', j'), [], ?_, List.forall_mem_singleton.2 hspells, ?_⟩
      · simp
      · simp
    · cases h

theorem ReadsSpelled.members_succ {fuel : Nat} (ih : ReadsSpelled fuel) {levels : Nat}
    {acc ms : Option (List (String × Json))} {cs rest : List Char}
    (h : readMembers (fuel + 1) levels acc cs = some (ms, rest)) :
  ∃ (m : MemberText) (members : List MemberText),
    cs = [','].intercalate ((m :: members).map MemberText.whole) ++ '\x7d' :: rest ∧
    (∀ n ∈ m :: members, Quoted n.key n.name) ∧ (∀ n ∈ m :: members, Spells n.text n.value) ∧
    ms = acc.bind (fun before => (membersWithin levels (m :: members)).map (before.reverse ++ ·))
  := by
  obtain ⟨before, hbefore, hcs⟩ := exists_blank cs
  rw [readMembers] at h
  split at h
  · next body hbody =>
    split at h
    · cases h
    · next key rest₁ hkey =>
      split at h
      · next rest₂ hcolon =>
        split at h
        · cases h
        · next j tail hvalue =>
          obtain ⟨after, hafter, hskip⟩ := exists_blank rest₁
          obtain ⟨ks, ns, rfl, hunits, rfl⟩ := exists_quoted hkey
          rw [hcolon] at hskip
          rw [hbody, hskip] at hcs
          have hquoted := Quoted.intro hbefore hunits hafter
          split at h
          · next more hcomma =>
            obtain ⟨cs', j', rfl, hspells, rfl⟩ := ih.value_before hvalue hcomma
            obtain ⟨n, members, rfl, hkeys, hvalues, rfl⟩ := ih.members h
            refine ⟨⟨_, _, cs', j'⟩, n :: members, ?_, List.forall_mem_cons.2 ⟨hquoted, hkeys⟩,
              List.forall_mem_cons.2 ⟨hspells, hvalues⟩, ?_⟩
            · rw [hcs]
              simp [List.intercalate_cons_cons, MemberText.whole]
            · apply bind_membersWithin levels ⟨_, _, cs', j'⟩
          · next more hclose =>
            cases h
            obtain ⟨cs', j', rfl, hspells, rfl⟩ := ih.value_before hvalue hclose
            refine ⟨⟨_, _, cs', j'⟩, [], ?_, List.forall_mem_singleton.2 hquoted,
              List.forall_mem_singleton.2 hspells, ?_⟩
            · rw [hcs]
              simp [MemberText.whole]
            · rw [map_reverse_eq levels]
              apply bind_membersWithin levels ⟨_, _, cs', j'⟩
          · cases h
      · cases h
  · cases h

/-- Whatever is read is spelled. -/
theorem readsSpelled (fuel : Nat) :
  ReadsSpelled fuel
  := by
  induction fuel with
  | zero =>
      constructor
      · intro _ _ _ _ h
        cases h
      · intro _ _ _ _ _ h
        cases h
      · intro _ _ _ _ _ h
        cases h
  | succ fuel ih => exact ⟨ih.value_succ, ih.items_succ, ih.members_succ⟩

/-! ### Texts -/

/-- A text is read as a value exactly if it is the text of a value that is the same on the levels
that are read. -/
theorem parse?_eq_some_iff {s : String} {j : Json} :
  parse? s = some j ↔ ∃ j', Spells s.toList j' ∧ j = j'.within maxDepth
  := by
  constructor
  · intro h
    rw [parse?] at h
    split at h
    · next r rest hread =>
      obtain ⟨hend, h⟩ := Option.ite_none_right_eq_some.1 h
      cases h
      obtain ⟨cs', j', hcs, hspells, rfl⟩ := (readsSpelled _).value hread
      obtain ⟨after, hafter, hskip⟩ := exists_blank rest
      rw [List.isEmpty_iff.1 hend, List.append_nil] at hskip
      use j'
      rw [hcs, hskip]
      exact ⟨hspells.append hafter, rfl⟩
    · cases h
  · rintro ⟨j', hspells, rfl⟩
    obtain ⟨tail, hread, htail⟩ := hspells.isReadAs (2 * s.toList.length + 2) maxDepth [] (by omega)
      stops_nil
    rw [List.append_nil] at hread
    have hend : skipBlanks tail = [] := htail
    simp [parse?, hread, hend]

/-- A text is read without flaws exactly if it is the text of a value without flaws that nests on no
more levels than are read. -/
theorem parseSound?_eq_some_iff {s : String} {j : Json} :
  parseSound? s = some j ↔
    ∃ j', Spells s.toList j' ∧ j'.isSound ∧ j'.depth ≤ maxDepth ∧ j = j'.lastMembers
  := by
  rw [parseSound?, Option.bind_eq_some_iff]
  constructor
  · rintro ⟨_, hparse, h⟩
    obtain ⟨j', hspells, rfl⟩ := parse?_eq_some_iff.1 hparse
    obtain ⟨hsound, h⟩ := Option.ite_none_right_eq_some.1 h
    obtain ⟨hj', hdepth⟩ := (isSound_within j').1 hsound
    rw [within_of_depth_le j' hdepth] at h
    exact ⟨j', hspells, hj', hdepth, (Option.some.inj h).symm⟩
  · rintro ⟨j', hspells, hsound, hdepth, rfl⟩
    use j'
    rw [if_pos hsound]
    exact ⟨parse?_eq_some_iff.2 ⟨j', hspells, (within_of_depth_le j' hdepth).symm⟩, rfl⟩

/-- No text spells two values. -/
theorem Spells.unique {cs : List Char} {j j' : Json} (h : Spells cs j) (h' : Spells cs j') :
  j = j'
  := by
  -- A reader that goes deep enough for both reads both.
  have hfuel : 2 * cs.length ≤ 2 * cs.length + 1 := Nat.le_succ _
  obtain ⟨tail, hread, _⟩ := h.isReadAs _ (max j.depth j'.depth) [] hfuel stops_nil
  obtain ⟨tail', hread', _⟩ := h'.isReadAs _ (max j.depth j'.depth) [] hfuel stops_nil
  rw [within_of_depth_le j (Nat.le_max_left _ _)] at hread
  rw [within_of_depth_le j' (Nat.le_max_right _ _), hread] at hread'
  apply congrArg Prod.fst (Option.some.inj hread')

end ServiceFlow.Json
