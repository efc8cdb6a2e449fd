import ServiceFlow.Proofs.Text.Digits
import ServiceFlow.Proofs.Yaml.Quoted
import ServiceFlow.Yaml.Document

/-!
# Escapes

Between double quotes a character that cannot stand for itself is written as an escape.  An escape
is read as its character, so every text can be written between double quotes.
-/

namespace ServiceFlow.Yaml

/-! ### Escapes of characters -/

theorem number?_upperHex (digits n : Nat) :
  Text.number? 16 (upperHex digits n) = some n
  := by
  have hspell : ∀ d < 16, Text.digit? 16 (Nat.digitChar d).toUpper = some d := by decide
  obtain ⟨ds, hds, hvalue⟩ := Text.mapM_digit?_toDigits (by decide) hspell n
  have hzeros : ∀ k, (List.replicate k '0').mapM (Text.digit? 16) = some (List.replicate k 0) := by
    intro k
    induction k with
    | zero => rfl
    | succ k ih =>
        have hzero : Text.digit? 16 '0' = some 0 := rfl
        simp [List.replicate_succ, ih, hzero]
  have hnothing : ∀ k, (List.replicate k 0).foldl (fun n d => n * 16 + d) 0 = 0 := by
    intro k
    induction k with
    | zero => rfl
    | succ k ih => simpa [List.replicate_succ] using ih
  have hne : upperHex digits n ≠ [] := by simp [upperHex, Nat.toDigits_ne_nil]
  rw [Text.number?, if_neg (by simpa using hne), upperHex, List.mapM_append, hzeros, hds]
  simp [hnothing, hvalue]

theorem length_upperHex {digits n : Nat} (hdigits : 0 < digits) (hn : n < Nat.pow 16 digits) :
  (upperHex digits n).length = digits
  := by
  have hle : (Nat.toDigits 16 n).length ≤ digits :=
    (Nat.length_toDigits_le_iff (by omega) hdigits).2 hn
  simp only [upperHex, List.length_append, List.length_replicate, List.length_map]
  omega

theorem escapedCode?_upperHex {digits : Nat} (hdigits : 0 < digits) {c : Char}
    (hc : c.toNat < Nat.pow 16 digits) (rest : List Char) :
  escapedCode? digits (upperHex digits c.toNat ++ rest) = some (c, rest)
  := by
  have hlength := length_upperHex hdigits hc
  have htake : (upperHex digits c.toNat ++ rest).take digits = upperHex digits c.toNat := by
    rw [List.take_append_of_le_length (by omega), List.take_of_length_le (by omega)]
  have hdrop : (upperHex digits c.toNat ++ rest).drop digits = rest := by
    rw [List.drop_append_of_le_length (by omega), List.drop_of_length_le (by omega),
      List.nil_append]
  rw [escapedCode?, htake, number?_upperHex, hdrop]
  have hvalid : c.toNat.isValidChar := c.valid
  simp [hlength, hvalid, Char.ofNat_toNat]

theorem escape?_of_escapeLetter? {c e : Char} (h : escapeLetter? c = some e) (rest : List Char) :
  escape? (e :: rest) = some (c, rest) ∧ isBreak e = false
  := by
  unfold escapeLetter? at h
  split at h <;> cases h <;> exact ⟨rfl, rfl⟩

theorem ne_of_escapeLetter? {c d : Char} (hc : escapeLetter? c = none)
    (hd : (escapeLetter? d).isSome) :
  c ≠ d
  := by
  rintro rfl
  rw [hc] at hd
  cases hd

/-- Tabs and ends of lines are escaped. -/
theorem isSpace_of_escapeLetter? {c : Char} (hc : c ≠ ' ') (h : escapeLetter? c = none) :
  isSpace c = false
  := by
  simp [isSpace, isBlank, isBreak, hc, ne_of_escapeLetter? h (d := '\t') rfl,
    ne_of_escapeLetter? h (d := '\n') rfl, ne_of_escapeLetter? h (d := '\r') rfl,
    ne_of_escapeLetter? h (d := '\x85') rfl, ne_of_escapeLetter? h (d := '\u2028') rfl,
    ne_of_escapeLetter? h (d := '\u2029') rfl]

theorem length_escapedText_pos (c : Char) :
  0 < (escapedText c).length
  := by
  rw [escapedText]
  split
  · simp
  · split
    · simp
    · split
      · simp
      · split <;> simp

/-- Behind a backslash an escape stands for its character. -/
theorem doubleWord_escape {c : Char} (escape : List Char) {rest : List Char} {fuel : Nat}
    (hescape : escape? (escape ++ rest) = some (c, rest))
    (hbreak : ∀ ch ∈ (escape ++ rest).head?, isBreak ch = false) :
  doubleWord (fuel + 1) ('\\' :: escape ++ rest) =
    (doubleWord fuel rest).map (fun r => (c :: r.1, r.2))
  := by
  have hgoes : (escape ++ rest).head?.elim false isBreak = false := by
    cases hhead : (escape ++ rest).head? with
    | none => rfl
    | some ch => apply hbreak ch hhead
  rw [List.cons_append, doubleWord, hgoes, hescape]
  cases hword : doubleWord fuel rest <;> simp [hword]

/-- A character but for the space, as it stands between double quotes. -/
theorem doubleWord_escapedText {c : Char} (hc : c ≠ ' ') (rest : List Char) (fuel : Nat) :
  doubleWord (fuel + 1) (escapedText c ++ rest) =
    (doubleWord fuel rest).map (fun r => (c :: r.1, r.2))
  := by
  rw [escapedText]
  split
  · next e hletter =>
    obtain ⟨hescape, hbreak⟩ := escape?_of_escapeLetter? hletter rest
    apply doubleWord_escape [e] hescape
    simpa using hbreak
  · next hletter =>
    split
    · have hspace := isSpace_of_escapeLetter? hc hletter
      have hslash := ne_of_escapeLetter? hletter (d := '\\') rfl
      have hquote := ne_of_escapeLetter? hletter (d := '"') rfl
      simp [doubleWord, hspace, hquote]
    · split
      · next hsmall =>
        apply doubleWord_escape ('x' :: upperHex 2 c.toNat)
        · apply escapedCode?_upperHex (by omega)
          show c.toNat < 256
          omega
        · simp [isBreak]
      · split
        · next hmedium =>
          apply doubleWord_escape ('u' :: upperHex 4 c.toNat)
          · apply escapedCode?_upperHex (by omega)
            show c.toNat < 65536
            omega
          · simp [isBreak]
        · apply doubleWord_escape ('U' :: upperHex 8 c.toNat)
          · apply escapedCode?_upperHex (by omega)
            have hvalid : c.toNat.isValidChar := c.valid
            rw [Nat.isValidChar] at hvalid
            show c.toNat < 4294967296
            omega
          · simp [isBreak]

/-! ### Words between double quotes -/

theorem spells_escaped {word : List Char} (hword : ∀ c ∈ word, c ≠ ' ') :
  Spells true (word.flatMap escapedText) word
  := by
  intro behind hbehind
  have hread : ∀ fuel, (word.flatMap escapedText ++ behind).length < fuel →
      doubleWord fuel (word.flatMap escapedText ++ behind) = some (word, behind) := by
    induction word with
    | nil =>
        intro fuel hfuel
        obtain ⟨fuel, rfl⟩ : ∃ k, fuel = k + 1 := ⟨fuel - 1, by omega⟩
        rcases hbehind with hspace | ⟨rest, rfl⟩
        · cases behind with
          | nil => cases hspace
          | cons ch behind =>
              have hch : isSpace ch := hspace
              have hslash : ch ≠ '\\' := by
                rintro rfl
                cases hch
              simp [doubleWord, hch]
        · simp [doubleWord, quote]
    | cons c word ih =>
        intro fuel hfuel
        obtain ⟨fuel, rfl⟩ : ∃ k, fuel = k + 1 := ⟨fuel - 1, by omega⟩
        obtain ⟨hc, hword⟩ := List.forall_mem_cons.1 hword
        have hpos := length_escapedText_pos c
        rw [List.flatMap_cons, List.append_assoc, List.length_append] at hfuel
        rw [List.flatMap_cons, List.append_assoc, doubleWord_escapedText hc,
          ih hword fuel (by omega)]
        rfl
  apply hread
  omega

/-- A word does not begin with a space. -/
theorem resumes_escapedText {c : Char} (hc : c ≠ ' ') (rest : List Char) :
  Resumes (escapedText c ++ rest)
  := by
  have hslash : isSpace '\\' = false := rfl
  rw [escapedText]
  split
  · simpa [Resumes] using hslash
  · next hletter =>
    split
    · simpa [Resumes] using isSpace_of_escapeLetter? hc hletter
    · split
      · simpa [Resumes] using hslash
      · split <;> simpa [Resumes] using hslash

theorem flatMap_escapedText_spaces (k : Nat) :
  (List.replicate k ' ').flatMap escapedText = List.replicate k ' '
  := by
  induction k with
  | zero => rfl
  | succ k ih =>
      rw [List.replicate_succ, List.flatMap_cons, ih]
      rfl

theorem quotedText_escaped (indent : Nat) (cs : List Char) :
  QuotedText true indent cs (cs.flatMap escapedText)
  := by
  induction hlength : cs.length using Nat.strongRecOn generalizing cs with
  | ind length ih =>
      obtain ⟨word, tail, rfl, hword, htail⟩ := exists_span (fun c => c ≠ ' ') cs
      have hspells := spells_escaped (fun c hc => of_decide_eq_true (hword c hc))
      cases tail with
      | nil =>
          rw [List.append_nil]
          exact .last hspells
      | cons ch tail =>
          obtain rfl : ch = ' ' := by simpa using htail ch rfl
          obtain ⟨k, tail, rfl, hhead⟩ := exists_spaces tail
          rw [← List.cons_append, ← List.replicate_succ, ← List.append_assoc] at hlength ⊢
          rw [List.flatMap_append, List.flatMap_append, flatMap_escapedText_spaces]
          apply QuotedText.spaces k hspells
          · cases tail with
            | nil => simp [Resumes]
            | cons ch tail =>
                rw [List.flatMap_cons]
                apply resumes_escapedText
                rintro rfl
                apply hhead rfl
          · apply ih tail.length _ tail rfl
            rw [← hlength, List.length_append, List.length_append, List.length_replicate]
            omega

/-! ### Characters of escapes -/

theorem isPrintable_of_mem_upperHex {digits : Nat} {c : Char} (h : c ∈ upperHex digits n) :
  isPrintable c
  := by
  have hdigits : ∀ k < 16, isPrintable (Nat.digitChar k).toUpper := by decide
  rcases List.mem_append.1 h with h | h
  · rw [List.eq_of_mem_replicate h]
    rfl
  · obtain ⟨d, hd, rfl⟩ := List.mem_map.1 h
    obtain ⟨k, hk, rfl⟩ := Text.exists_of_mem_toDigits (by decide) hd
    apply hdigits k hk

theorem isPrintable_escapedText (c : Char) :
  ∀ d ∈ escapedText c, isPrintable d
  := by
  have hescape : ∀ {e : Char} {more : List Char}, isPrintable e → (∀ d ∈ more, isPrintable d) →
      ∀ d ∈ '\\' :: e :: more, isPrintable d :=
    fun he hmore => List.forall_mem_cons.2 ⟨rfl, List.forall_mem_cons.2 ⟨he, hmore⟩⟩
  have hhex : ∀ {digits : Nat}, ∀ d ∈ upperHex digits c.toNat, isPrintable d :=
    fun d hd => isPrintable_of_mem_upperHex hd
  rw [escapedText]
  split
  · next e he =>
      apply hescape _ (List.forall_mem_nil _)
      unfold escapeLetter? at he
      split at he <;> cases he <;> rfl
  · split
    · next hprint => exact List.forall_mem_cons.2 ⟨hprint, List.forall_mem_nil _⟩
    · split
      · apply hescape rfl hhex
      · split
        · apply hescape rfl hhex
        · apply hescape rfl hhex

end ServiceFlow.Yaml
