import ServiceFlow.Proofs.Yaml.Cursor
import ServiceFlow.Yaml.Document

/-!
# Plain scalars

A text that may be written without quotes is read back word by word, together with the spaces
between its words.  It ends at the end of its line if the next line is not indented further than the
block that it stands in, and a key ends at its colon.
-/

namespace ServiceFlow.Yaml

/-! ### Neighbours -/

theorem anyNeighbours_cons_cons (p : Char → Char → Bool) (c d : Char) (cs : List Char) :
  anyNeighbours p (c :: d :: cs) = (p c d || anyNeighbours p (d :: cs))
  := by
  simp [anyNeighbours]

theorem not_of_anyNeighbours {p : Char → Char → Bool} {a b : List Char} {c d : Char}
    (h : anyNeighbours p (a ++ c :: d :: b) = false) :
  p c d = false
  := by
  induction a with
  | nil =>
      rw [List.nil_append, anyNeighbours_cons_cons, Bool.or_eq_false_iff] at h
      apply h.1
  | cons x a ih =>
      apply ih
      cases a with
      | nil =>
          rw [List.cons_append, List.nil_append, anyNeighbours_cons_cons,
            Bool.or_eq_false_iff] at h
          apply h.2
      | cons y a =>
          rw [List.cons_append, List.cons_append, anyNeighbours_cons_cons,
            Bool.or_eq_false_iff] at h
          apply h.2

/-! ### Plain texts -/

/-- A plain text, or the end of one from some place on. -/
structure PlainText (cs : List Char) : Prop where
  chars : ∀ c ∈ cs, isPrintable c ∧ isBreak c = false
  colon : ∀ a b, cs = a ++ ':' :: b → spaceAhead b = false
  space : ∀ a b, cs = a ++ ' ' :: b → b ≠ [] ∧ b.head? ≠ some '#'

/-- A plain text from its first character on. -/
structure IsPlain (cs : List Char) : Prop extends PlainText cs where
  ne_nil : cs ≠ []
  outer : cs.head? ≠ some ' '
  start : ∀ c rest, cs = c :: rest → indicatesAtStart c rest = false

theorem PlainText.of_append {a b : List Char} (h : PlainText (a ++ b)) :
  PlainText b
  := by
  constructor
  · intro c hc
    apply h.chars c (List.mem_append_right a hc)
  · intro x y hy
    apply h.colon (a ++ x) y
    rw [hy, List.append_assoc]
  · intro x y hy
    apply h.space (a ++ x) y
    rw [hy, List.append_assoc]

theorem PlainText.isSpace_iff {cs : List Char} (h : PlainText cs) {c : Char} (hc : c ∈ cs) :
  isSpace c ↔ c = ' '
  := by
  obtain ⟨hprint, hbreak⟩ := h.chars c hc
  rw [isSpace, hbreak, Bool.or_false, isBlank_iff_of_isPrintable hprint]

theorem isPlain_of_plainAllowed {cs : List Char} (hne : cs ≠ []) (h : plainAllowed cs) :
  IsPlain cs
  := by
  simp only [plainAllowed, hasIndicator, hasOuterSpace, needsEscapes, Bool.and_eq_true,
    Bool.not_eq_true', Bool.or_eq_false_iff] at h
  obtain ⟨⟨⟨⟨⟨⟨_, hstart⟩, hneighbours⟩, hlast⟩, houter, hend⟩, hbreaks⟩, hprint, _⟩ := h
  have hchars : ∀ c ∈ cs, isPrintable c ∧ isBreak c = false := by
    intro c hc
    constructor
    · simpa using (List.any_eq_false.1 hprint) c hc
    · simpa using (List.any_eq_false.1 hbreaks) c hc
  constructor
  · constructor
    · apply hchars
    · rintro a b rfl
      cases b with
      | nil => simp at hlast
      | cons d b =>
          have hpair := not_of_anyNeighbours hneighbours
          simpa [spaceAhead] using (Bool.or_eq_false_iff.1 hpair).1
    · rintro a b rfl
      constructor
      · rintro rfl
        simp at hend
      · intro hhash
        cases b with
        | nil => cases hhash
        | cons d b =>
            obtain rfl := Option.some.inj hhash
            have hpair := not_of_anyNeighbours hneighbours
            cases hpair
  · apply hne
  · intro hhead
    rw [hhead] at houter
    cases houter
  · rintro c rest rfl
    apply hstart

/-! ### Words -/

/-- A character of a name. -/
def IsNameChar (c : Char) : Prop := c.isAlphanum ∨ c = '_'

theorem IsNameChar.ne {c d : Char} (hc : IsNameChar c) (hd : (!d.isAlphanum && d ≠ '_') = true) :
  c ≠ d
  := by
  rintro rfl
  rcases hc with hc | rfl
  · rw [hc] at hd
    cases hd
  · cases hd

theorem IsNameChar.bounds {c : Char} (hc : IsNameChar c) :
  ' ' ≤ c ∧ c ≤ '~'
  := by
  have hwithin {a z : Char} (ha : ' ' ≤ a) (hz : z ≤ '~') (hle : a ≤ c) (hge : c ≤ z) :
      ' ' ≤ c ∧ c ≤ '~' :=
    ⟨Char.le_trans ha hle, Char.le_trans hge hz⟩
  rcases hc with hc | rfl
  · rcases Bool.or_eq_true_iff.1 hc with hletter | hdigit
    · rcases Bool.or_eq_true_iff.1 hletter with hupper | hlower
      · obtain ⟨hle, hge⟩ := of_decide_eq_true hupper
        apply hwithin (a := 'A') (z := 'Z') (by decide) (by decide) hle hge
      · obtain ⟨hle, hge⟩ := Bool.and_eq_true_iff.1 hlower
        apply hwithin (a := 'a') (z := 'z') (by decide) (by decide) (of_decide_eq_true hle)
          (of_decide_eq_true hge)
    · obtain ⟨hle, hge⟩ := Bool.and_eq_true_iff.1 hdigit
      apply hwithin (a := '0') (z := '9') (by decide) (by decide) (of_decide_eq_true hle)
        (of_decide_eq_true hge)
  · decide

theorem IsNameChar.isPrintable {c : Char} (hc : IsNameChar c) :
  isPrintable c
  := by
  simp [Yaml.isPrintable, hc.bounds]

theorem IsNameChar.isSpace {c : Char} (hc : IsNameChar c) :
  isSpace c = false
  := by
  simp [Yaml.isSpace, isBlank, isBreak, hc.ne (d := ' ') rfl, hc.ne (d := '\t') rfl,
    hc.ne (d := '\n') rfl, hc.ne (d := '\r') rfl, hc.ne (d := '\x85') rfl,
    hc.ne (d := '\u2028') rfl, hc.ne (d := '\u2029') rfl]

theorem IsNameChar.indicatesAtStart {c : Char} (hc : IsNameChar c) (rest : List Char) :
  indicatesAtStart c rest = false
  := by
  have hnone : ∀ s : String, s.toList.all (fun d => !d.isAlphanum && d ≠ '_') →
      s.contains c = false := by
    intro s hs
    rw [String.contains_char_eq, decide_eq_false_iff_not]
    intro hmem
    apply hc.ne (List.all_eq_true.1 hs c hmem) rfl
  rw [Yaml.indicatesAtStart, hnone _ rfl, hnone _ rfl, Bool.false_and, Bool.or_false]

/-- A name is plain. -/
theorem isPlain_of_name {cs : List Char} (hne : cs ≠ []) (h : ∀ c ∈ cs, IsNameChar c) :
  IsPlain cs
  := by
  constructor
  · constructor
    · intro c hc
      exact ⟨(h c hc).isPrintable, isBreak_of_not_isSpace (h c hc).isSpace⟩
    · rintro a b rfl
      exact absurd rfl ((h ':' (by simp)).ne (d := ':') rfl)
    · rintro a b rfl
      exact absurd rfl ((h ' ' (by simp)).ne (d := ' ') rfl)
  · apply hne
  · intro hhead
    apply (h ' ' (List.mem_of_head? hhead)).ne (d := ' ') rfl rfl
  · rintro c rest rfl
    apply (h c List.mem_cons_self).indicatesAtStart

/-! ### Reading -/

/-- A word is read up to where none goes on. -/
theorem plainWord_append {word rest : List Char} (hspace : ∀ c ∈ word, isSpace c = false)
    (hcolon : ∀ a b, word = a ++ ':' :: b → spaceAhead (b ++ rest) = false)
    (hrest : plainWord false rest = some ([], rest)) :
  plainWord false (word ++ rest) = some (word, rest)
  := by
  induction word with
  | nil => apply hrest
  | cons c word ih =>
      obtain ⟨hc, hword⟩ := List.forall_mem_cons.1 hspace
      have hgoes : (c = ':' && spaceAhead (word ++ rest)) = false := by
        by_cases hch : c = ':'
        · subst hch
          simpa using hcolon [] word rfl
        · simp [hch]
      have hind := ih hword (fun a b hb => hcolon (c :: a) b (by rw [hb, List.cons_append]))
      rw [List.cons_append, plainWord]
      simp [hc, hgoes, hind]

theorem plainWord_space {cs : List Char} (h : cs.head?.any isSpace) :
  plainWord false cs = some ([], cs)
  := by
  cases cs with
  | nil => rfl
  | cons c cs =>
      have hc : isSpace c := h
      simp [plainWord, hc]

variable {c : Cursor} {rest : List Char} {column n fuel : Nat} {indent : Int} {cs : List Char}

theorem PlainText.not_spaceAhead (h : PlainText cs) {a b : List Char} (hcs : cs = a ++ ':' :: b)
    (tail : List Char) :
  spaceAhead (b ++ tail) = false
  := by
  have hb := h.colon a b hcs
  cases b with
  | nil => cases hb
  | cons ch b => apply hb

/-- A plain text begins with a word, behind which spaces and another plain text may follow. -/
theorem PlainText.exists_word (h : PlainText cs) (hne : cs ≠ []) (houter : cs.head? ≠ some ' ') :
  ∃ word tail, cs = word ++ tail ∧ word ≠ [] ∧ (∀ c ∈ word, isSpace c = false) ∧
    (tail = [] ∨ ∃ k tail', tail = List.replicate (k + 1) ' ' ++ tail' ∧ tail' ≠ [] ∧
      tail'.head? ≠ some ' ' ∧ tail'.head? ≠ some '#')
  := by
  obtain ⟨word, tail, rfl, hword, htail⟩ := exists_span (fun c => !isSpace c) cs
  refine ⟨word, tail, rfl, ?_, fun c hc => by simpa using hword c hc, ?_⟩
  · rintro rfl
    obtain ⟨ch, tail, rfl⟩ := List.exists_cons_of_ne_nil hne
    apply houter
    have hspace : isSpace ch := by simpa using htail ch rfl
    rw [(h.isSpace_iff List.mem_cons_self).1 hspace]
    rfl
  · cases tail with
    | nil => exact .inl rfl
    | cons ch tail =>
        have hspace : isSpace ch := by simpa using htail ch rfl
        obtain rfl := (h.of_append.isSpace_iff List.mem_cons_self).1 hspace
        obtain ⟨k, tail, rfl, hhead⟩ := exists_spaces tail
        have hlast := h.space (word ++ List.replicate k ' ') tail (by
          rw [List.append_assoc, ← List.cons_append, ← List.replicate_succ, List.replicate_succ',
            List.append_assoc, List.singleton_append])
        exact .inr ⟨k, tail, rfl, hlast.1, hhead, hlast.2⟩

/-- The first word of a plain text is read, whatever stands behind the text. -/
theorem PlainText.plainWord {word tail : List Char} (h : PlainText (word ++ tail))
    (hspace : ∀ c ∈ word, isSpace c = false) (behind : List Char)
    (hbehind : (tail ++ behind).head?.any isSpace) :
  Yaml.plainWord false (word ++ tail ++ behind) = some (word, tail ++ behind)
  := by
  rw [List.append_assoc]
  apply plainWord_append hspace _ (plainWord_space hbehind)
  rintro a b rfl
  rw [← List.append_assoc]
  apply h.not_spaceAhead
  rw [List.append_assoc, List.cons_append]

/-- A word, and the gap behind it. -/
theorem plainWords_word {word behind : List Char} (hmarker : c.atMarker = false)
    (hhash : c.rest.head? ≠ some '#') (hread : plainWord false c.rest = some (word, behind))
    (hword : word ≠ []) (hbehind : behind.head?.any isSpace) (text : List Char) (g : Gap)
    {gap : Gap} {c' : Cursor}
    (hgap : readGap indent (behind.length + 1) {} (c.moveTo behind) = some (gap, c')) :
  plainWords false indent (fuel + 1) text g c =
    if c'.column < indent then some (text ++ g.text ++ word, gap.broken, c')
    else plainWords false indent fuel (text ++ g.text ++ word) gap c'
  := by
  cases behind with
  | nil => cases hbehind
  | cons ch behind =>
      have hmoved : (c.moveTo (ch :: behind)).rest = ch :: behind := rfl
      have hch : isSpace ch := hbehind
      rw [List.length_cons] at hgap
      rw [plainWords, hmarker, hread]
      simp [hhash, hword, hmoved, hch, hgap]

/-- A plain text is read to the end of its line. -/
theorem plainWords_text (hcs : PlainText cs) (hne : cs ≠ []) (houter : cs.head? ≠ some ' ')
    (hhash : cs.head? ≠ some '#') (h : c.At (cs ++ '\n' :: (List.replicate n ' ' ++ rest)) column)
    (hcolumn : column ≠ 0) (hindent : indent ≤ column) (hrest : Resumes rest)
    (hn : (n : Int) < indent) (hfuel : cs.length < fuel) (text : List Char) (g : Gap) :
  ∃ c', plainWords false indent fuel text g c = some (text ++ g.text ++ cs, true, c') ∧ c'.At rest n
  := by
  induction hlength : cs.length using Nat.strongRecOn generalizing cs c column fuel text g with
  | ind length ih =>
      obtain ⟨fuel, rfl⟩ : ∃ k, fuel = k + 1 := ⟨fuel - 1, by omega⟩
      obtain ⟨word, tail, rfl, hword, hspace, htail⟩ := hcs.exists_word hne houter
      have hmarker := h.atMarker hcolumn
      have hstart : c.rest.head? ≠ some '#' := by
        rw [h.rest, List.head?_append, List.head?_eq_some_head hne, Option.some_or,
          ← List.head?_eq_some_head]
        apply hhash
      rcases htail with rfl | ⟨k, tail, rfl, htail, hspaces, hhashes⟩
      · -- the last word, with the end of the line behind it
        have hread := hcs.plainWord hspace ('\n' :: (List.replicate n ' ' ++ rest)) rfl
        rw [← h.rest] at hread
        rw [List.append_nil] at h ⊢
        have hroom : ([] : List Char).length + n + 1 <
            ('\n' :: (List.replicate n ' ' ++ rest)).length + 1 := by
          rw [List.length_cons, List.length_append, List.length_replicate, List.length_nil]
          omega
        obtain ⟨c', hgap, hc'⟩ := readGap_lines rfl (by simp) n h.moveTo hrest hroom
        refine ⟨c', ?_, hc'⟩
        rw [plainWords_word hmarker hstart hread hword rfl text g hgap, hc'.column, if_pos hn]
      · -- the text goes on behind some spaces
        have hread := hcs.plainWord hspace ('\n' :: (List.replicate n ' ' ++ rest)) rfl
        rw [← h.rest, List.append_assoc] at hread
        rw [List.append_assoc, List.append_assoc] at h
        have hresumes : Resumes (tail ++ '\n' :: (List.replicate n ' ' ++ rest)) := by
          intro ch hch
          rw [List.head?_append, List.head?_eq_some_head htail, Option.some_or] at hch
          obtain rfl := Option.some.inj hch
          apply Bool.eq_false_iff.2
          intro hblank
          apply hspaces
          rw [List.head?_eq_some_head htail,
            (hcs.of_append.of_append.isSpace_iff (List.head_mem htail)).1 hblank]
        have hroom : k + 1 < (List.replicate (k + 1) ' ' ++
            (tail ++ '\n' :: (List.replicate n ' ' ++ rest))).length + 1 := by
          rw [List.length_append, List.length_replicate]
          omega
        obtain ⟨c', hgap, hc'⟩ := readGap_spaces (k + 1) h.moveTo hresumes hroom (g := {}) rfl
        rw [List.length_append, List.length_append, List.length_replicate] at hlength hfuel
        have hbeyond : indent ≤ (column + word.length + (k + 1) : Nat) := by omega
        obtain ⟨c'', hwords, hc''⟩ := ih tail.length (by omega) hcs.of_append.of_append htail
          hspaces hhashes hc' (by omega) hbeyond (show tail.length < fuel by omega)
          (text ++ g.text ++ word) { blanks := List.replicate (k + 1) ' ' } rfl
        refine ⟨c'', ?_, hc''⟩
        rw [plainWords_word hmarker hstart hread hword rfl text g hgap, hc'.column,
          if_neg (Int.not_lt.2 hbeyond), List.nil_append, hwords]
        simp [Gap.text]

/-- A plain scalar ends at the end of its line. -/
theorem readPlain_text (hcs : IsPlain cs)
    (h : c.At (cs ++ '\n' :: (List.replicate n ' ' ++ rest)) column) (hcolumn : column ≠ 0)
    (hindent : indent < column) (hrest : Resumes rest) (hn : (n : Int) ≤ indent) :
  ∃ c', readPlain false indent c = some (String.ofList cs, true, c') ∧ c'.At rest n
  := by
  have hhash : cs.head? ≠ some '#' := by
    intro hhead
    obtain ⟨tail, rfl⟩ := List.head?_eq_some_iff.1 hhead
    have hstart := hcs.start _ _ rfl
    simp [indicatesAtStart, String.contains_char_eq] at hstart
  have hfuel : cs.length < c.rest.length + 1 := by
    rw [h.rest, List.length_append]
    omega
  obtain ⟨c', hread, hc'⟩ := plainWords_text hcs.toPlainText hcs.ne_nil hcs.outer hhash h hcolumn
    (Int.add_one_le_of_lt hindent) hrest (Int.lt_add_one_of_le hn) hfuel [] {}
  refine ⟨c', ?_, hc'⟩
  rw [readPlain, hread]
  rfl

/-- A name does not divide documents. -/
theorem atMarker_of_name {ch : Char} (hch : IsNameChar ch) (h : c.rest = ch :: rest) :
  c.atMarker = false
  := by
  have hdash := hch.ne (d := '-') rfl
  have hdot := hch.ne (d := '.') rfl
  rw [Cursor.atMarker, h]
  split <;> simp_all

/-- A name ends at the colon behind it. -/
theorem readPlain_name {name : List Char} (hne : name ≠ []) (hname : ∀ c ∈ name, IsNameChar c)
    (h : c.rest = name ++ ':' :: rest) (hrest : spaceAhead rest) :
  readPlain false indent c = some (String.ofList name, false, c.moveTo (':' :: rest))
  := by
  obtain ⟨ch, tail, rfl⟩ := List.exists_cons_of_ne_nil hne
  have hch := hname ch List.mem_cons_self
  have hmarker := atMarker_of_name hch h
  have hhash : ch ≠ '#' := hch.ne rfl
  have hcolon : plainWord false (':' :: rest) = some ([], ':' :: rest) := by
    simp [plainWord, hrest, isSpace, isBlank, isBreak]
  have hread : plainWord false (ch :: tail ++ ':' :: rest) = some (ch :: tail, ':' :: rest) := by
    apply plainWord_append _ _ hcolon
    · intro c hc
      apply (hname c hc).isSpace
    · intro a b hb
      rw [hb] at hname
      exact absurd rfl ((hname ':' (by simp)).ne (d := ':') rfl)
  have hmoved : (c.moveTo (':' :: rest)).rest = ':' :: rest := rfl
  have hspace : isSpace ':' = false := rfl
  rw [readPlain, plainWords, hmarker, h, hread]
  simp [hhash, hmoved, hspace, Gap.text]

end ServiceFlow.Yaml
