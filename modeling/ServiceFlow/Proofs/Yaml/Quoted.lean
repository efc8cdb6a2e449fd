import ServiceFlow.Proofs.Yaml.Cursor

/-!
# Quoted scalars

A quoted text is made of words with spaces or ends of lines between them.  Its words are spelled
with doubled quotes or with escapes, and its lines are indented.  Reading gives back the words and
what stands between them.
-/

namespace ServiceFlow.Yaml

/-! ### Words -/

/-- The quote that encloses a scalar. -/
def quote (double : Bool) : Char := if double then '"' else '\x27'

theorem isSpace_quote (double : Bool) :
  isSpace (quote double) = false
  := by
  cases double <;> rfl

/-- The next word of a quoted scalar. -/
def quotedWord (double : Bool) (cs : List Char) : Option (List Char × List Char) :=
  if double then doubleWord (cs.length + 1) cs else some (singleWord cs)

/-- A word ends at a space, or at the quote at the end of the line. -/
def WordEnds (double : Bool) (behind : List Char) : Prop :=
  behind.head?.any isSpace ∨ ∃ rest, behind = quote double :: '\n' :: rest

/-- The characters spell the word. -/
def Spells (double : Bool) (spelling word : List Char) : Prop :=
  ∀ behind, WordEnds double behind → quotedWord double (spelling ++ behind) = some (word, behind)

/-- A text, and how it is written between quotes with lines indented by so much. -/
inductive QuotedText (double : Bool) (indent : Nat) : List Char → List Char → Prop where
  | last {word spelling : List Char} (spells : Spells double spelling word) :
      QuotedText double indent word spelling
  | spaces {word spelling cs body : List Char} (k : Nat) (spells : Spells double spelling word)
      (resumes : Resumes body) (rest : QuotedText double indent cs body) :
      QuotedText double indent (word ++ List.replicate (k + 1) ' ' ++ cs)
        (spelling ++ List.replicate (k + 1) ' ' ++ body)
  | lines {word spelling breaks cs body : List Char} {b : Char}
      (spells : Spells double spelling word)
      (first : isOwnBreak b ∧ b ≠ '\n') (more : ∀ b ∈ breaks, isOwnBreak b)
      (resumes : Resumes body) (rest : QuotedText double indent cs body) :
      QuotedText double indent (word ++ b :: breaks ++ cs)
        (spelling ++ (b :: breaks ++ List.replicate indent ' ') ++ body)

/-! ### Reading -/

variable {double : Bool} {c : Cursor} {rest : List Char} {column fuel indent : Nat}

/-- A word, and the gap behind it. -/
theorem quotedWords_gap {word behind : List Char} (hmarker : c.atMarker = false)
    (hread : quotedWord double c.rest = some (word, behind)) (hbehind : behind.head?.any isSpace)
    (text : List Char) {g : Gap} {c' : Cursor}
    (hgap : readGap 0 (behind.length + 1) {} (c.moveTo behind) = some (g, c')) (hne : c.rest ≠ []) :
  quotedWords double (fuel + 1) text c = quotedWords double fuel (text ++ word ++ g.text) c'
  := by
  cases behind with
  | nil => cases hbehind
  | cons ch behind =>
      have hmoved : (c.moveTo (ch :: behind)).rest = ch :: behind := rfl
      have hch : isSpace ch := hbehind
      have hslash : ch ≠ '\\' := by
        rintro rfl
        cases hch
      rw [List.length_cons] at hgap
      rw [quotedWords, hmarker]
      cases double with
      | false =>
          have hsingle : singleWord c.rest = (word, ch :: behind) := Option.some.inj hread
          simp [hne, hsingle, hmoved, hch, hgap]
      | true =>
          have hdouble : doubleWord (c.rest.length + 1) c.rest = some (word, ch :: behind) := hread
          simp [hne, hdouble, hmoved, hch, hgap]

/-- The last word, and the quote behind it. -/
theorem quotedWords_last {word : List Char} (hmarker : c.atMarker = false)
    (hread : quotedWord double c.rest = some (word, quote double :: rest)) (hne : c.rest ≠ [])
    (text : List Char) :
  quotedWords double (fuel + 1) text c =
    some (text ++ word, (c.moveTo (quote double :: rest)).skip 1)
  := by
  have hmoved : (c.moveTo (quote double :: rest)).rest = quote double :: rest := rfl
  have hspace := isSpace_quote double
  have hslash : quote double ≠ '\\' := by cases double <;> decide
  rw [quotedWords, hmarker]
  cases double with
  | false =>
      have hsingle : singleWord c.rest = (word, quote false :: rest) := Option.some.inj hread
      simp [hne, hsingle, hmoved, hspace]
  | true =>
      have hdouble : doubleWord (c.rest.length + 1) c.rest = some (word, quote true :: rest) :=
        hread
      simp [hne, hdouble, hmoved, hspace]

theorem resumes_append {body : List Char} (h : Resumes body) (rest : List Char) :
  Resumes (body ++ quote double :: rest)
  := by
  cases body with
  | nil => simpa [Resumes] using isSpace_quote double
  | cons ch body => apply h

/-- A quoted text is read up to the quote at its end. -/
theorem QuotedText.quotedWords {cs body : List Char} (hcs : QuotedText double indent cs body)
    (hindent : indent ≠ 0) (h : c.At (body ++ quote double :: '\n' :: rest) column)
    (hcolumn : column ≠ 0) (hfuel : body.length < fuel) (text : List Char) :
  ∃ c' column', Yaml.quotedWords double fuel text c = some (text ++ cs, c') ∧
    c'.At ('\n' :: rest) column'
  := by
  have hne : c.rest ≠ [] := by simp [h.rest]
  induction hcs generalizing c column fuel text with
  | @last word spelling spells =>
      obtain ⟨fuel, rfl⟩ : ∃ k, fuel = k + 1 := ⟨fuel - 1, by omega⟩
      have hread := spells (quote double :: '\n' :: rest) (.inr ⟨rest, rfl⟩)
      rw [← h.rest] at hread
      exact ⟨_, _, quotedWords_last (h.atMarker hcolumn) hread hne text, h.moveTo.skip_one⟩
  | @spaces word spelling cs body k spells resumes _ ih =>
      obtain ⟨fuel, rfl⟩ : ∃ k, fuel = k + 1 := ⟨fuel - 1, by omega⟩
      rw [List.append_assoc, List.append_assoc] at h
      have hspace : Option.any isSpace (List.head? (List.replicate (k + 1) ' ' ++
          (body ++ quote double :: '\n' :: rest))) := rfl
      have hread := spells _ (.inl hspace)
      rw [← h.rest] at hread
      have hroom : k + 1 < (List.replicate (k + 1) ' ' ++
          (body ++ quote double :: '\n' :: rest)).length + 1 := by
        rw [List.length_append, List.length_replicate]
        omega
      obtain ⟨c', hgap, hc'⟩ := readGap_spaces (k + 1) h.moveTo
        (resumes_append resumes ('\n' :: rest)) hroom (g := {}) rfl
      rw [List.length_append, List.length_append, List.length_replicate] at hfuel
      obtain ⟨c'', column'', hwords, hc''⟩ := ih hc' (by omega) (show body.length < fuel by omega)
        (text ++ word ++ List.replicate (k + 1) ' ') (by simp [hc'.rest])
      refine ⟨c'', column'', ?_, hc''⟩
      rw [quotedWords_gap (h.atMarker hcolumn) hread hspace text hgap hne]
      simpa [Gap.text] using hwords
  | @lines word spelling breaks cs body b spells first more resumes _ ih =>
      obtain ⟨fuel, rfl⟩ : ∃ k, fuel = k + 1 := ⟨fuel - 1, by omega⟩
      rw [List.append_assoc, List.append_assoc] at h
      have hspace : Option.any isSpace (List.head? (b :: breaks ++ List.replicate indent ' ' ++
          (body ++ quote double :: '\n' :: rest))) := isSpace_of_isOwnBreak first.1
      have hread := spells _ (.inl hspace)
      rw [← h.rest] at hread
      have hroom : breaks.length + indent + 1 < (b :: breaks ++ List.replicate indent ' ' ++
          (body ++ quote double :: '\n' :: rest)).length + 1 := by
        simp only [List.length_append, List.length_cons, List.length_replicate]
        omega
      obtain ⟨c', hgap, hc'⟩ := readGap_lines first.1 more indent h.moveTo
        (resumes_append resumes ('\n' :: rest)) hroom
      simp only [List.length_append, List.length_cons, List.length_replicate] at hfuel
      obtain ⟨c'', column'', hwords, hc''⟩ := ih hc' hindent (show body.length < fuel by omega)
        (text ++ word ++ b :: breaks) (by simp [hc'.rest])
      refine ⟨c'', column'', ?_, hc''⟩
      rw [quotedWords_gap (h.atMarker hcolumn) hread hspace text hgap hne]
      simpa [Gap.text, first.2] using hwords

/-- A quoted scalar is read from quote to quote. -/
theorem QuotedText.readQuoted {cs body : List Char} (hcs : QuotedText double indent cs body)
    (hindent : indent ≠ 0)
    (h : c.At (quote double :: body ++ quote double :: '\n' :: rest) column) :
  ∃ c' column', Yaml.readQuoted double c = some (String.ofList cs, c') ∧
    c'.At ('\n' :: rest) column'
  := by
  have hfuel : body.length < c.rest.length + 1 := by
    rw [h.rest, List.length_append, List.length_cons]
    omega
  obtain ⟨c', column', hread, hc'⟩ := hcs.quotedWords hindent h.skip_one (Nat.succ_ne_zero column)
    hfuel []
  refine ⟨c', column', ?_, hc'⟩
  rw [Yaml.readQuoted, hread]
  rfl

end ServiceFlow.Yaml
