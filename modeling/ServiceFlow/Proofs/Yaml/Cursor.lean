import ServiceFlow.Yaml.Scalar

/-!
# Moving in a YAML text

What a cursor reads is determined by the text behind it and by its column.  A cursor steps over
characters of a line and over the ends of lines; blanks and ends of lines together are the gaps
between the words of a scalar.
-/

namespace ServiceFlow.Yaml

/-! ### Characters -/

/-- An end of a line that stands for itself in a scalar. -/
def isOwnBreak (c : Char) : Bool := c = '\n' || c = '\u2028' || c = '\u2029'

theorem isBreak_of_isOwnBreak {c : Char} (h : isOwnBreak c) :
  isBreak c
  := by
  simp only [isOwnBreak, Bool.or_eq_true, decide_eq_true_eq] at h
  rcases h with (rfl | rfl) | rfl <;> rfl

theorem isSpace_of_isOwnBreak {c : Char} (h : isOwnBreak c) :
  isSpace c
  := by
  rw [isSpace, isBreak_of_isOwnBreak h, Bool.or_true]

theorem isOwnBreak_of_isPrintable {c : Char} (hprint : isPrintable c) (hbreak : isBreak c) :
  isOwnBreak c
  := by
  simp only [isBreak, Bool.or_eq_true, decide_eq_true_eq] at hbreak
  rcases hbreak with (((rfl | rfl) | rfl) | rfl) | rfl
  · rfl
  · cases hprint
  · cases hprint
  · rfl
  · rfl

/-- The only blank that need not be escaped is the space. -/
theorem isBlank_iff_of_isPrintable {c : Char} (hprint : isPrintable c) :
  isBlank c ↔ c = ' '
  := by
  have htab : c ≠ '\t' := by
    rintro rfl
    cases hprint
  simp [isBlank, htab]

/-- What need not be escaped may stand in a text. -/
theorem isAllowed_of_isPrintable {c : Char} (h : isPrintable c) :
  isAllowed c
  := by
  simp only [isPrintable, Bool.or_eq_true, Bool.and_eq_true, decide_eq_true_eq] at h
  simp only [isAllowed, Bool.or_eq_true, Bool.and_eq_true, decide_eq_true_eq]
  rcases h with ((rfl | hascii) | ⟨hwide, _⟩) | hbeyond
  · simp
  · simp [hascii]
  · simp [hwide]
  · simp [hbeyond]

theorem isBlank_of_not_isSpace {c : Char} (h : isSpace c = false) :
  isBlank c = false
  := (Bool.or_eq_false_iff.1 h).1

theorem isBreak_of_not_isSpace {c : Char} (h : isSpace c = false) :
  isBreak c = false
  := (Bool.or_eq_false_iff.1 h).2

/-- A text up to the first character that lacks a property. -/
theorem exists_span (p : Char → Bool) (cs : List Char) :
  ∃ front tail, cs = front ++ tail ∧ (∀ c ∈ front, p c) ∧ ∀ c ∈ tail.head?, p c = false
  := by
  induction cs with
  | nil => exact ⟨[], [], rfl, by simp, by simp⟩
  | cons c cs ih =>
      cases hc : p c with
      | false => exact ⟨[], c :: cs, rfl, by simp, by simpa using hc⟩
      | true =>
          obtain ⟨front, tail, rfl, hfront, htail⟩ := ih
          refine ⟨c :: front, tail, rfl, ?_, htail⟩
          simpa [hc] using hfront

theorem dropWhile_span {p : Char → Bool} {front tail : List Char} (hfront : ∀ c ∈ front, p c)
    (htail : ∀ c ∈ tail.head?, p c = false) :
  (front ++ tail).dropWhile p = tail
  := by
  rw [List.dropWhile_append_of_pos hfront]
  cases tail with
  | nil => rfl
  | cons c tail => rw [List.dropWhile_cons_of_neg (by simp [htail c rfl])]

/-- The spaces at the front of a text. -/
theorem exists_spaces (cs : List Char) :
  ∃ k tail, cs = List.replicate k ' ' ++ tail ∧ tail.head? ≠ some ' '
  := by
  obtain ⟨front, tail, rfl, hfront, htail⟩ := exists_span (fun c => c = ' ') cs
  refine ⟨front.length, tail, ?_, ?_⟩
  · rw [← List.eq_replicate_of_mem (fun c hc => of_decide_eq_true (hfront c hc))]
  · intro hhead
    have hspace := htail ' ' hhead
    cases hspace

/-! ### Cursors -/

namespace Cursor

/-- The cursor stands in the column in front of the text. -/
structure At (c : Cursor) (rest : List Char) (column : Nat) : Prop where
  rest : c.rest = rest
  column : c.column = column

variable {c : Cursor} {passed rest : List Char} {column : Nat}

theorem moveTo_eq (h : c.rest = passed ++ rest) :
  c.moveTo rest =
    ⟨rest, c.index + byteCount passed, c.line, c.column + passed.length⟩
  := by
  simp [moveTo, h]

theorem At.moveTo (h : c.At (passed ++ rest) column) :
  (c.moveTo rest).At rest (column + passed.length)
  := by
  rw [moveTo_eq h.rest, h.column]
  exact ⟨rfl, rfl⟩

theorem At.skip (h : c.At (passed ++ rest) column) :
  (c.skip passed.length).At rest (column + passed.length)
  := by
  rw [Cursor.skip, h.rest, List.drop_left]
  apply h.moveTo

theorem At.skip_one {ch : Char} (h : c.At (ch :: rest) column) :
  (c.skip 1).At rest (column + 1)
  := by
  have hpassed : c.At ([ch] ++ rest) column := h
  apply hpassed.skip

theorem At.skipWhile {p : Char → Bool} (h : c.At (passed ++ rest) column)
    (hpassed : ∀ ch ∈ passed, p ch) (hrest : ∀ ch ∈ rest.head?, p ch = false) :
  (c.skipWhile p).At rest (column + passed.length)
  := by
  rw [Cursor.skipWhile, h.rest, dropWhile_span hpassed hrest]
  apply h.moveTo

theorem At.break? {b : Char} (h : c.At (b :: rest) column) (hb : isOwnBreak b) :
  ∃ next, c.break? = some (b, next) ∧ next.At rest 0
  := by
  refine ⟨c.nextLine 1, ?_, ?_, rfl⟩
  · simp only [isOwnBreak, Bool.or_eq_true, decide_eq_true_eq] at hb
    rcases hb with (rfl | rfl) | rfl <;> simp [Cursor.break?, h.rest, isBreak]
  · simp [nextLine, h.rest]

theorem At.break?_eq_none (h : c.At rest column) (hrest : ∀ ch ∈ rest.head?, isBreak ch = false) :
  c.break? = none
  := by
  cases rest with
  | nil => simp [Cursor.break?, h.rest]
  | cons ch rest =>
      have hch : isBreak ch = false := hrest ch rfl
      have hne : ∀ b, isBreak b → ch ≠ b := by
        rintro b hb rfl
        rw [hch] at hb
        cases hb
      have hreturn := hne '\r' rfl
      have hline := hne '\u2028' rfl
      have hparagraph := hne '\u2029' rfl
      simp [Cursor.break?, h.rest, hch, hreturn, hline, hparagraph]

theorem skipWhile_of_head? {p : Char → Bool} (h : ∀ ch ∈ c.rest.head?, p ch = false) :
  c.skipWhile p = c
  := by
  have hdrop : c.rest.dropWhile p = c.rest := dropWhile_span (List.forall_mem_nil _) h
  rw [Cursor.skipWhile, hdrop, moveTo_eq (List.nil_append c.rest).symm]
  rfl

theorem skipMark_of_head? (h : c.rest.head? ≠ some '\ufeff') :
  c.skipMark = c
  := by
  simp [Cursor.skipMark, h]

theorem skipComment_of_head? (h : c.rest.head? ≠ some '#') :
  c.skipComment = c
  := by
  simp [Cursor.skipComment, h]

/-- Documents are divided at the starts of lines only. -/
theorem At.atMarker (h : c.At rest column) (hcolumn : column ≠ 0) :
  c.atMarker = false
  := by
  simp [Cursor.atMarker, h.column, hcolumn]

end Cursor

/-! ### Gaps -/

open Cursor

variable {c : Cursor} {rest : List Char} {column fuel : Nat} {indent : Int}

/-- The text goes on with something that is no space, or it ends. -/
def Resumes (rest : List Char) : Prop := ∀ ch ∈ rest.head?, isSpace ch = false

theorem readGap_end (h : c.At rest column) (hrest : Resumes rest) (hfuel : 0 < fuel) (g : Gap) :
  readGap indent fuel g c = some (g, c)
  := by
  obtain ⟨fuel, rfl⟩ : ∃ n, fuel = n + 1 := ⟨fuel - 1, by omega⟩
  rw [readGap, h.break?_eq_none (fun ch hch => isBreak_of_not_isSpace (hrest ch hch)), h.rest]
  cases rest with
  | nil => rfl
  | cons ch rest => simp [isBlank_of_not_isSpace (hrest ch rfl)]

theorem readGap_space (h : c.At (' ' :: rest) column) (g : Gap) :
  readGap indent (fuel + 1) g c =
    readGap indent fuel (if g.broken then g else { g with blanks := g.blanks ++ [' '] }) (c.skip 1)
  := by
  have hnone : c.break? = none := by
    apply h.break?_eq_none
    intro ch hch
    obtain rfl := Option.some.inj hch
    rfl
  rw [readGap, hnone, h.rest]
  simp [isBlank]

/-- Spaces inside a line count as they are. -/
theorem readGap_spaces (n : Nat) (h : c.At (List.replicate n ' ' ++ rest) column)
    (hrest : Resumes rest) (hfuel : n < fuel) {g : Gap} (hg : g.broken = false) :
  ∃ c', readGap indent fuel g c =
    some ({ g with blanks := g.blanks ++ List.replicate n ' ' }, c') ∧ c'.At rest (column + n)
  := by
  induction n generalizing c column fuel g with
  | zero =>
      refine ⟨c, ?_, h⟩
      rw [readGap_end h hrest hfuel, List.replicate_zero, List.append_nil]
  | succ n ih =>
      obtain ⟨fuel, rfl⟩ : ∃ k, fuel = k + 1 := ⟨fuel - 1, by omega⟩
      rw [List.replicate_succ, List.cons_append] at h
      rw [readGap_space h]
      simp only [hg, Bool.false_eq_true, if_false]
      obtain ⟨c', hread, hc'⟩ := ih (g := { g with blanks := g.blanks ++ [' '] }) h.skip_one
        (Nat.lt_of_succ_lt_succ hfuel) hg
      refine ⟨c', ?_, ?_⟩
      · simpa [hg, List.replicate_succ] using hread
      · rw [show column + (n + 1) = column + 1 + n by omega]
        apply hc'

/-- Behind the end of a line spaces do not count. -/
theorem readGap_indentation (n : Nat) (h : c.At (List.replicate n ' ' ++ rest) column)
    (hrest : Resumes rest) (hfuel : n < fuel) {g : Gap} (hg : g.broken) :
  ∃ c', readGap indent fuel g c = some (g, c') ∧ c'.At rest (column + n)
  := by
  induction n generalizing c column fuel with
  | zero =>
      refine ⟨c, ?_, h⟩
      rw [readGap_end h hrest hfuel]
  | succ n ih =>
      obtain ⟨fuel, rfl⟩ : ∃ k, fuel = k + 1 := ⟨fuel - 1, by omega⟩
      rw [List.replicate_succ, List.cons_append] at h
      rw [readGap_space h, if_pos hg, show column + (n + 1) = column + 1 + n by omega]
      apply ih h.skip_one (Nat.lt_of_succ_lt_succ hfuel)

/-- The ends of further lines count, the indentation behind them does not. -/
theorem readGap_breaks {breaks : List Char} (hbreaks : ∀ b ∈ breaks, isOwnBreak b) (n : Nat)
    (h : c.At (breaks ++ List.replicate n ' ' ++ rest) 0) (hrest : Resumes rest)
    (hfuel : breaks.length + n < fuel) {g : Gap} (hg : g.broken) :
  ∃ c', readGap indent fuel g c = some ({ g with more := g.more ++ breaks }, c') ∧ c'.At rest n
  := by
  induction breaks generalizing c fuel g with
  | nil =>
      rw [List.nil_append] at h
      rw [List.length_nil, Nat.zero_add] at hfuel
      obtain ⟨c', hread, hc'⟩ := readGap_indentation n h hrest hfuel hg
      rw [Nat.zero_add] at hc'
      refine ⟨c', ?_, hc'⟩
      rw [hread, List.append_nil]
  | cons b breaks ih =>
      obtain ⟨fuel, rfl⟩ : ∃ k, fuel = k + 1 := ⟨fuel - 1, by omega⟩
      have hless : breaks.length + n < fuel := by
        rw [List.length_cons] at hfuel
        omega
      obtain ⟨hb, hbreaks⟩ := List.forall_mem_cons.1 hbreaks
      obtain ⟨next, hbreak, hnext⟩ := h.break? hb
      obtain ⟨c', hread, hc'⟩ := ih hbreaks (g := { g with more := g.more ++ [b] }) hnext hless hg
      refine ⟨c', ?_, hc'⟩
      rw [readGap, hbreak]
      simpa [hg] using hread

/-- The gap from the end of a line to the next word. -/
theorem readGap_lines {b : Char} {breaks : List Char} (hb : isOwnBreak b)
    (hbreaks : ∀ b ∈ breaks, isOwnBreak b) (n : Nat)
    (h : c.At (b :: breaks ++ List.replicate n ' ' ++ rest) column) (hrest : Resumes rest)
    (hfuel : breaks.length + n + 1 < fuel) :
  ∃ c', readGap indent fuel {} c = some (⟨[], true, [b], breaks⟩, c') ∧ c'.At rest n
  := by
  obtain ⟨fuel, rfl⟩ : ∃ k, fuel = k + 1 := ⟨fuel - 1, by omega⟩
  obtain ⟨next, hbreak, hnext⟩ := h.break? hb
  obtain ⟨c', hread, hc'⟩ := readGap_breaks hbreaks n hnext hrest (Nat.lt_of_succ_lt_succ hfuel)
    (g := ⟨[], true, [b], []⟩) rfl
  refine ⟨c', ?_, hc'⟩
  rw [readGap, hbreak]
  apply hread

end ServiceFlow.Yaml
