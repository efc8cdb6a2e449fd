import ServiceFlow.Proofs.Yaml.Lines

/-!
# Literal scalars

A literal text is written line by line, each line indented, below a header that says what becomes of
the ends of lines at its end.  Reading gives back the lines with their ends.
-/

namespace ServiceFlow.Yaml

variable {c : Cursor} {rest tail : List Char} {column fuel indent n : Nat}

/-! ### Empty lines -/

/-- Behind the indentation a line has something that is neither the end of a line nor a tab. -/
def LineGoesOn (rest : List Char) : Prop := ∀ ch ∈ rest.head?, isBreak ch = false ∧ ch ≠ '\t'

theorem Resumes.lineGoesOn (h : Resumes rest) :
  LineGoesOn rest
  := by
  intro ch hch
  refine ⟨isBreak_of_not_isSpace (h ch hch), ?_⟩
  rintro rfl
  cases h '\t' hch

theorem Resumes.head?_ne_space (h : Resumes rest) :
  rest.head? ≠ some ' '
  := by
  intro hhead
  cases h ' ' hhead

/-- The indentation of a line is read: as much as there may be, or up to what is no space. -/
theorem length_takeWhile_indentation {room : Nat} (hroom : n ≤ room)
    (hstop : n = room ∨ tail.head? ≠ some ' ') :
  (((List.replicate n ' ' ++ tail).take room).takeWhile (· = ' ')).length = n
  := by
  have hspaces : ∀ ch ∈ List.replicate n ' ', decide (ch = ' ') = true := by
    intro ch hch
    rw [List.eq_of_mem_replicate hch]
    rfl
  have hnone : (tail.take (room - n)).takeWhile (· = ' ') = [] := by
    rcases hstop with rfl | hhead
    · rw [Nat.sub_self, List.take_zero]
      rfl
    · cases tail with
      | nil => simp
      | cons ch tail =>
          have hch : ch ≠ ' ' := by
            rintro rfl
            apply hhead rfl
          cases room - n <;> simp [hch]
  rw [List.take_append, List.length_replicate, List.take_of_length_le (by simpa using hroom),
    List.takeWhile_append_of_pos hspaces, hnone, List.append_nil, List.length_replicate]

theorem Cursor.At.skip_indentation (h : c.At (List.replicate n ' ' ++ rest) 0) :
  (c.skip n).At rest n
  := by
  have hafter := h.skip
  rw [List.length_replicate, Nat.zero_add] at hafter
  apply hafter

/-- One line: its indentation, and its end if there is nothing else. -/
theorem blockBreaks_line (h : c.At (List.replicate n ' ' ++ tail) 0) (htab : tail.head? ≠ some '\t')
    (hindent : indent = 0 ∨ n ≤ indent)
    (hstop : (indent ≠ 0 ∧ n = indent) ∨ tail.head? ≠ some ' ') (widest : Nat)
    (breaks : List Char) :
  blockBreaks indent (fuel + 1) widest breaks c =
    (c.skip n).break?.elim (some (max widest n, breaks, c.skip n))
      (fun r => blockBreaks indent fuel (max widest n) (breaks ++ [r.1]) r.2)
  := by
  have hcount : ((c.rest.take (if indent = 0 then c.rest.length else indent - c.column)).takeWhile
      (· = ' ')).length = n := by
    rw [h.rest, h.column]
    apply length_takeWhile_indentation
    · split
      · simp
      · next hne => rcases hindent with hzero | hle <;> omega
    · rcases hstop with ⟨hne, heq⟩ | hhead
      · rw [if_neg hne]
        exact .inl heq
      · exact .inr hhead
  have hskip := h.skip_indentation
  rw [blockBreaks]
  simp only [hcount, hskip.column, hskip.rest]
  rw [if_neg (by simp [htab])]
  cases (c.skip n).break? <;> rfl

/-- Empty lines, and the indentation of the line behind them. -/
theorem blockBreaks_lines {more : List Char} (hmore : ∀ b ∈ more, isOwnBreak b)
    (h : c.At (more ++ (List.replicate n ' ' ++ tail)) 0) (htail : LineGoesOn tail)
    (hindent : indent = 0 ∨ n ≤ indent)
    (hstop : (indent ≠ 0 ∧ n = indent) ∨ tail.head? ≠ some ' ') (hfuel : more.length < fuel)
    (widest : Nat) (breaks : List Char) :
  ∃ c', blockBreaks indent fuel widest breaks c = some (max widest n, breaks ++ more, c') ∧
    c'.At tail n
  := by
  obtain ⟨fuel, rfl⟩ : ∃ k, fuel = k + 1 := ⟨fuel - 1, by omega⟩
  induction more generalizing c fuel widest breaks with
  | nil =>
      rw [List.nil_append] at h
      have htab : tail.head? ≠ some '\t' := fun hhead => (htail '\t' hhead).2 rfl
      have hskip := h.skip_indentation
      refine ⟨c.skip n, ?_, hskip⟩
      rw [blockBreaks_line h htab hindent hstop,
        hskip.break?_eq_none (fun ch hch => (htail ch hch).1), List.append_nil]
      rfl
  | cons b more ih =>
      obtain ⟨hb, hmore⟩ := List.forall_mem_cons.1 hmore
      obtain ⟨fuel, rfl⟩ : ∃ k, fuel = k + 1 := ⟨fuel - 1, by rw [List.length_cons] at hfuel; omega⟩
      have hspace : b ≠ ' ' ∧ b ≠ '\t' := by
        constructor
        · rintro rfl
          cases hb
        · rintro rfl
          cases hb
      have hline : c.At
          (List.replicate 0 ' ' ++ (b :: more ++ (List.replicate n ' ' ++ tail))) 0 := h
      obtain ⟨next, hbreak, hnext⟩ := hline.skip_indentation.break? hb
      obtain ⟨c', hread, hc'⟩ := ih hmore hnext (max widest 0) (breaks ++ [b]) fuel
        (Nat.lt_of_succ_lt_succ hfuel)
      refine ⟨c', ?_, hc'⟩
      rw [blockBreaks_line hline (by simpa using hspace.2) (.inr (Nat.zero_le _))
        (.inr (by simpa using hspace.1)), hbreak]
      simpa using hread

/-! ### Lines -/

/-- The block has the given text: its last line ends the text up to ends of lines. -/
structure BlockText.Holds (t : BlockText) (cs : List Char) : Prop where
  all : t.text ++ t.lineEnd ++ t.empties = cs
  last : ∀ ch ∈ t.text.getLast?, isBreak ch = false
  lineEnd : (t.text = [] ∧ t.lineEnd = []) ∨ ∃ b, t.lineEnd = [b]
  breaks : ∀ b ∈ t.lineEnd ++ t.empties, isBreak b

theorem BlockText.Holds.add {t : BlockText} {before line breaks : List Char} {b : Char}
    (ht : t.Holds before) (hline : line ≠ []) (hchars : ∀ ch ∈ line, isBreak ch = false)
    (hbreaks : ∀ d ∈ b :: breaks, isOwnBreak d) (blank : Bool) :
  Holds ⟨t.text ++ t.lineEnd ++ t.empties ++ line, [b], breaks, blank⟩
    (before ++ (line ++ b :: breaks))
  := by
  constructor
  · simp [← ht.all]
  · intro ch hch
    rw [List.getLast?_append, List.getLast?_eq_some_getLast hline, Option.some_or] at hch
    rw [← Option.some.inj hch]
    apply hchars _ (List.getLast_mem hline)
  · exact .inr ⟨b, rfl⟩
  · intro d hd
    apply isBreak_of_isOwnBreak (hbreaks d hd)

/-- A text of whole lines, or its end from some place on. -/
structure WholeLines (cs : List Char) : Prop where
  chars : ∀ ch ∈ cs, isPrintable ch
  last : ∀ ch ∈ cs.getLast?, isBreak ch

theorem WholeLines.of_append {a b : List Char} (h : WholeLines (a ++ b)) :
  WholeLines b
  := by
  constructor
  · intro ch hch
    apply h.chars ch (List.mem_append_right a hch)
  · intro ch hch
    apply h.last ch
    rw [List.getLast?_append, Option.mem_def.1 hch, Option.some_or]
    rfl

/-- Whole lines begin with a line and ends of lines behind it. -/
theorem WholeLines.exists_line {cs : List Char} (h : WholeLines cs) (hne : cs ≠ [])
    (hhead : ∀ ch ∈ cs.head?, isBreak ch = false) :
  ∃ line b breaks tail, cs = line ++ (b :: breaks ++ tail) ∧ line ≠ [] ∧
    (∀ ch ∈ line, isBreak ch = false) ∧ (∀ d ∈ b :: breaks, isOwnBreak d) ∧
    ∀ ch ∈ tail.head?, isBreak ch = false
  := by
  obtain ⟨line, tail, rfl, hline, htail⟩ := exists_span (fun ch => !isBreak ch) cs
  have hchars : ∀ ch ∈ line, isBreak ch = false := fun ch hch => by simpa using hline ch hch
  cases tail with
  | nil =>
      rw [List.append_nil] at h hne
      have hlast := h.last _ (List.getLast?_eq_some_getLast hne)
      rw [hchars _ (List.getLast_mem hne)] at hlast
      cases hlast
  | cons b tail =>
      have hb : isBreak b := by simpa using htail b rfl
      obtain ⟨breaks, tail, rfl, hbreaks, hgoes⟩ := exists_span isBreak tail
      refine ⟨line, b, breaks, tail, rfl, ?_, hchars, ?_, hgoes⟩
      · rintro rfl
        rw [hhead b rfl] at hb
        cases hb
      · intro d hd
        apply isOwnBreak_of_isPrintable (h.of_append.chars d (List.mem_append_left tail hd))
        rcases List.mem_cons.1 hd with rfl | hd
        · apply hb
        · apply hbreaks d hd

theorem WholeLines.lineGoesOn {ch : Char} (h : WholeLines (ch :: tail)) (hch : isBreak ch = false)
    (pre after : List Char) :
  LineGoesOn (indentLines pre false (ch :: tail) ++ after)
  := by
  intro d hd
  obtain rfl : ch = d := by simpa [indentLines, hch] using hd
  refine ⟨hch, ?_⟩
  rintro rfl
  cases h.chars '\t' List.mem_cons_self

/-- A line of a literal scalar with the empty lines behind it. -/
theorem blockLines_line {line tail breaks : List Char} {b : Char}
    (hchars : ∀ ch ∈ line, isBreak ch = false) (hbreaks : ∀ d ∈ b :: breaks, isOwnBreak d)
    (h : c.At (line ++ (b :: breaks ++ (List.replicate n ' ' ++ tail))) indent)
    (hindent : indent ≠ 0) (htail : LineGoesOn tail) (hn : n ≤ indent)
    (hstop : n = indent ∨ tail.head? ≠ some ' ') (fuel : Nat) (t : BlockText) :
  ∃ c' blank, blockLines false indent (fuel + 1) t c =
    blockLines false indent fuel ⟨t.text ++ t.lineEnd ++ t.empties ++ line, [b], breaks, blank⟩ c' ∧
    c'.At tail n
  := by
  obtain ⟨hb, hbreaks⟩ := List.forall_mem_cons.1 hbreaks
  rw [List.cons_append] at h
  have hspan : ∀ ch ∈ line, (!isBreak ch) = true := by simpa using hchars
  have hend : (!isBreak b) = false := by simp [isBreak_of_isOwnBreak hb]
  have htake : c.rest.takeWhile (fun ch => !isBreak ch) = line := by
    rw [h.rest, List.takeWhile_append_of_pos hspan,
      List.takeWhile_cons_of_neg (by simp [hend]), List.append_nil]
  have hdrop : c.rest.dropWhile (fun ch => !isBreak ch) =
      b :: (breaks ++ (List.replicate n ' ' ++ tail)) := by
    rw [h.rest, List.dropWhile_append_of_pos hspan,
      List.dropWhile_cons_of_neg (by simp [hend])]
  have hne : c.rest ≠ [] := by simp [h.rest]
  obtain ⟨next, hbreak, hnext⟩ := h.moveTo.break? hb
  have hroom : breaks.length < next.rest.length + 1 := by
    rw [hnext.rest, List.length_append]
    omega
  obtain ⟨c', hread, hc'⟩ := blockBreaks_lines hbreaks hnext htail (.inr hn)
    (hstop.imp_left (fun heq => ⟨hindent, heq⟩)) hroom 0 []
  refine ⟨c', line.head?.elim false isBlank, ?_, hc'⟩
  rw [blockLines]
  simp only [htake, hdrop, hbreak, hread, h.column]
  simp [hne, BlockText.add]

theorem blockLines_text {cs : List Char} (hcs : WholeLines cs) (hne : cs ≠ [])
    (hhead : ∀ ch ∈ cs.head?, isBreak ch = false)
    (h : c.At (indentLines (List.replicate indent ' ') false cs ++ (List.replicate n ' ' ++ rest))
      indent)
    (hindent : indent ≠ 0) (hn : n < indent) (hrest : Resumes rest) (hfuel : cs.length < fuel)
    {t : BlockText} {before : List Char} (ht : t.Holds before) :
  ∃ t' c', blockLines false indent fuel t c = some (t', c') ∧ c'.At rest n ∧ t'.Holds (before ++ cs)
  := by
  induction hlength : cs.length using Nat.strongRecOn generalizing cs c fuel t before with
  | ind length ih =>
      obtain ⟨line, b, breaks, tail, rfl, hline, hchars, hbreaks, hgoes⟩ :=
        hcs.exists_line hne hhead
      obtain ⟨fuel, rfl⟩ : ∃ k, fuel = k + 1 := ⟨fuel - 1, by omega⟩
      have hall : ∀ d ∈ breaks, isBreak d :=
        fun d hd => isBreak_of_isOwnBreak (hbreaks d (List.mem_cons_of_mem b hd))
      rw [indentLines_append _ hchars,
        indentLines_breaks _ (isBreak_of_isOwnBreak (hbreaks b List.mem_cons_self)) hall,
        List.append_assoc, List.append_assoc] at h
      simp only [List.length_append, List.length_cons] at hfuel hlength
      cases tail with
      | nil =>
          obtain ⟨c', blank, hread, hc'⟩ := blockLines_line hchars hbreaks h hindent
            hrest.lineGoesOn (Nat.le_of_lt hn) (.inr hrest.head?_ne_space) fuel t
          refine ⟨⟨t.text ++ t.lineEnd ++ t.empties ++ line, [b], breaks, blank⟩, c', ?_, hc', ?_⟩
          · obtain ⟨fuel, rfl⟩ : ∃ k, fuel = k + 1 := ⟨fuel - 1, by
              have hpos := List.length_pos_iff.2 hline
              omega⟩
            rw [hread, blockLines, hc'.column, if_neg (by simp; omega)]
          · rw [List.append_nil]
            apply ht.add hline hchars hbreaks blank
      | cons ch tail =>
          rw [indentLines_start _ (List.cons_ne_nil ch tail) hgoes, List.append_assoc] at h
          obtain ⟨c', blank, hread, hc'⟩ := blockLines_line hchars hbreaks h hindent
            (hcs.of_append.of_append.lineGoesOn (hgoes ch rfl) _ _) (Nat.le_refl indent) (.inl rfl)
            fuel t
          have hless : (ch :: tail).length < fuel := by omega
          obtain ⟨t', c'', hlines, hc'', ht'⟩ := ih (ch :: tail).length (by omega)
            hcs.of_append.of_append (List.cons_ne_nil ch tail) hgoes hc' hless
            (ht.add hline hchars hbreaks blank) rfl
          refine ⟨t', c'', ?_, hc'', ?_⟩
          · rw [hread, hlines]
          · simpa using ht'

/-! ### The end of a literal scalar -/

/-- The ends of lines at the end of a text. -/
theorem exists_breaks (cs : List Char) :
  ∃ text breaks, cs = text ++ breaks ∧ (∀ ch ∈ text.getLast?, isBreak ch = false) ∧
    ∀ b ∈ breaks, isBreak b
  := by
  obtain ⟨front, tail, hcs, hfront, htail⟩ := exists_span isBreak cs.reverse
  refine ⟨tail.reverse, front.reverse, ?_, ?_, ?_⟩
  · rw [← List.reverse_append, ← hcs, List.reverse_reverse]
  · rw [List.getLast?_reverse]
    apply htail
  · intro b hb
    apply hfront b (List.mem_reverse.1 hb)

/-- They are determined by the text. -/
theorem append_breaks_inj {text text' breaks breaks' : List Char}
    (h : text ++ breaks = text' ++ breaks') (hlast : ∀ ch ∈ text.getLast?, isBreak ch = false)
    (hlast' : ∀ ch ∈ text'.getLast?, isBreak ch = false) (hbreaks : ∀ b ∈ breaks, isBreak b)
    (hbreaks' : ∀ b ∈ breaks', isBreak b) :
  text = text' ∧ breaks = breaks'
  := by
  have hdrop : ∀ {front tail : List Char}, (∀ ch ∈ front.getLast?, isBreak ch = false) →
      (∀ b ∈ tail, isBreak b) → (front ++ tail).reverse.dropWhile isBreak = front.reverse := by
    intro front tail hfront htail
    rw [List.reverse_append]
    apply dropWhile_span
    · simpa using htail
    · simpa using hfront
  have htext : text = text' := by
    rw [← List.reverse_inj, ← hdrop hlast hbreaks, h, hdrop hlast' hbreaks']
  subst htext
  exact ⟨rfl, List.append_cancel_left h⟩

namespace Chomping

/-- The chomping that keeps the given ends of lines behind a text. -/
def ofEnd (text breaks : List Char) : Chomping :=
  if breaks.isEmpty then .strip
  else if breaks.length = 1 && !text.isEmpty then .clip
  else .keep

def marks : Chomping → List Char
  | .strip => ['-']
  | .clip => []
  | .keep => ['+']

end Chomping

/-- The text that is left of a block. -/
def BlockText.chomped (t : BlockText) : Chomping → List Char
  | .strip => t.text
  | .clip => t.text ++ t.lineEnd
  | .keep => t.text ++ (t.lineEnd ++ t.empties)

/-- The end of the last line of a literal scalar, unless it is part of the text. -/
def closing (cs : List Char) : List Char := if cs.getLast?.elim false isBreak then [] else ['\n']

theorem closing_eq_nil {text breaks : List Char} (hbreaks : ∀ b ∈ breaks, isBreak b)
    (hne : breaks ≠ []) :
  closing (text ++ breaks) = []
  := by
  have hlast := hbreaks _ (List.getLast_mem hne)
  simp [closing, List.getLast?_append, List.getLast?_eq_some_getLast hne, hlast]

/-- What is left of a block with a text and the end of its last line is the text. -/
theorem BlockText.Holds.chomped {t : BlockText} {text breaks : List Char}
    (hlast : ∀ ch ∈ text.getLast?, isBreak ch = false) (hbreaks : ∀ b ∈ breaks, isBreak b)
    (ht : t.Holds (text ++ breaks ++ closing (text ++ breaks))) :
  t.chomped (Chomping.ofEnd text breaks) = text ++ breaks
  := by
  have hclosing : ∀ b ∈ breaks ++ closing (text ++ breaks), isBreak b := by
    intro b hb
    rcases List.mem_append.1 hb with hb | hb
    · apply hbreaks b hb
    · rw [Yaml.closing] at hb
      split at hb
      · cases hb
      · rw [List.mem_singleton.1 hb]
        rfl
  have hall := ht.all
  rw [List.append_assoc, List.append_assoc] at hall
  obtain ⟨htext, hends⟩ := append_breaks_inj hall ht.last hlast ht.breaks hclosing
  by_cases hnil : breaks = []
  · subst hnil
    simp [Chomping.ofEnd, BlockText.chomped, htext]
  rw [closing_eq_nil hbreaks hnil, List.append_nil] at hends
  by_cases hclip : breaks.length = 1 ∧ text ≠ []
  · obtain ⟨b, rfl⟩ := List.length_eq_one_iff.1 hclip.1
    have hend : t.lineEnd = [b] := by
      rcases ht.lineEnd with ⟨hempty, -⟩ | ⟨d, hd⟩
      · exact absurd (htext ▸ hempty) hclip.2
      · rw [hd] at hends
        rw [hd, (List.cons_eq_cons.1 hends).1]
    simp [Chomping.ofEnd, BlockText.chomped, hclip.2, htext, hend]
  · have hkeep : Chomping.ofEnd text breaks = .keep := by
      rw [Chomping.ofEnd, if_neg (by simpa using hnil), if_neg (by simpa using hclip)]
    rw [hkeep, BlockText.chomped, htext, hends]

/-! ### The header of a literal scalar -/

/-- The text begins with a space or with the end of a line. -/
def opensWithSpace (cs : List Char) : Bool := cs.head?.elim false (fun c => c = ' ' || isBreak c)

theorem opensWithSpace_of_break {b : Char} (hb : isBreak b) (cs : List Char) :
  opensWithSpace (b :: cs) = true
  := by
  simp [opensWithSpace, hb]

theorem literalMarks_eq {text breaks : List Char}
    (hlast : ∀ ch ∈ text.getLast?, isBreak ch = false) (hbreaks : ∀ b ∈ breaks, isBreak b) :
  literalMarks (text ++ breaks) =
    (if opensWithSpace (text ++ breaks) then ['2'] else []) ++ (Chomping.ofEnd text breaks).marks
  := by
  rw [literalMarks, opensWithSpace, List.reverse_append]
  congr 1
  rw [← List.head?_reverse] at hlast
  have hempty (ds : List Char) : ds.isEmpty = ds.reverse.isEmpty := List.isEmpty_reverse.symm
  rw [Chomping.ofEnd, ← List.length_reverse, hempty text, hempty breaks]
  have hends : ∀ b ∈ breaks.reverse, isBreak b := by simpa using hbreaks
  generalize breaks.reverse = ends at hends
  generalize text.reverse = front at hlast
  match ends with
  | [] =>
      cases front with
      | nil => rfl
      | cons ch front => simp [hlast ch rfl, Chomping.marks]
  | [b] =>
      cases front with
      | nil => simp [hends, Chomping.marks]
      | cons ch front => simp [hends, hlast ch rfl, Chomping.marks]
  | b :: d :: ends => simp [hends, Chomping.marks]

theorem isPrintable_literalMarks (cs : List Char) :
  ∀ c ∈ literalMarks cs, isPrintable c
  := by
  obtain ⟨text, breaks, rfl, hlast, hbreaks⟩ := exists_breaks cs
  rw [literalMarks_eq hlast hbreaks]
  cases opensWithSpace (text ++ breaks) <;> cases Chomping.ofEnd text breaks <;>
    simp [Chomping.marks, isPrintable]

/-- The header says whether the indentation is given and which chomping there is. -/
theorem blockHeader?_marks (given : Bool) (chomping : Chomping) (tail : List Char) :
  blockHeader? ((if given then ['2'] else []) ++ chomping.marks ++ '\n' :: tail) =
    some (if given then some 2 else none, chomping, '\n' :: tail)
  := by
  cases given <;> cases chomping <;> rfl

/-! ### Literal scalars -/

theorem indentLines_closing (pre cs : List Char) (start : Bool) :
  indentLines pre start (cs ++ closing cs) = indentLines pre start cs ++ closing cs
  := by
  have hbreak : ∀ (ds : List Char) (start : Bool),
      indentLines pre start (ds ++ ['\n']) = indentLines pre start ds ++ ['\n'] := by
    intro ds
    induction ds with
    | nil =>
        intro start
        rfl
    | cons d ds ih =>
        intro start
        rw [List.cons_append, indentLines, indentLines, ih, ih]
        split <;> simp
  rw [closing]
  split
  · rw [List.append_nil, List.append_nil]
  · apply hbreak

/-- A text that is written as a literal scalar is one of whole lines with the end of the last. -/
theorem wholeLines_closing {cs : List Char} (h : literalAllowed cs) :
  WholeLines (cs ++ closing cs)
  := by
  simp only [literalAllowed, needsEscapes, Bool.and_eq_true, Bool.not_eq_true',
    Bool.or_eq_false_iff, List.any_eq_false] at h
  constructor
  · intro ch hch
    rcases List.mem_append.1 hch with hch | hch
    · simpa using h.1.1 ch hch
    · rw [closing] at hch
      split at hch
      · cases hch
      · rw [List.mem_singleton.1 hch]
        rfl
  · intro ch hch
    rw [closing] at hch
    split at hch
    · next hbreak =>
        rw [List.append_nil] at hch
        rw [Option.mem_def.1 hch] at hbreak
        apply hbreak
    · rw [List.getLast?_append] at hch
      rw [← Option.some.inj hch]
      rfl

/-- A block scalar is read below its header: empty lines first, then the lines. -/
theorem readBlock_header {given : Bool} {chomping : Chomping} (outer : Nat)
    (h : c.At ('|' :: ((if given then ['2'] else []) ++ chomping.marks) ++ '\n' :: tail) column) :
  ∃ next, next.At tail 0 ∧ ∀ {widest empties c' t c''},
    blockBreaks (if given then outer + 2 else 0) (next.rest.length + 1) 0 [] next =
      some (widest, empties, c') →
    blockLines false (if given then outer + 2 else max (max widest (outer + 1)) 1)
      (c'.rest.length + 1) { empties } c' = some (t, c'') →
    readBlock false outer c = some (String.ofList (BlockText.chomped t chomping), c'')
  := by
  have hblank := h.moveTo.skipWhile (p := isBlank) (List.forall_mem_nil _) (by simp [isBlank])
  obtain ⟨next, hbreak, hnext⟩ := hblank.break? rfl
  have hheader := blockHeader?_marks given chomping tail
  have hcomment : ((c.moveTo ('\n' :: tail)).skipWhile isBlank).skipComment =
      (c.moveTo ('\n' :: tail)).skipWhile isBlank := by
    simp [Cursor.skipComment, hblank.rest]
  refine ⟨next, hnext, ?_⟩
  intro widest empties c' t c'' hbreaks hlines
  rw [readBlock, h.rest, List.cons_append, List.drop_one, List.tail_cons, hheader]
  cases given with
  | false =>
      simp only [Bool.false_eq_true, if_false, Nat.max_assoc, Nat.le_add_left,
        Nat.max_eq_left] at hbreaks hlines
      cases chomping <;> simp [hcomment, hbreak, hbreaks, hlines, BlockText.chomped]
  | true =>
      simp only [if_true] at hbreaks hlines
      cases chomping <;> simp [hcomment, hbreak, hbreaks, hlines, BlockText.chomped]

/-- The empty lines at the start of a literal scalar.  Where the indentation is not given, the first
line that is not empty shows it. -/
theorem blockBreaks_start {breaks : List Char} {ch : Char}
    (hcs : WholeLines (breaks ++ ch :: tail)) (hown : ∀ b ∈ breaks, isOwnBreak b)
    (hch : isBreak ch = false)
    (h : c.At (breaks ++ (List.replicate indent ' ' ++
      (indentLines (List.replicate indent ' ') false (ch :: tail) ++ rest))) 0)
    (hindent : indent ≠ 0) (hfuel : breaks.length < fuel) :
  ∃ c', blockBreaks (if opensWithSpace (breaks ++ ch :: tail) then indent else 0) fuel 0 [] c =
      some (indent, breaks, c') ∧
    c'.At (indentLines (List.replicate indent ' ') false (ch :: tail) ++ rest) indent
  := by
  have hgoes := hcs.of_append.lineGoesOn hch (List.replicate indent ' ') rest
  by_cases hopens : opensWithSpace (breaks ++ ch :: tail)
  · rw [if_pos hopens]
    obtain ⟨c', hread, hc'⟩ := blockBreaks_lines hown h hgoes (.inr (Nat.le_refl indent))
      (.inl ⟨hindent, rfl⟩) hfuel 0 []
    rw [Nat.zero_max, List.nil_append] at hread
    exact ⟨c', hread, hc'⟩
  · have hhead : (indentLines (List.replicate indent ' ') false (ch :: tail) ++ rest).head? ≠
        some ' ' := by
      cases breaks with
      | nil =>
          intro hspace
          obtain rfl : ch = ' ' := by simpa [indentLines, hch] using hspace
          apply hopens rfl
      | cons b breaks =>
          have hb := isBreak_of_isOwnBreak (hown b List.mem_cons_self)
          exact absurd (opensWithSpace_of_break hb _) hopens
    rw [if_neg hopens]
    obtain ⟨c', hread, hc'⟩ := blockBreaks_lines hown h hgoes (.inl rfl) (.inr hhead) hfuel 0 []
    rw [Nat.zero_max, List.nil_append] at hread
    exact ⟨c', hread, hc'⟩

/-- The lines of a literal scalar, with empty lines in front of the first one. -/
theorem readBlock_lines {cs : List Char} {chomping : Chomping} {outer : Nat}
    (hcs : WholeLines cs) (hne : cs ≠ [])
    (h : c.At ('|' :: ((if opensWithSpace cs then ['2'] else []) ++ chomping.marks) ++
      '\n' :: (indentLines (List.replicate (outer + 2) ' ') true cs ++
        (List.replicate n ' ' ++ rest))) column)
    (hn : n ≤ outer) (hrest : Resumes rest) :
  ∃ (t : BlockText) (c' : Cursor),
    readBlock false outer c = some (String.ofList (t.chomped chomping), c') ∧ c'.At rest n ∧
      t.Holds cs
  := by
  obtain ⟨next, hnext, hread⟩ := readBlock_header outer h
  obtain ⟨breaks, tail, rfl, hbreaks, htail⟩ := exists_span isBreak cs
  have hown : ∀ b ∈ breaks, isOwnBreak b := fun b hb =>
    isOwnBreak_of_isPrintable (hcs.chars b (List.mem_append_left tail hb)) (hbreaks b hb)
  rw [indentLines_breaks_start _ hbreaks, List.append_assoc] at hnext
  have hroom : breaks.length < next.rest.length + 1 := by
    rw [hnext.rest, List.length_append]
    omega
  have hempties : BlockText.Holds { empties := breaks } breaks :=
    ⟨rfl, by simp, .inl ⟨rfl, rfl⟩, hbreaks⟩
  cases tail with
  | nil =>
      have hopens : opensWithSpace (breaks ++ []) = true := by
        cases breaks with
        | nil => exact absurd rfl hne
        | cons b breaks => apply opensWithSpace_of_break (hbreaks b List.mem_cons_self)
      rw [hopens] at hread
      obtain ⟨c', hskip, hc'⟩ := blockBreaks_lines hown hnext hrest.lineGoesOn
        (.inr (Nat.le_add_right_of_le hn)) (.inr hrest.head?_ne_space) hroom 0 []
      refine ⟨{ empties := breaks }, c', ?_, hc', ?_⟩
      · apply hread hskip
        rw [blockLines, hc'.column, if_neg (by simp; omega)]
        rfl
      · rw [List.append_nil]
        apply hempties
  | cons ch tail =>
      rw [indentLines_start _ (List.cons_ne_nil ch tail) htail, List.append_assoc] at hnext
      obtain ⟨c', hskip, hc'⟩ := blockBreaks_start hcs hown (htail ch rfl) hnext
        (Nat.succ_ne_zero _) hroom
      have hless : (ch :: tail).length < c'.rest.length + 1 := by
        rw [hc'.rest, List.length_append]
        have hle := length_le_indentLines (List.replicate (outer + 2) ' ') (ch :: tail) false
        omega
      obtain ⟨t, c'', hlines, hc'', ht⟩ := blockLines_text hcs.of_append (List.cons_ne_nil ch tail)
        htail hc' (Nat.succ_ne_zero _) (Nat.lt_add_right 1 (Nat.lt_succ_of_le hn)) hrest hless
        hempties
      refine ⟨t, c'', hread hskip ?_, hc'', ht⟩
      rw [← hlines]
      congr 1
      split
      · rfl
      · omega

/-- A text that is written as a literal scalar is read back. -/
theorem readBlock_literal {cs : List Char} {outer : Nat} (hcs : literalAllowed cs) (hne : cs ≠ [])
    (h : c.At (scalarText (List.replicate (outer + 2) ' ') .literal cs ++
      (List.replicate n ' ' ++ rest)) column)
    (hn : n ≤ outer) (hrest : Resumes rest) :
  ∃ c', readBlock false outer c = some (String.ofList cs, c') ∧ c'.At rest n
  := by
  obtain ⟨text, breaks, rfl, hlast, hbreaks⟩ := exists_breaks cs
  have hopens : opensWithSpace (text ++ breaks) =
      opensWithSpace (text ++ breaks ++ closing (text ++ breaks)) := by
    cases hcs : text ++ breaks with
    | nil => exact absurd hcs hne
    | cons ch cs => rfl
  have hwritten : scalarText (List.replicate (outer + 2) ' ') .literal (text ++ breaks) =
      '|' :: (literalMarks (text ++ breaks)) ++ '\n' ::
        (indentLines (List.replicate (outer + 2) ' ') true (text ++ breaks) ++
          closing (text ++ breaks)) := by
    simp [scalarText, closing]
  rw [hwritten, literalMarks_eq hlast hbreaks, ← indentLines_closing, hopens] at h
  obtain ⟨t, c', hread, hc', ht⟩ := readBlock_lines (wholeLines_closing hcs)
    (List.append_ne_nil_of_left_ne_nil hne _) (by simpa using h) hn hrest
  refine ⟨c', ?_, hc'⟩
  rw [hread, ht.chomped hlast hbreaks]

end ServiceFlow.Yaml
