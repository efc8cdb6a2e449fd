import ServiceFlow.Proofs.Yaml.Lines
import ServiceFlow.Proofs.Yaml.Plain
import ServiceFlow.Proofs.Yaml.Quoted

/-!
# Single-quoted scalars

Between single quotes a quote is doubled.  Lines are indented, and an end of a line stands for
itself, but for the usual one, which would count as a space.
-/

namespace ServiceFlow.Yaml

/-! ### Doubled quotes -/

/-- A text with every single quote doubled. -/
def doubled (cs : List Char) : List Char :=
  cs.flatMap (fun c => if c = '\x27' then ['\x27', '\x27'] else [c])

theorem singleWord_cons {c : Char} (hc : c ≠ '\x27') (rest : List Char) :
  singleWord (c :: rest) =
    if isSpace c then ([], c :: rest) else (c :: (singleWord rest).1, (singleWord rest).2)
  := by
  rw [singleWord]
  · simp [hc]
  · intro rest heq
    simp_all

theorem spells_doubled {word : List Char} (hword : ∀ c ∈ word, isSpace c = false) :
  Spells false (doubled word) word
  := by
  intro behind hbehind
  apply congrArg some
  induction word with
  | nil =>
      rcases hbehind with hspace | ⟨rest, rfl⟩
      · cases behind with
        | nil => cases hspace
        | cons ch behind =>
            have hch : isSpace ch := hspace
            have hquote : ch ≠ '\x27' := by
              rintro rfl
              cases hch
            simp [doubled, singleWord_cons hquote, hch]
      · simp [doubled, singleWord, quote]
  | cons c word ih =>
      obtain ⟨hc, hword⟩ := List.forall_mem_cons.1 hword
      have hread : singleWord (doubled word ++ behind) = (word, behind) := ih hword
      by_cases hquote : c = '\x27'
      · have hdoubled : doubled (c :: word) ++ behind =
            '\x27' :: '\x27' :: (doubled word ++ behind) := by
          simp [doubled, hquote]
        rw [hdoubled, singleWord, hread, hquote]
      · have hdoubled : doubled (c :: word) ++ behind = c :: (doubled word ++ behind) := by
          simp [doubled, hquote]
        simp [hdoubled, singleWord_cons hquote, hc, hread]

theorem doubled_append (cs ds : List Char) :
  doubled (cs ++ ds) = doubled cs ++ doubled ds
  := List.flatMap_append

/-- Where there is no quote, nothing is doubled. -/
theorem doubled_eq_self {cs : List Char} (h : ∀ c ∈ cs, isSpace c) :
  doubled cs = cs
  := by
  induction cs with
  | nil => rfl
  | cons c cs ih =>
      obtain ⟨hc, hcs⟩ := List.forall_mem_cons.1 h
      have hquote : c ≠ '\x27' := by
        rintro rfl
        cases hc
      have hrest := ih hcs
      rw [doubled] at hrest
      simp [doubled, hquote, hrest]

theorem mem_of_mem_doubled {cs : List Char} {c : Char} (h : c ∈ doubled cs) :
  c ∈ cs
  := by
  obtain ⟨d, hd, hc⟩ := List.mem_flatMap.1 h
  by_cases hquote : d = '\x27'
  · simp only [hquote, if_true, List.mem_cons, List.not_mem_nil, or_false, or_self] at hc
    rw [hc, ← hquote]
    apply hd
  · rw [if_neg hquote, List.mem_singleton] at hc
    rw [hc]
    apply hd

theorem head?_doubled (cs : List Char) :
  (doubled cs).head? = cs.head?
  := by
  cases cs with
  | nil => rfl
  | cons c cs => by_cases hquote : c = '\x27' <;> simp [doubled, hquote]

/-- A text that may be written between single quotes, or the end of one from some place on. -/
structure SingleText (cs : List Char) : Prop where
  chars : ∀ c ∈ cs, isPrintable c ∧ c ≠ '\n'
  space : ∀ a b, cs = a ++ ' ' :: b → ∀ d ∈ b.head?, isBreak d = false
  line : ∀ a c b, cs = a ++ c :: b → isBreak c → b.head? ≠ some ' '

theorem SingleText.of_append {a b : List Char} (h : SingleText (a ++ b)) :
  SingleText b
  := by
  constructor
  · intro c hc
    apply h.chars c (List.mem_append_right a hc)
  · intro x y hy
    apply h.space (a ++ x) y
    rw [hy, List.append_assoc]
  · intro x c y hy
    apply h.line (a ++ x) c y
    rw [hy, List.append_assoc]

/-- Only spaces and ends of lines are space. -/
theorem SingleText.resumes {cs : List Char} (h : SingleText cs) (hspace : cs.head? ≠ some ' ')
    (hbreak : ∀ d ∈ cs.head?, isBreak d = false) :
  Resumes cs
  := by
  intro d hd
  have hprint := (h.chars d (List.mem_of_head? hd)).1
  rw [isSpace, hbreak d hd, Bool.or_false, Bool.eq_false_iff]
  intro hblank
  rw [(isBlank_iff_of_isPrintable hprint).1 hblank] at hd
  apply hspace hd

theorem SingleText.resumes_of_spaces {k : Nat} {tail : List Char}
    (h : SingleText (List.replicate (k + 1) ' ' ++ tail)) (hhead : tail.head? ≠ some ' ') :
  Resumes tail
  := by
  apply h.of_append.resumes hhead
  apply h.space (List.replicate k ' ')
  rw [List.replicate_succ', List.append_assoc, List.singleton_append]

theorem SingleText.resumes_of_breaks {breaks tail : List Char} (h : SingleText (breaks ++ tail))
    (hne : breaks ≠ []) (hbreaks : ∀ b ∈ breaks, isBreak b)
    (hhead : ∀ c ∈ tail.head?, isBreak c = false) :
  Resumes tail
  := by
  apply h.of_append.resumes _ hhead
  apply h.line breaks.dropLast (breaks.getLast hne) tail
  · rw [← List.singleton_append, ← List.append_assoc, List.dropLast_concat_getLast]
  · apply hbreaks _ (List.getLast_mem hne)

theorem singleText_of_singleQuotedAllowed {cs : List Char} (h : singleQuotedAllowed cs)
    (hlines : cs.contains '\n' = false) :
  SingleText cs
  := by
  simp only [singleQuotedAllowed, needsEscapes, Bool.and_eq_true, Bool.not_eq_true',
    Bool.or_eq_false_iff] at h
  obtain ⟨⟨hprint, hspace⟩, hline⟩ := h
  constructor
  · intro c hc
    constructor
    · simpa using (List.any_eq_false.1 hprint) c hc
    · rintro rfl
      simp_all
  · rintro a b rfl d hd
    obtain ⟨b, rfl⟩ := List.head?_eq_some_iff.1 hd
    simpa using not_of_anyNeighbours hspace
  · rintro a c b rfl hc hhead
    obtain ⟨b, rfl⟩ := List.head?_eq_some_iff.1 hhead
    have hpair := not_of_anyNeighbours hline
    simp [hc] at hpair

/-- What stands between the quotes. -/
def singleBody (indent : List Char) (cs : List Char) : List Char :=
  indentLines indent false (doubled cs) ++ if cs.getLast?.elim false isBreak then indent else []

section

variable (indent : List Char) {front tail : List Char}

theorem singleBody_append (hfront : ∀ c ∈ front, isBreak c = false) :
  singleBody indent (front ++ tail) = doubled front ++ singleBody indent tail
  := by
  have hclosing : (front ++ tail).getLast?.elim false isBreak =
      tail.getLast?.elim false isBreak := by
    cases htail : tail.getLast? with
    | none =>
        rw [List.getLast?_eq_none_iff.1 htail, List.append_nil]
        cases hlast : front.getLast? with
        | none => rfl
        | some c => apply hfront c (List.mem_of_getLast? hlast)
    | some c => rw [List.getLast?_append, htail, Option.some_or]
  rw [singleBody, singleBody, hclosing, doubled_append,
    indentLines_append indent (fun c hc => hfront c (mem_of_mem_doubled hc)), List.append_assoc]

theorem singleBody_spaces (k : Nat) :
  singleBody indent (List.replicate k ' ' ++ tail) = List.replicate k ' ' ++ singleBody indent tail
  := by
  have hspaces : ∀ c ∈ List.replicate k ' ', isBreak c = false ∧ isSpace c := by
    intro c hc
    rw [List.eq_of_mem_replicate hc]
    exact ⟨rfl, rfl⟩
  rw [singleBody_append indent (fun c hc => (hspaces c hc).1),
    doubled_eq_self (fun c hc => (hspaces c hc).2)]

theorem singleBody_lines {b : Char} {breaks : List Char} (hbreaks : ∀ d ∈ b :: breaks, isBreak d)
    (htail : ∀ c ∈ tail.head?, isBreak c = false) :
  singleBody indent (b :: breaks ++ tail) = (b :: breaks ++ indent) ++ singleBody indent tail
  := by
  have hspaces : doubled (b :: breaks) = b :: breaks := by
    apply doubled_eq_self
    intro d hd
    rw [isSpace, hbreaks d hd, Bool.or_true]
  obtain ⟨hb, hbreaks'⟩ := List.forall_mem_cons.1 hbreaks
  rw [singleBody, doubled_append, hspaces, indentLines_breaks indent hb hbreaks']
  cases tail with
  | nil =>
      have hlast : (b :: breaks).getLast?.elim false isBreak = true := by
        rw [List.getLast?_eq_some_getLast (List.cons_ne_nil b breaks)]
        apply hbreaks _ (List.getLast_mem _)
      rw [List.append_nil, if_pos hlast]
      simp [doubled, indentLines, singleBody]
  | cons c tail =>
      have hne : doubled (c :: tail) ≠ [] := by
        intro hnil
        have hhead := head?_doubled (c :: tail)
        rw [hnil] at hhead
        cases hhead
      have hlast : (b :: breaks ++ c :: tail).getLast? = (c :: tail).getLast? := by
        rw [List.getLast?_append, List.getLast?_eq_some_getLast (List.cons_ne_nil c tail),
          Option.some_or]
      rw [indentLines_start indent hne (by rw [head?_doubled]; apply htail), hlast, singleBody]
      simp only [List.append_assoc]

theorem resumes_singleBody (htail : Resumes tail) :
  Resumes (singleBody indent tail)
  := by
  cases tail with
  | nil => simp [Resumes, singleBody, doubled, indentLines]
  | cons c tail =>
      have hc := htail c rfl
      have hfront : ∀ d ∈ [c], isBreak d = false := by simpa using isBreak_of_not_isSpace hc
      have hhead : (doubled [c]).head? = some c := head?_doubled [c]
      intro ch hch
      rw [← List.singleton_append, singleBody_append indent hfront, List.head?_append, hhead,
        Option.some_or] at hch
      rw [← Option.some.inj hch]
      apply hc

end

theorem quotedText_doubled (indent : Nat) {cs : List Char} (hcs : SingleText cs) :
  QuotedText false indent cs (singleBody (List.replicate indent ' ') cs)
  := by
  induction hlength : cs.length using Nat.strongRecOn generalizing cs with
  | ind length ih =>
      obtain ⟨word, tail, rfl, hword, htail⟩ := exists_span (fun c => !isSpace c) cs
      have hspace : ∀ c ∈ word, isSpace c = false := fun c hc => by simpa using hword c hc
      have hspells := spells_doubled hspace
      rw [singleBody_append _ (fun c hc => isBreak_of_not_isSpace (hspace c hc))]
      cases tail with
      | nil =>
          rw [List.append_nil]
          simpa [singleBody, doubled, indentLines] using QuotedText.last hspells
      | cons ch tail =>
          have hch : isSpace ch := by simpa using htail ch rfl
          obtain ⟨hprint, hline⟩ := hcs.chars ch (by simp)
          cases hbreak : isBreak ch with
          | false =>
              obtain rfl : ch = ' ' := by
                rw [isSpace, hbreak, Bool.or_false] at hch
                apply (isBlank_iff_of_isPrintable hprint).1 hch
              obtain ⟨k, tail, rfl, hhead⟩ := exists_spaces tail
              rw [← List.cons_append, ← List.replicate_succ] at hcs hlength ⊢
              rw [singleBody_spaces, ← List.append_assoc, ← List.append_assoc]
              have hresumes := hcs.of_append.resumes_of_spaces hhead
              apply QuotedText.spaces k hspells (resumes_singleBody _ hresumes)
              apply ih tail.length _ hcs.of_append.of_append rfl
              rw [← hlength, List.length_append, List.length_append, List.length_replicate]
              omega
          | true =>
              obtain ⟨breaks, tail, rfl, hbreaks, hhead⟩ := exists_span isBreak tail
              rw [← List.cons_append] at hcs hlength ⊢
              have hall : ∀ d ∈ ch :: breaks, isBreak d := List.forall_mem_cons.2 ⟨hbreak, hbreaks⟩
              have hown : ∀ d ∈ ch :: breaks, isOwnBreak d := by
                intro d hd
                have hprint := (hcs.of_append.chars d (List.mem_append_left _ hd)).1
                apply isOwnBreak_of_isPrintable hprint (hall d hd)
              have hresumes :=
                hcs.of_append.resumes_of_breaks (List.cons_ne_nil ch breaks) hall hhead
              rw [singleBody_lines _ hall hhead, ← List.append_assoc, ← List.append_assoc]
              apply QuotedText.lines hspells ⟨hown ch List.mem_cons_self, hline⟩
                (fun d hd => hown d (List.mem_cons_of_mem ch hd)) (resumes_singleBody _ hresumes)
              apply ih tail.length _ hcs.of_append.of_append rfl
              rw [← hlength, List.length_append, List.length_append, List.length_cons]
              omega

end ServiceFlow.Yaml
