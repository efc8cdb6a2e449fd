import Mathlib.Data.List.TakeWhile
import ServiceFlow.Value.ClassLiteral

/-!
# Spellings of class literals

The names that a class gives do not depend on how its literal is spelled: with slashes or with
dots, as a name or as a descriptor.  The simple name is the last part of the canonical name, and a
canonical name is its own canonical name.
-/

namespace ServiceFlow.ClassLiteral

/-! ### Characters -/

theorem slashToDot_eq_iff {c d : Char} (hdot : d ≠ '.') (hslash : d ≠ '/') :
  slashToDot c = d ↔ c = d
  := by
  rw [slashToDot]
  split
  · next h =>
    subst h
    simp [hdot.symm, hslash.symm]
  · rfl

theorem dollarToDot_eq_iff {c d : Char} (hdot : d ≠ '.') (hdollar : d ≠ '$') :
  dollarToDot c = d ↔ c = d
  := by
  rw [dollarToDot]
  split
  · next h =>
    subst h
    simp [hdot.symm, hdollar.symm]
  · rfl

@[simp] theorem slashToDot_slashToDot (c : Char) :
  slashToDot (slashToDot c) = slashToDot c
  := by
  by_cases h : c = '/'
  · rw [h]
    rfl
  · simp [slashToDot, h]

/-- A dot for every slash and every dollar sign. -/
def toDot (c : Char) : Char := dollarToDot (slashToDot c)

theorem toDot_eq_iff {c d : Char} (h : d ≠ '.' ∧ d ≠ '/' ∧ d ≠ '$') :
  toDot c = d ↔ c = d
  := by
  rw [toDot, dollarToDot_eq_iff h.1 h.2.2, slashToDot_eq_iff h.1 h.2.1]

@[simp] theorem toDot_toDot (c : Char) :
  toDot (toDot c) = toDot c
  := by
  by_cases hslash : c = '/'
  · rw [hslash]
    rfl
  · by_cases hdollar : c = '$'
    · rw [hdollar]
      rfl
    · simp [toDot, slashToDot, dollarToDot, hslash, hdollar]

/-! ### Brackets and descriptors -/

theorem descriptorName?_eq_some_iff {l t : List Char} :
  descriptorName? l = some t ↔ l = 'L' :: t ++ [';']
  := by
  constructor
  · intro h
    rw [descriptorName?.eq_def] at h
    split at h
    · next rest =>
      split at h
      · next hlast =>
        obtain rfl := Option.some.inj h
        obtain ⟨front, rfl⟩ := List.getLast?_eq_some_iff.1 hlast
        simp
      · cases h
    · cases h
  · rintro rfl
    simp [descriptorName?]

theorem descriptorName?_eq_none_iff {l : List Char} :
  descriptorName? l = none ↔ ∀ t, l ≠ 'L' :: t ++ [';']
  := by
  simp only [Option.eq_none_iff_forall_ne_some, ne_eq, descriptorName?_eq_some_iff]

/-- What keeps the letter and the semicolon of descriptors keeps descriptors. -/
theorem descriptorName?_map {f : Char → Char} (hletter : ∀ c, f c = 'L' ↔ c = 'L')
    (hend : ∀ c, f c = ';' ↔ c = ';') (l : List Char) :
  descriptorName? (l.map f) = (descriptorName? l).map (List.map f)
  := by
  cases h : descriptorName? l with
  | some t =>
      obtain rfl := descriptorName?_eq_some_iff.1 h
      rw [Option.map_some, descriptorName?_eq_some_iff]
      simp [(hletter 'L').2, (hend ';').2]
  | none =>
      rw [Option.map_none, descriptorName?_eq_none_iff]
      rw [descriptorName?_eq_none_iff] at h
      intro t ht
      obtain ⟨front, last, rfl, hfront, hlast⟩ := List.map_eq_append_iff.1 ht
      obtain ⟨c, rest, rfl, hc, _⟩ := List.map_eq_cons_iff.1 hfront
      obtain ⟨d, nothing, rfl, hd, hnothing⟩ := List.map_eq_cons_iff.1 hlast
      obtain rfl := List.map_eq_nil_iff.1 hnothing
      apply h rest
      rw [(hletter c).1 hc, (hend d).1 hd]

theorem primitive?_map_slashToDot (l : List Char) :
  primitive? (l.map slashToDot) = primitive? l
  := by
  match l with
  | [] => rfl
  | [c] =>
      by_cases h : c = '/'
      · rw [h]
        rfl
      · simp [slashToDot, h]
  | _ :: _ :: _ => simp [primitive?]

theorem not_mem_brackets {c : Char} (hopen : c ≠ '[') (hclose : c ≠ ']') (n : Nat) :
  c ∉ brackets n
  := by
  intro h
  obtain ⟨pair, hpair, hc⟩ := List.mem_flatten.1 h
  rw [(List.mem_replicate.1 hpair).2] at hc
  simp [hopen, hclose] at hc

theorem dimensions_replicate {l : List Char} (h : l.head? ≠ some '[') (n : Nat) :
  dimensions (List.replicate n '[' ++ l) = n
  := by
  induction n with
  | zero =>
      cases l with
      | nil => rfl
      | cons c l =>
          have hc : c ≠ '[' := by simpa using h
          simp [dimensions, hc]
  | succ n ih =>
      rw [dimensions, List.replicate_succ, List.cons_append, List.takeWhile_cons_of_pos (by simp),
        List.length_cons, ← dimensions, ih]

theorem dropWhile_replicate {l : List Char} (h : l.head? ≠ some '[') (n : Nat) :
  (List.replicate n '[' ++ l).dropWhile (· = '[') = l
  := by
  induction n with
  | zero =>
      cases l with
      | nil => rfl
      | cons c l =>
          have hc : c ≠ '[' := by simpa using h
          simp [hc]
  | succ n ih => simpa [List.replicate_succ] using ih

/-! ### Names without brackets -/

/-- A name that has no brackets in front and is not a descriptor. -/
structure IsPlain (s : List Char) : Prop where
  nonempty : s ≠ []
  unbracketed : s.head? ≠ some '['
  undescribed : descriptorName? s = none

theorem element_of_isPlain {s : List Char} (h : IsPlain s) :
  element s = s.map slashToDot
  := by
  have hdims : dimensions s = 0 := dimensions_replicate h.unbracketed 0
  have hdrop : s.dropWhile (· = '[') = s := dropWhile_replicate h.unbracketed 0
  simp [element, hdims, hdrop, h.undescribed]

theorem canonicalChars_of_isPlain {s : List Char} (h : IsPlain s) :
  canonicalChars s = s.map toDot
  := by
  have hdims : dimensions s = 0 := dimensions_replicate h.unbracketed 0
  simp [canonicalChars, element_of_isPlain h, hdims, brackets, toDot, Function.comp_def]

theorem simpleChars_of_isPlain {s : List Char} (h : IsPlain s) :
  simpleChars s =
    ((s.map slashToDot).reverse.takeWhile (fun c => c ≠ '.' && c ≠ '$')).reverse
  := by
  have hdims : dimensions s = 0 := dimensions_replicate h.unbracketed 0
  simp [simpleChars, element_of_isPlain h, hdims, brackets]

theorem map_toDot_brackets (n : Nat) :
  (brackets n).map toDot = brackets n
  := by
  rw [brackets, List.map_flatten, List.map_replicate]
  rfl

theorem IsPlain.dotted {s : List Char} (h : IsPlain s) (n : Nat) :
  IsPlain (s.map toDot ++ brackets n)
  := by
  constructor
  · simp [h.nonempty]
  · obtain ⟨c, rest, rfl⟩ := List.exists_cons_of_ne_nil h.nonempty
    have hc : c ≠ '[' := by simpa using h.unbracketed
    simp [toDot_eq_iff (d := '[') (by decide), hc]
  · cases n with
    | zero =>
        rw [brackets, List.replicate_zero, List.flatten_nil, List.append_nil,
          descriptorName?_map (fun c => toDot_eq_iff (by decide))
            (fun c => toDot_eq_iff (by decide)), h.undescribed]
        rfl
    | succ n =>
        rw [descriptorName?_eq_none_iff]
        intro t ht
        -- the last character is a bracket
        have hlast := congrArg List.getLast? ht
        rw [brackets, List.replicate_succ', List.flatten_append, List.getLast?_append,
          List.getLast?_append, List.getLast?_append] at hlast
        simp at hlast

/-- A name with dots, and brackets behind it, is its own canonical name. -/
theorem canonicalChars_dotted {s : List Char} (h : IsPlain s) (n : Nat) :
  canonicalChars (s.map toDot ++ brackets n) = s.map toDot ++ brackets n
  := by
  rw [canonicalChars_of_isPlain (h.dotted n), List.map_append, map_toDot_brackets, List.map_map]
  simp [Function.comp_def]

/-! ### Descriptors -/

/-- A descriptor with brackets in front has the name of its class, with as many dimensions. -/
theorem dimensions_descriptor (n : Nat) (s : List Char) :
  dimensions (List.replicate n '[' ++ ('L' :: s ++ [';'])) = n
  := by
  apply dimensions_replicate
  simp

theorem element_descriptor (n : Nat) (s : List Char) :
  element (List.replicate n '[' ++ ('L' :: s ++ [';'])) = s.map slashToDot
  := by
  have hname : descriptorName? ('L' :: s ++ [';']) = some s := descriptorName?_eq_some_iff.2 rfl
  rw [element, dropWhile_replicate (by simp), hname]

theorem canonicalChars_descriptor {s : List Char} (h : IsPlain s) (n : Nat) :
  canonicalChars (List.replicate n '[' ++ ('L' :: s ++ [';'])) = canonicalChars s ++ brackets n
  := by
  rw [canonicalChars, dimensions_descriptor, element_descriptor, canonicalChars_of_isPlain h,
    List.map_map]
  rfl

theorem simpleChars_descriptor {s : List Char} (h : IsPlain s) (n : Nat) :
  simpleChars (List.replicate n '[' ++ ('L' :: s ++ [';'])) = simpleChars s ++ brackets n
  := by
  rw [simpleChars, dimensions_descriptor, element_descriptor, simpleChars_of_isPlain h]

/-! ### Slashes and dots -/

theorem dropWhile_map_slashToDot (raw : List Char) :
  (raw.map slashToDot).dropWhile (· = '[') = (raw.dropWhile (· = '[')).map slashToDot
  := by
  rw [List.dropWhile_map]
  congr 2
  funext c
  simp [slashToDot_eq_iff]

theorem dimensions_map_slashToDot (raw : List Char) :
  dimensions (raw.map slashToDot) = dimensions raw
  := by
  rw [dimensions, List.takeWhile_map, List.length_map, dimensions]
  congr 2
  funext c
  simp [slashToDot_eq_iff]

theorem element_map_slashToDot (raw : List Char) :
  element (raw.map slashToDot) = element raw
  := by
  rw [element, element, dropWhile_map_slashToDot, dimensions_map_slashToDot,
    descriptorName?_map (fun c => slashToDot_eq_iff (by decide) (by decide))
      (fun c => slashToDot_eq_iff (by decide) (by decide)), primitive?_map_slashToDot]
  cases descriptorName? (raw.dropWhile (· = '[')) with
  | some name => simp [Function.comp_def]
  | none =>
      dsimp only [Option.map_none]
      split
      · cases primitive? (raw.dropWhile (· = '[')) with
        | some name => rfl
        | none => simp [Function.comp_def]
      · simp [Function.comp_def]

/-! ### The last part of a name -/

/-- The name ends behind a dot or a dollar sign, or is of one part. -/
theorem exists_front_of_element (raw : List Char) :
  ∃ front last, element raw = front ++ last ∧
    simpleChars raw = last ++ brackets (dimensions raw) ∧
    (∀ c ∈ last, c ≠ '.' ∧ c ≠ '$') ∧ ∀ c, front.getLast? = some c → c = '.' ∨ c = '$'
  := by
  let p := fun c : Char => c ≠ '.' && c ≠ '$'
  refine ⟨((element raw).reverse.dropWhile p).reverse, ((element raw).reverse.takeWhile p).reverse,
    ?_, rfl, ?_, ?_⟩
  · rw [← List.reverse_append, List.takeWhile_append_dropWhile, List.reverse_reverse]
  · intro c hc
    simpa [p] using List.mem_takeWhile_imp (List.mem_reverse.1 hc)
  · intro c hc
    have hnot := List.head?_dropWhile_not p (element raw).reverse
    rw [← List.getLast?_reverse, hc] at hnot
    by_cases hdot : c = '.'
    · exact .inl hdot
    · exact .inr (by simpa [p, hdot] using hnot)

theorem canonicalChars_eq_append (raw : List Char) :
  '.' ∉ simpleChars raw ∧
    (canonicalChars raw = simpleChars raw ∨
      ∃ front, canonicalChars raw = front ++ ['.'] ++ simpleChars raw)
  := by
  obtain ⟨front, last, hsplit, hsimple, hlast, hfront⟩ := exists_front_of_element raw
  have hmap : last.map dollarToDot = last := by
    apply Eq.trans (List.map_congr_left _) (List.map_id _)
    intro c hc
    simp [dollarToDot, (hlast c hc).2]
  have hcanonical : canonicalChars raw = front.map dollarToDot ++ simpleChars raw := by
    rw [canonicalChars, hsplit, List.map_append, hmap, hsimple, List.append_assoc]
  constructor
  · rw [hsimple]
    intro hdot
    rcases List.mem_append.1 hdot with hdot | hdot
    · apply (hlast _ hdot).1 rfl
    · apply not_mem_brackets (by decide) (by decide) _ hdot
  · rw [hcanonical]
    cases hend : front.getLast? with
    | none =>
        rw [List.getLast?_eq_none_iff.1 hend]
        exact .inl rfl
    | some c =>
        obtain ⟨start, rfl⟩ := List.getLast?_eq_some_iff.1 hend
        have hc : dollarToDot c = '.' := by
          rcases hfront c hend with rfl | rfl
          · rfl
          · rfl
        exact .inr ⟨start.map dollarToDot, by simp [hc]⟩

/-! ### Texts -/

/-- What stands behind the last dot of a text, which is the whole text if it has none. -/
def IsLastPart (s t : String) : Prop := '.' ∉ t.toList ∧ (s = t ∨ ∃ front, s = front ++ "." ++ t)

/-- The descriptor of a class, with a bracket in front for every dimension. -/
def descriptor (n : Nat) (s : String) : String :=
  String.ofList (List.replicate n '[') ++ "L" ++ s ++ ";"

/-- So many pairs of brackets. -/
def pairs (n : Nat) : String := String.join (List.replicate n "[]")

theorem toList_descriptor (n : Nat) (s : String) :
  (descriptor n s).toList = List.replicate n '[' ++ ('L' :: s.toList ++ [';'])
  := by
  simp [descriptor]

theorem toList_pairs (n : Nat) :
  (pairs n).toList = brackets n
  := by
  induction n with
  | zero => rfl
  | succ n ih =>
      rw [pairs, List.replicate_succ, String.join_cons, String.toList_append, ← pairs, ih]
      rfl

theorem isLastPart_simple (raw : String) :
  IsLastPart (canonical raw) (simple raw)
  := by
  obtain ⟨hdot, hcanonical⟩ := canonicalChars_eq_append raw.toList
  constructor
  · rw [simple, String.toList_ofList]
    apply hdot
  · rcases hcanonical with heq | ⟨front, heq⟩
    · rw [canonical, heq]
      exact .inl rfl
    · refine .inr ⟨String.ofList front, ?_⟩
      rw [canonical, heq, String.ofList_append, String.ofList_append]
      rfl

theorem canonical_map_slashToDot (raw : String) :
  canonical (raw.map slashToDot) = canonical raw
  := by
  rw [canonical, String.toList_map, canonicalChars, element_map_slashToDot,
    dimensions_map_slashToDot]
  rfl

/-- The brackets in front take up one byte each, so that the name behind them begins at a
character. -/
theorem isValid_dimensions (raw : String) :
  String.Pos.Raw.IsValid raw ⟨dimensions raw.toList⟩
  := by
  let front := raw.toList.takeWhile (· = '[')
  have hfront : front = List.replicate front.length '[' := by
    apply List.eq_replicate_of_mem
    intro c hc
    simpa using List.mem_takeWhile_imp hc
  have hbytes : ∀ n, (String.ofList (List.replicate n '[')).utf8ByteSize = n := by
    intro n
    induction n with
    | zero => rfl
    | succ n ih =>
        rw [List.replicate_succ', String.ofList_append, String.utf8ByteSize_append, ih]
        rfl
  apply String.Pos.Raw.isValid_iff_exists_append.2
  refine ⟨String.ofList front, String.ofList (raw.toList.dropWhile (· = '[')), ?_, ?_⟩
  · rw [← String.ofList_append, List.takeWhile_append_dropWhile, String.ofList_toList]
  · apply String.Pos.Raw.ext
    rw [hfront]
    exact (hbytes _).symm

theorem isPlain_toList {s : String} (hnonempty : s ≠ "") (hbracket : s.toList.head? ≠ some '[')
    (hdescriptor : ∀ t, s ≠ "L" ++ t ++ ";") :
  IsPlain s.toList
  := by
  constructor
  · simpa using hnonempty
  · apply hbracket
  · rw [descriptorName?_eq_none_iff]
    intro t ht
    apply hdescriptor (String.ofList t)
    rw [← String.toList_inj, ht]
    simp

/-- All spellings of a class have the same names: the simple name is the last part of the canonical
one, slashes count as dots, and a descriptor has the names of its class with the brackets behind
them.  Canonical names are their own canonical names. -/
theorem spellings_agree :
  (∀ raw : String, String.Pos.Raw.IsValid raw ⟨dimensions raw.toList⟩ ∧
    IsLastPart (canonical raw) (simple raw) ∧ canonical raw = canonical (raw.map slashToDot)) ∧
  ∀ (s : String) (n : Nat), s ≠ "" → s.toList.head? ≠ some '[' → (∀ t, s ≠ "L" ++ t ++ ";") →
    canonical (descriptor n s) = canonical s ++ pairs n ∧
    simple (descriptor n s) = simple s ++ pairs n ∧
    canonical (canonical s) = canonical s ∧
    canonical (canonical (descriptor n s)) = canonical (descriptor n s)
  := by
  constructor
  · intro raw
    exact ⟨isValid_dimensions raw, isLastPart_simple raw, (canonical_map_slashToDot raw).symm⟩
  · intro s n hnonempty hbracket hdescriptor
    have hplain := isPlain_toList hnonempty hbracket hdescriptor
    have hcanonical : (canonical s).toList = s.toList.map toDot := by
      rw [canonical, String.toList_ofList, canonicalChars_of_isPlain hplain]
    have harray : canonical (descriptor n s) = canonical s ++ pairs n := by
      rw [← String.toList_inj, String.toList_append, canonical, String.toList_ofList,
        toList_descriptor, canonicalChars_descriptor hplain, canonical, String.toList_ofList,
        toList_pairs]
    -- a name is the case of no dimensions
    have hself : ∀ n, canonical (canonical s ++ pairs n) = canonical s ++ pairs n := by
      intro n
      rw [← String.toList_inj, canonical, String.toList_ofList, String.toList_append, hcanonical,
        toList_pairs, canonicalChars_dotted hplain]
    refine ⟨harray, ?_, ?_, ?_⟩
    · rw [← String.toList_inj, String.toList_append, simple, String.toList_ofList,
        toList_descriptor, simpleChars_descriptor hplain, simple, String.toList_ofList,
        toList_pairs]
    · simpa [pairs] using hself 0
    · rw [harray, hself]

/-- A class with the letter of a primitive type is not that type, also in an array. -/
theorem spellings_agree_letter :
  "I" ≠ "" ∧ "I".toList.head? ≠ some '[' ∧ (∀ t, "I" ≠ "L" ++ t ++ ";") ∧
  canonical (descriptor 2 "I") = "I[][]" ∧ canonical "[[I" = "int[][]" ∧
  canonical (canonical (descriptor 2 "I")) = canonical (descriptor 2 "I")
  := by
  have hdescriptor : ∀ t, "I" ≠ "L" ++ t ++ ";" := by
    intro t h
    have hhead := congrArg (fun s => s.toList.head?) h
    simp at hhead
  obtain ⟨hcanonical, _, _, hself⟩ := spellings_agree.2 "I" 2 (by decide) (by decide) hdescriptor
  refine ⟨by decide, by decide, hdescriptor, ?_, rfl, hself⟩
  rw [hcanonical]
  rfl

end ServiceFlow.ClassLiteral
