import ServiceFlow.Proofs.Yaml.Cursor
import ServiceFlow.Yaml.Document

/-!
# Indented lines

The lines of a scalar are indented but for those that are empty.
-/

namespace ServiceFlow.Yaml

variable (indent : List Char) {front tail : List Char}

/-- Inside a line nothing is added. -/
theorem indentLines_append (hfront : ∀ c ∈ front, isBreak c = false) :
  indentLines indent false (front ++ tail) = front ++ indentLines indent false tail
  := by
  induction front with
  | nil => rfl
  | cons c front ih =>
      obtain ⟨hc, hfront⟩ := List.forall_mem_cons.1 hfront
      rw [List.cons_append, indentLines, if_neg (by simp [hc]), ih hfront]
      rfl

/-- Behind ends of lines a line begins. -/
theorem indentLines_breaks {b : Char} {breaks : List Char} (hb : isBreak b)
    (hbreaks : ∀ b ∈ breaks, isBreak b) (start : Bool) :
  indentLines indent start (b :: breaks ++ tail) = b :: breaks ++ indentLines indent true tail
  := by
  induction breaks generalizing b start with
  | nil => simp [indentLines, hb]
  | cons b' breaks ih =>
      obtain ⟨hb', hbreaks⟩ := List.forall_mem_cons.1 hbreaks
      rw [List.cons_append, indentLines, if_pos hb]
      rw [ih hb' hbreaks true]
      rfl

/-- A line that is not empty is indented. -/
theorem indentLines_start (hne : tail ≠ []) (htail : ∀ c ∈ tail.head?, isBreak c = false) :
  indentLines indent true tail = indent ++ indentLines indent false tail
  := by
  cases tail with
  | nil => exact absurd rfl hne
  | cons c tail =>
      have hc := htail c rfl
      simp [indentLines, hc]

/-- Empty lines are not indented. -/
theorem indentLines_breaks_start {breaks : List Char} (hbreaks : ∀ b ∈ breaks, isBreak b) :
  indentLines indent true (breaks ++ tail) = breaks ++ indentLines indent true tail
  := by
  cases breaks with
  | nil => rfl
  | cons b breaks =>
      obtain ⟨hb, hbreaks⟩ := List.forall_mem_cons.1 hbreaks
      apply indentLines_breaks indent hb hbreaks

theorem length_le_indentLines (cs : List Char) (start : Bool) :
  cs.length ≤ (indentLines indent start cs).length
  := by
  induction cs generalizing start with
  | nil => exact Nat.zero_le _
  | cons d cs ih =>
      rw [indentLines]
      split
      · apply Nat.succ_le_succ (ih true)
      · have hle := ih false
        rw [List.length_append, List.length_cons, List.length_cons]
        omega

theorem mem_of_mem_indentLines {indent cs : List Char} {start : Bool} {c : Char}
    (h : c ∈ indentLines indent start cs) :
  c ∈ indent ∨ c ∈ cs
  := by
  induction cs generalizing start with
  | nil => cases h
  | cons d cs ih =>
      rw [indentLines] at h
      split at h
      · rcases List.mem_cons.1 h with rfl | h
        · exact .inr List.mem_cons_self
        · apply (ih h).imp_right (List.mem_cons_of_mem d)
      · rcases List.mem_append.1 h with h | h
        · split at h
          · exact .inl h
          · cases h
        · rcases List.mem_cons.1 h with rfl | h
          · exact .inr List.mem_cons_self
          · apply (ih h).imp_right (List.mem_cons_of_mem d)

end ServiceFlow.Yaml
