import ServiceFlow.Text.Digits

/-!
# Numbers and their digits

The digits of a number write that number, and there is no zero in front.
-/

namespace ServiceFlow.Text

variable {base n : Nat}

theorem exists_of_mem_toDigits (hbase : 1 < base) {c : Char} (h : c ∈ Nat.toDigits base n) :
  ∃ d < base, c = Nat.digitChar d
  := by
  induction n using Nat.strongRecOn with
  | ind n ih =>
      by_cases hn : n < base
      · rw [Nat.toDigits_of_lt_base hn, List.mem_singleton] at h
        exact ⟨n, hn, h⟩
      · rw [Nat.toDigits_of_base_le hbase (by omega), List.mem_append, List.mem_singleton] at h
        rcases h with h | h
        · apply ih (n / base) (Nat.div_lt_self (by omega) hbase) h
        · exact ⟨n % base, Nat.mod_lt n (by omega), h⟩

/-- The digits of a number, each as it is spelled, say what the number is. -/
theorem mapM_digit?_toDigits (hbase : 1 < base) {spell : Char → Char}
    (hspell : ∀ d < base, digit? base (spell (Nat.digitChar d)) = some d) (n : Nat) :
  ∃ ds, ((Nat.toDigits base n).map spell).mapM (digit? base) = some ds ∧
    ds.foldl (fun n d => n * base + d) 0 = n
  := by
  induction n using Nat.strongRecOn with
  | ind n ih =>
      by_cases hn : n < base
      · refine ⟨[n], ?_, by simp⟩
        rw [Nat.toDigits_of_lt_base hn]
        simp [hspell n hn]
      · obtain ⟨ds, hds, hvalue⟩ := ih (n / base) (Nat.div_lt_self (by omega) hbase)
        refine ⟨ds ++ [n % base], ?_, ?_⟩
        · rw [Nat.toDigits_of_base_le hbase (by omega), List.map_append, List.mapM_append, hds]
          simp [hspell (n % base) (Nat.mod_lt n (by omega))]
        · rw [List.foldl_append, hvalue]
          simp only [List.foldl_cons, List.foldl_nil]
          apply Nat.div_add_mod'

theorem number?_toDigits (n : Nat) :
  number? 10 (Nat.toDigits 10 n) = some n
  := by
  have hspell : ∀ d < 10, digit? 10 (id (Nat.digitChar d)) = some d := by decide
  obtain ⟨ds, hds, hvalue⟩ := mapM_digit?_toDigits (by decide) hspell n
  rw [List.map_id] at hds
  rw [number?, if_neg (by simp [Nat.toDigits_ne_nil]), hds, Option.map_some, hvalue]

/-- A number other than zero has no leading zero. -/
theorem head?_toDigits_ne (hn : 0 < n) :
  (Nat.toDigits 10 n).head? ≠ some '0'
  := by
  induction n using Nat.strongRecOn with
  | ind n ih =>
      by_cases hless : n < 10
      · rw [Nat.toDigits_of_lt_base hless]
        simp [Nat.digitChar_eq_zero]
        omega
      · obtain ⟨c, cs, hcs⟩ := List.exists_cons_of_ne_nil (@Nat.toDigits_ne_nil (n / 10) 10)
        have hhead := ih (n / 10) (by omega) (by omega)
        rw [hcs] at hhead
        rw [Nat.toDigits_of_base_le (by omega) (by omega), hcs]
        exact hhead

end ServiceFlow.Text
