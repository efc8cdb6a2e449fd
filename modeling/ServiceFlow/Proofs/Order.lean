import Mathlib.Logic.Function.Basic

/-!
# Linear orders

What a comparison has to be to keep maps in order: a linear order that agrees with equality.  The
strict part of such an order is stated beside it as a relation.  Alternatives come in the order of
their declaration, and members are compared one after another, with the lexicographic relations
`Prod.Lex` and `List.Lex`.

Values contain values, so that the laws cannot be handed on from comparisons to comparisons only.
They are stated at one element, compared with all others, and an induction on this element then
suffices.
-/

namespace ServiceFlow

variable {α β : Type}

/-- The result of a comparison tells which of two elements comes before the other one. -/
structure Reflects (before : α → α → Prop) (a b : α) (o : Ordering) : Prop where
  eq_iff : o = .eq ↔ a = b
  lt_iff : o = .lt ↔ before a b
  gt_iff : o = .gt ↔ before b a

/-- The comparisons of `a` with other elements are those of a linear order. -/
structure LinearAt (cmp : α → α → Ordering) (before : α → α → Prop) (a : α) : Prop where
  reflects (b : α) : Reflects before a b (cmp a b)
  trans {b c : α} (hab : before a b) (hbc : before b c) : before a c

/-- The comparison is a linear order that agrees with equality, and `before` is its strict part. -/
structure Linear (cmp : α → α → Ordering) (before : α → α → Prop) : Prop where
  total (a b : α) : (cmp a b).isLE ∨ (cmp b a).isLE
  trans (a b c : α) : (cmp a b).isLE → (cmp b c).isLE → (cmp a c).isLE
  antisymm (a b : α) : (cmp a b).isLE → (cmp b a).isLE → a = b
  eq_iff (a b : α) : cmp a b = .eq ↔ a = b
  lt_iff (a b : α) : cmp a b = .lt ↔ before a b
  gt_iff (a b : α) : cmp a b = .gt ↔ before b a

variable {cmp : α → α → Ordering} {before : α → α → Prop}

theorem Reflects.isLE_iff {a b : α} {o : Ordering} (h : Reflects before a b o) :
  o.isLE ↔ before a b ∨ a = b
  := by
  rw [Ordering.isLE_iff_eq_lt_or_eq_eq, h.lt_iff, h.eq_iff]

/-- Where the first members agree, the second ones decide. -/
theorem Reflects.then {a a' : α} {b b' : β} {r : α → α → Prop} {s : β → β → Prop} {o o' : Ordering}
    (h : Reflects r a a' o) (h' : Reflects s b b' o') :
  (o.then o' = .eq ↔ a = a' ∧ b = b') ∧ (o.then o' = .lt ↔ r a a' ∨ a = a' ∧ s b b') ∧
    (o.then o' = .gt ↔ r a' a ∨ a' = a ∧ s b' b)
  := by
  rw [Ordering.then_eq_eq, Ordering.then_eq_lt, Ordering.then_eq_gt, h.eq_iff, h.lt_iff, h.gt_iff,
    h'.eq_iff, h'.lt_iff, h'.gt_iff, eq_comm (a := a')]
  exact ⟨Iff.rfl, Iff.rfl, Iff.rfl⟩

theorem Linear.of_linearAt (h : ∀ a, LinearAt cmp before a) :
  Linear cmp before
  where
  total a b := by
    rw [((h a).reflects b).isLE_iff, ((h b).reflects a).isLE_iff]
    cases hab : cmp a b with
    | lt => exact .inl (.inl (((h a).reflects b).lt_iff.1 hab))
    | eq => exact .inl (.inr (((h a).reflects b).eq_iff.1 hab))
    | gt => exact .inr (.inl (((h a).reflects b).gt_iff.1 hab))
  trans a b c := by
    rw [((h a).reflects b).isLE_iff, ((h b).reflects c).isLE_iff, ((h a).reflects c).isLE_iff]
    rintro (hab | rfl) (hbc | rfl)
    · exact .inl ((h a).trans hab hbc)
    · exact .inl hab
    · exact .inl hbc
    · exact .inr rfl
  antisymm a b := by
    rw [((h a).reflects b).isLE_iff, ((h b).reflects a).isLE_iff]
    rintro (hab | rfl) (hba | hba)
    · -- One result cannot say both.
      have hlt := ((h a).reflects b).lt_iff.2 hab
      rw [((h a).reflects b).gt_iff.2 hba] at hlt
      cases hlt
    · exact hba.symm
    · rfl
    · rfl
  eq_iff a b := ((h a).reflects b).eq_iff
  lt_iff a b := ((h a).reflects b).lt_iff
  gt_iff a b := ((h a).reflects b).gt_iff

/-! ### Members and lists -/

/-- A lawful comparison is linear everywhere. -/
theorem linearAt_of_lawful [Std.TransCmp cmp] [Std.LawfulEqCmp cmp]
    (h : ∀ a b, cmp a b = .lt ↔ before a b) (a : α) :
  LinearAt cmp before a
  where
  reflects b := ⟨Std.LawfulEqCmp.compare_eq_iff_eq, h a b, by
    rw [← h, Std.OrientedCmp.gt_iff_lt]⟩
  trans {b c} hab hbc := by
    rw [← h] at hab hbc ⊢
    exact Std.TransCmp.lt_trans hab hbc

namespace LinearAt

/-- What is compared by its image under an injective function is ordered as the images are. -/
theorem comap {f : β → α} (hf : Function.Injective f) {b : β} (h : LinearAt cmp before (f b)) :
  LinearAt (fun x y => cmp (f x) (f y)) (fun x y => before (f x) (f y)) b
  where
  reflects y := ⟨(h.reflects (f y)).eq_iff.trans hf.eq_iff, (h.reflects (f y)).lt_iff,
    (h.reflects (f y)).gt_iff⟩
  trans := h.trans

theorem pair {cmp' : β → β → Ordering} {r : α → α → Prop} {s : β → β → Prop} {a : α} {b : β}
    (ha : LinearAt cmp r a) (hb : LinearAt cmp' s b) :
  LinearAt (fun x y => (cmp x.1 y.1).then (cmp' x.2 y.2)) (Prod.Lex r s) (a, b)
  where
  reflects := by
    rintro ⟨a', b'⟩
    obtain ⟨heq, hlt, hgt⟩ := (ha.reflects a').then (hb.reflects b')
    refine ⟨?_, ?_, ?_⟩
    · rw [heq, Prod.mk.injEq]
    · rw [hlt, Prod.lex_def]
    · rw [hgt, Prod.lex_def]
  trans := by
    rintro ⟨a', b'⟩ ⟨a'', b''⟩ h h'
    rw [Prod.lex_def] at h h' ⊢
    rcases h with h | ⟨rfl, h⟩ <;> rcases h' with h' | ⟨rfl, h'⟩
    · exact .inl (ha.trans h h')
    · exact .inl h
    · exact .inl h'
    · exact .inr ⟨rfl, hb.trans h h'⟩

/-- Lists are compared up to the first elements that differ; an initial part comes first. -/
theorem list {l : List α} (h : ∀ a ∈ l, LinearAt cmp before a) :
  LinearAt (List.compareLex cmp) (List.Lex before) l
  := by
  induction l with
  | nil =>
      constructor
      · intro k
        cases k with
        | nil =>
            rw [List.compareLex_nil_nil]
            exact ⟨by simp, by simp, by simp⟩
        | cons b k =>
            rw [List.compareLex_nil_cons]
            exact ⟨by simp, by simp, by simp⟩
      · intro k m hk hm
        cases hm with
        | nil => cases hk
        | rel _ => exact .nil
        | cons _ => exact .nil
  | cons a l ih =>
      obtain ⟨ha, hl⟩ := List.forall_mem_cons.1 h
      constructor
      · intro k
        cases k with
        | nil =>
            rw [List.compareLex_cons_nil]
            exact ⟨by simp, by simp, by simp⟩
        | cons b k =>
            obtain ⟨heq, hlt, hgt⟩ := (ha.reflects b).then ((ih hl).reflects k)
            rw [List.compareLex_cons_cons]
            exact ⟨heq.trans List.cons_eq_cons.symm, hlt.trans List.cons_lex_cons_iff.symm,
              hgt.trans List.cons_lex_cons_iff.symm⟩
      · intro k m hk hm
        cases hk with
        | rel hab =>
            cases hm with
            | rel hbc => exact .rel (ha.trans hab hbc)
            | cons _ => exact .rel hab
        | cons hk =>
            cases hm with
            | rel hbc => exact .rel hbc
            | cons hm => exact .cons ((ih hl).trans hk hm)

end LinearAt

/-! ### Alternatives -/

/-- Elements of different alternatives are ordered as the alternatives are. -/
structure ByAlternative (index : α → Nat) (cmp : α → α → Ordering) (before : α → α → Prop) :
    Prop where
  compare_of_ne {a b : α} (h : index a ≠ index b) : cmp a b = compare (index a) (index b)
  before_of_ne {a b : α} (h : index a ≠ index b) : before a b ↔ index a < index b

namespace ByAlternative

variable {index : α → Nat}

theorem reflects_of_ne (h : ByAlternative index cmp before) {a b : α} (hne : index a ≠ index b) :
  Reflects before a b (cmp a b)
  := by
  rw [h.compare_of_ne hne]
  refine ⟨?_, ?_, ?_⟩
  · rw [Nat.compare_eq_eq]
    exact ⟨fun heq => absurd heq hne, congrArg index⟩
  · rw [Nat.compare_eq_lt, h.before_of_ne hne]
  · rw [Nat.compare_eq_gt, h.before_of_ne hne.symm]

theorem index_le (h : ByAlternative index cmp before) {a b : α} (hab : before a b) :
  index a ≤ index b
  := by
  by_cases hne : index a = index b
  · exact Nat.le_of_eq hne
  · exact Nat.le_of_lt ((h.before_of_ne hne).1 hab)

/-- An element is compared with others of its alternative by its members, which `f` puts
together. -/
theorem linearAt (h : ByAlternative index cmp before) {f : β → α} {x : β}
    (hinj : Function.Injective f) (hsame : ∀ b, index b = index (f x) → ∃ y, b = f y)
    {cmp' : β → β → Ordering} {r : β → β → Prop} (hcmp : ∀ y, cmp (f x) (f y) = cmp' x y)
    (hbefore : ∀ y z, before (f y) (f z) ↔ r y z) (hx : LinearAt cmp' r x) :
  LinearAt cmp before (f x)
  where
  reflects b := by
    by_cases hb : index b = index (f x)
    · obtain ⟨y, rfl⟩ := hsame b hb
      obtain ⟨heq, hlt, hgt⟩ := hx.reflects y
      rw [hcmp]
      exact ⟨heq.trans hinj.eq_iff.symm, hlt.trans (hbefore x y).symm, hgt.trans (hbefore y x).symm⟩
    · exact h.reflects_of_ne (Ne.symm hb)
  trans {b c} hab hbc := by
    -- The alternatives do not descend, so that between equal ones they stay the same.
    have hb := h.index_le hab
    have hc := h.index_le hbc
    by_cases hne : index (f x) = index c
    · obtain ⟨y, rfl⟩ := hsame b (by omega)
      obtain ⟨z, rfl⟩ := hsame c hne.symm
      rw [hbefore] at hab hbc ⊢
      exact hx.trans hab hbc
    · rw [h.before_of_ne hne]
      omega

/-- An alternative without members has one element. -/
theorem linearAt_of_only (h : ByAlternative index cmp before) {a : α}
    (honly : ∀ b, index b = index a → b = a) (hcmp : cmp a a = .eq) (hbefore : ¬before a a) :
  LinearAt cmp before a
  := by
  have hunit : LinearAt (fun _ _ => .eq) (fun _ _ => False) () :=
    ⟨fun _ => ⟨by simp, by simp, by simp⟩, False.elim⟩
  apply h.linearAt (f := fun _ => a) (fun _ _ _ => rfl) _ (fun _ => hcmp) _ hunit
  · intro b hb
    exact ⟨(), honly b hb⟩
  · intro _ _
    apply iff_false_intro hbefore

end ByAlternative

end ServiceFlow
