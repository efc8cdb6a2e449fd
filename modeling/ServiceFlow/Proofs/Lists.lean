import Mathlib.Data.List.Forall2
import Mathlib.Data.List.Induction
import Mathlib.Data.List.Nodup
import Mathlib.Data.List.Perm.Basic

/-!
# Lists without repetitions, and lists with keys

Programs keep what they find in the order in which it was found first, and look things up by the
keys that tell them apart: the classes of a view by their names, the methods of a class by their
signatures, the calls of a method by their sites.
-/

namespace ServiceFlow

variable {α β κ : Type}

/-! ### Repetitions -/

section

variable [DecidableEq α]

/-- Each element is kept once. -/
theorem nodup_eraseDups (l : List α) :
  l.eraseDups.Nodup
  := by
  cases l with
  | nil => apply List.nodup_nil
  | cons a l =>
      rw [List.eraseDups_cons, List.nodup_cons]
      constructor
      · simp
      · apply nodup_eraseDups
termination_by l.length
decreasing_by
  have hlength := List.length_filter_le (fun b => !b == a) l
  rw [List.length_cons]
  omega

theorem eraseDups_of_nodup {l : List α} (h : l.Nodup) :
  l.eraseDups = l
  := by
  induction l with
  | nil => rfl
  | cons a l ih =>
      obtain ⟨ha, hl⟩ := List.nodup_cons.1 h
      have hfilter : l.filter (fun b => !b == a) = l := by
        apply List.filter_eq_self.2
        intro b hb
        simpa using ne_of_mem_of_not_mem hb ha
      rw [List.eraseDups_cons, hfilter, ih hl]

/-- An element that comes last counts only if it is new. -/
theorem eraseDups_append_singleton (l : List α) (a : α) :
  (l ++ [a]).eraseDups = if a ∈ l then l.eraseDups else l.eraseDups ++ [a]
  := by
  rw [List.eraseDups_append, List.removeAll, List.filter_singleton]
  by_cases h : a ∈ l
  · simp [h]
  · simp [h, List.eraseDups_cons]

end

variable [DecidableEq κ]

/-- Where elements are told apart by a key, each key stands at the place of its first element. -/
theorem pairwise_eraseDups_map {R : α → α → Prop} (key : α → κ) {l : List α} (h : l.Pairwise R) :
  (l.map key).eraseDups.Pairwise (fun j k => ∃ a ∈ l, key a = j ∧ ∀ b ∈ l, key b = k → R a b)
  := by
  induction hlength : l.length using Nat.strongRecOn generalizing l with
  | ind n ih =>
      cases l with
      | nil => apply List.Pairwise.nil
      | cons a l =>
          obtain ⟨ha, hl⟩ := List.pairwise_cons.1 h
          rw [List.map_cons, List.eraseDups_cons, List.filter_map, List.pairwise_cons]
          set rest := l.filter ((fun k => !k == key a) ∘ key)
          have hne : ∀ k ∈ (rest.map key).eraseDups, k ≠ key a := by
            intro k hk
            obtain ⟨b, hb, rfl⟩ := List.mem_map.1 (List.mem_eraseDups.1 hk)
            simpa using (List.mem_filter.1 hb).2
          have hshort : rest.length < n := by
            rw [← hlength, List.length_cons]
            apply Nat.lt_succ_of_le (List.length_filter_le _ l)
          constructor
          · intro k hk
            use a, List.mem_cons_self, rfl
            intro b hb hbk
            rcases List.mem_cons.1 hb with rfl | hb
            · cases hne k hk hbk.symm
            · apply ha b hb
          · -- A key other than that of the head has all its elements in the rest.
            apply List.Pairwise.imp_of_mem _ (ih _ hshort (hl.filter _) rfl)
            rintro j k _ hk ⟨b, hb, rfl, hfirst⟩
            use b, List.mem_cons_of_mem _ (List.mem_filter.1 hb).1, rfl
            intro c hc hck
            rcases List.mem_cons.1 hc with rfl | hc
            · cases hne k hk hck.symm
            · apply hfirst c _ hck
              apply List.mem_filter.2 ⟨hc, _⟩
              simpa [hck] using hne k hk

/-! ### Places -/

theorem pairwise_zipIdx (l : List α) :
  l.zipIdx.Pairwise (fun x y => x.2 < y.2)
  := by
  apply List.pairwise_map.1
  rw [List.zipIdx_map_snd]
  exact List.pairwise_lt_range'

/-- If keys tell the elements of a list apart, the first of the things that are made of an element
and of its places is kept. -/
theorem foldl_new_zipIdx [DecidableEq α] (make : α → Nat → β) {key : β → κ} {keyOf : α → κ}
    (hkeyOf : Function.Injective keyOf) (hkey : ∀ a i, key (make a i) = keyOf a) (l : List α) :
  (l.zipIdx.map (fun e => make e.1 e.2)).foldl
      (fun kept b => if kept.any (fun c => key c = key b) then kept else kept ++ [b]) [] =
    l.eraseDups.map (fun a => make a (l.idxOf a))
  := by
  induction l using List.reverseRecOn with
  | nil => rfl
  | append_singleton l a ih =>
      have hmem : (l.eraseDups.map (fun b => make b (l.idxOf b))).any
          (fun c => key c = key (make a l.length)) ↔ a ∈ l := by
        simp [hkey, hkeyOf.eq_iff]
      have hkept : l.eraseDups.map (fun b => make b ((l ++ [a]).idxOf b)) =
          l.eraseDups.map (fun b => make b (l.idxOf b)) := by
        apply List.map_congr_left
        intro b hb
        rw [List.idxOf_append_of_mem (List.mem_eraseDups.1 hb)]
      rw [List.zipIdx_append, List.map_append, List.foldl_append, ih, eraseDups_append_singleton]
      simp only [List.zipIdx_cons, List.zipIdx_nil, List.map_cons, List.map_nil, List.foldl_cons,
        List.foldl_nil, Nat.zero_add]
      by_cases ha : a ∈ l
      · rw [if_pos (hmem.2 ha), if_pos ha, hkept]
      · rw [if_neg (mt hmem.1 ha), if_neg ha, List.map_append, hkept, List.map_singleton,
          List.idxOf_append_of_notMem ha]
        simp

theorem exists_getElem?_of_forall₂ {R : α → β → Prop} {l : List α} {r : List β}
    (h : List.Forall₂ R l r) {k : Nat} {a : α} (ha : l[k]? = some a) :
  ∃ b, r[k]? = some b ∧ R a b
  := by
  induction h generalizing k with
  | nil => cases ha
  | @cons a' b' _ _ hab _ ih =>
      cases k with
      | zero =>
          obtain rfl := Option.some.inj ha
          use b', rfl, hab
      | succ k => apply ih ha

/-! ### Keys -/

/-- The only element with its key is found by the key. -/
theorem find?_of_key {key : α → κ} {l : List α} {a : α} (ha : a ∈ l)
    (honly : ∀ b ∈ l, key b = key a → b = a) :
  l.find? (fun b => key b = key a) = some a
  := by
  cases h : l.find? (fun b => key b = key a) with
  | none => simpa using List.find?_eq_none.1 h a ha
  | some b =>
      have hkey : key b = key a := by simpa using List.find?_some h
      rw [honly b (List.mem_of_find?_eq_some h) hkey]

/-- Of elements with different keys, the only one with a key is the first one. -/
theorem flatMap_if_key {key : α → κ} {l : List α} (hl : (l.map key).Nodup) (f : α → List β)
    (k : κ) :
  l.flatMap (fun a => if key a = k then f a else []) = (l.find? (fun a => key a = k)).elim [] f
  := by
  induction l with
  | nil => rfl
  | cons a l ih =>
      obtain ⟨ha, hl⟩ := List.nodup_cons.1 hl
      rw [List.flatMap_cons, ih hl]
      by_cases hk : key a = k
      · have hnone : l.find? (fun a => key a = k) = none := by
          apply List.find?_eq_none.2
          intro b hb hkey
          apply ha
          rw [hk, ← of_decide_eq_true hkey]
          apply List.mem_map_of_mem hb
        rw [if_pos hk, List.find?_cons_of_pos (by simpa using hk), hnone]
        apply List.append_nil
      · rw [if_neg hk, List.find?_cons_of_neg (by simpa using hk)]
        rfl

/-- Of rows with different keys, the elements with one of the keys are those of its row. -/
theorem filter_flatMap_of_key (key : β → κ) {row : κ → List β}
    (hkey : ∀ k, ∀ b ∈ row k, key b = k) {l : List κ} (hl : l.Nodup) (k : κ) :
  (l.flatMap row).filter (fun b => key b = k) = if k ∈ l then row k else []
  := by
  induction l with
  | nil => rfl
  | cons a l ih =>
      obtain ⟨ha, hl⟩ := List.nodup_cons.1 hl
      rw [List.flatMap_cons, List.filter_append, ih hl]
      by_cases hak : a = k
      · subst hak
        have hself : (row a).filter (fun b => key b = a) = row a := by
          apply List.filter_eq_self.2
          intro b hb
          simpa using hkey a b hb
        rw [hself, if_neg ha, if_pos List.mem_cons_self, List.append_nil]
      · have hother : (row a).filter (fun b => key b = k) = [] := by
          apply List.filter_eq_nil_iff.2
          intro b hb
          simpa [hkey a b hb] using hak
        rw [hother, List.nil_append]
        simp [Ne.symm hak]

/-! ### Parts of lists -/

/-- To look for a property is to look for it among the elements with a weaker one. -/
theorem filter_filter_of_imp {p q : α → Bool} (himp : ∀ a, p a → q a) (l : List α) :
  (l.filter q).filter p = l.filter p
  := by
  rw [List.filter_filter]
  apply List.filter_congr
  intro a _
  rw [Bool.and_eq_left_iff_imp]
  apply himp

theorem flatMap_filterMap_id (f : α → List β) (l : List (Option α)) :
  (l.filterMap id).flatMap f = l.flatMap (fun a => a.elim [] f)
  := by
  induction l with
  | nil => rfl
  | cons a l ih =>
      cases a with
      | none => apply ih
      | some a => apply congrArg (f a ++ ·) ih

theorem exists_getLast?_of_perm {f : α → Option β} {l l' : List α} (h : l.Perm l') {b : β}
    (hb : (l.filterMap f).getLast? = some b) :
  ∃ b', (l'.filterMap f).getLast? = some b'
  := by
  apply Option.isSome_iff_exists.1
  rw [List.getLast?_isSome]
  intro hnil
  have hperm := h.filterMap f
  rw [hnil, List.perm_nil] at hperm
  rw [hperm] at hb
  cases hb

end ServiceFlow
