/-!
# Ascending association lists

Finite maps as lists of pairs in strictly ascending order of their keys.  `insert` puts a pair in
its place and replaces the pair of an equal key, `erase` drops a key, and both keep the list
ascending.  Looking up a key never asks for the order, so that its laws hold of every list.
-/

namespace ServiceFlow.Sorted

variable {κ ν : Type}

/-- The keys of the list are strictly ascending. -/
def Ascending [Ord κ] (l : List (κ × ν)) : Prop :=
  l.Pairwise (fun a b => compare a.1 b.1 = .lt)

/-- The value of the first pair with the key. -/
def lookup [DecidableEq κ] (k : κ) : List (κ × ν) → Option ν
  | [] => none
  | (k', v) :: rest => if k = k' then some v else lookup k rest

/-- The list with the pair in its place; a pair with an equal key gives way. -/
def insert [Ord κ] (k : κ) (v : ν) : List (κ × ν) → List (κ × ν)
  | [] => [(k, v)]
  | (k', v') :: rest =>
      match compare k k' with
      | .lt => (k, v) :: (k', v') :: rest
      | .eq => (k, v) :: rest
      | .gt => (k', v') :: insert k v rest

/-- The list without the pairs of the key. -/
def erase [DecidableEq κ] (k : κ) (l : List (κ × ν)) : List (κ × ν) :=
  l.filter (fun e => e.1 ≠ k)

/-! ### Members -/

theorem mem_insert [Ord κ] {k : κ} {v : ν} {e : κ × ν} {l : List (κ × ν)} (h : e ∈ insert k v l) :
  e = (k, v) ∨ e ∈ l
  := by
  induction l with
  | nil => simpa [insert] using h
  | cons a rest ih =>
      obtain ⟨k', v'⟩ := a
      rw [insert] at h
      split at h <;> simp only [List.mem_cons] at h ⊢
      · exact h
      · exact h.imp_right .inr
      · rcases h with h | h
        · exact .inr (.inl h)
        · exact (ih h).imp_right .inr

theorem mem_of_mem_erase [DecidableEq κ] {k : κ} {e : κ × ν} {l : List (κ × ν)}
    (h : e ∈ erase k l) :
  e ∈ l
  := (List.mem_filter.1 h).1

/-! ### Order -/

theorem ascending_nil [Ord κ] :
  Ascending ([] : List (κ × ν))
  := List.Pairwise.nil

theorem Ascending.insert [Ord κ] [Std.TransOrd κ] [Std.LawfulEqOrd κ] {l : List (κ × ν)}
    (h : Ascending l) (k : κ) (v : ν) :
  Ascending (Sorted.insert k v l)
  := by
  induction l with
  | nil => exact List.pairwise_singleton _ _
  | cons a rest ih =>
      obtain ⟨k', v'⟩ := a
      obtain ⟨hhead, htail⟩ := List.pairwise_cons.1 h
      rw [Sorted.insert]
      split
      · next hlt =>
        exact List.pairwise_cons.2 ⟨fun e he => (List.mem_cons.1 he).elim (fun heq => heq ▸ hlt)
          (fun hmem => Std.TransCmp.lt_trans hlt (hhead e hmem)), h⟩
      · next heq =>
        obtain rfl := Std.LawfulEqOrd.eq_of_compare heq
        exact List.pairwise_cons.2 ⟨hhead, htail⟩
      · next hgt =>
        refine List.pairwise_cons.2 ⟨fun e he => ?_, ih htail⟩
        rcases mem_insert he with rfl | hmem
        · exact Std.OrientedCmp.lt_of_gt hgt
        · exact hhead e hmem

theorem Ascending.erase [Ord κ] [DecidableEq κ] {l : List (κ × ν)} (h : Ascending l) (k : κ) :
  Ascending (Sorted.erase k l)
  := h.filter _

theorem Ascending.filter [Ord κ] {l : List (κ × ν)} (h : Ascending l) (p : κ × ν → Bool) :
  Ascending (l.filter p)
  := List.Pairwise.filter p h

end ServiceFlow.Sorted
