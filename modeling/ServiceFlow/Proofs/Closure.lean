import Mathlib.Data.List.Perm.Subperm
import Mathlib.Logic.Relation
import ServiceFlow.Closure
import ServiceFlow.Proofs.Lists

/-!
# What closures contain

The breadth-first search finds each element once, and with enough steps it finds exactly what can be
reached from the starting elements.  It needs no more steps than there are elements to be found.
-/

namespace ServiceFlow.Closure

variable {α : Type} [DecidableEq α]

/-- Some steps lead from a starting element to the element. -/
def Reaches (next : α → List α) (starts : List α) (b : α) : Prop :=
  ∃ a ∈ starts, Relation.ReflTransGen (fun a b => b ∈ next a) a b

section

omit [DecidableEq α]

variable {next : α → List α} {starts : List α}

theorem Reaches.start {a : α} (h : a ∈ starts) :
  Reaches next starts a
  := ⟨a, h, .refl⟩

theorem Reaches.step {a b : α} (h : Reaches next starts a) (hb : b ∈ next a) :
  Reaches next starts b
  := by
  obtain ⟨start, hstart, hsteps⟩ := h
  use start, hstart, hsteps.tail hb

/-- What can be reached lies in every list that has the starting elements and is closed under
steps. -/
theorem Reaches.mem {found : List α} (hstarts : starts ⊆ found)
    (hclosed : ∀ a ∈ found, next a ⊆ found) {b : α} (h : Reaches next starts b) :
  b ∈ found
  := by
  obtain ⟨a, ha, hsteps⟩ := h
  induction hsteps with
  | refl => apply hstarts ha
  | tail _ hb ih => apply hclosed _ ih hb

end

/-! ### The search -/

theorem mem_news {next : α → List α} {found : List α} {a b : α} :
  b ∈ news next found a ↔ b ∈ next a ∧ b ∉ found
  := by
  simp [news]

/-- The search has found these elements, and has yet to take those of the queue. -/
structure Explores (next : α → List α) (starts queue found : List α) : Prop where
  nodup : found.Nodup
  begun : starts ⊆ found
  queued : queue ⊆ found
  reached : ∀ b ∈ found, Reaches next starts b
  closed : ∀ a ∈ found, a ∉ queue → next a ⊆ found

namespace Explores

variable {next : α → List α} {starts queue found : List α}

theorem start (next : α → List α) (starts : List α) :
  Explores next starts starts.eraseDups starts.eraseDups
  := by
  constructor
  · apply nodup_eraseDups
  · intro a ha
    apply List.mem_eraseDups.2 ha
  · apply List.Subset.refl
  · intro b hb
    apply Reaches.start (List.mem_eraseDups.1 hb)
  · intro a ha hqueue
    contradiction

/-- To take an element of the queue adds its news. -/
theorem take {a : α} (h : Explores next starts (a :: queue) found) :
  Explores next starts (queue ++ news next found a) (found ++ news next found a)
  := by
  obtain ⟨ha, hqueue⟩ := List.cons_subset.1 h.queued
  constructor
  · rw [List.nodup_append]
    refine ⟨h.nodup, nodup_eraseDups _, ?_⟩
    rintro b hb c hc rfl
    apply (mem_news.1 hc).2 hb
  · apply List.Subset.trans h.begun (List.subset_append_left _ _)
  · apply List.append_subset.2
    use List.Subset.trans hqueue (List.subset_append_left _ _), List.subset_append_right _ _
  · intro b hb
    rcases List.mem_append.1 hb with hb | hb
    · apply h.reached b hb
    · apply (h.reached a ha).step (mem_news.1 hb).1
  · intro b hb hnew c hc
    rw [List.mem_append, not_or] at hnew
    have hfound : b ∈ found := (List.mem_append.1 hb).resolve_right hnew.2
    by_cases hba : b = a
    · subst hba
      by_cases hcfound : c ∈ found
      · apply List.mem_append_left _ hcfound
      · apply List.mem_append_right _ (mem_news.2 ⟨hc, hcfound⟩)
    · apply List.mem_append_left
      apply h.closed b hfound _ hc
      simp [hba, hnew.1]

/-- The search goes on to a closed list if it has as many steps left as there are elements to be
taken: those of the queue, and those that were not found yet. -/
theorem search {bound : Nat}
    (hbound : ∀ l : List α, l.Nodup → (∀ b ∈ l, Reaches next starts b) → l.length ≤ bound)
    {fuel : Nat} (h : Explores next starts queue found)
    (hfuel : queue.length + bound ≤ fuel + found.length) :
  Explores next starts [] (search next fuel queue found)
  := by
  induction fuel generalizing queue found with
  | zero =>
      have hlength := hbound found h.nodup h.reached
      obtain rfl : queue = [] := List.length_eq_zero_iff.1 (by omega)
      apply h
  | succ fuel ih =>
      cases queue with
      | nil => apply h
      | cons a queue =>
          apply ih h.take
          rw [List.length_cons] at hfuel
          rw [List.length_append, List.length_append]
          omega

omit [DecidableEq α] in
/-- When the queue is empty, the search has found exactly what can be reached. -/
theorem mem_iff (h : Explores next starts [] found) {b : α} :
  b ∈ found ↔ Reaches next starts b
  := by
  constructor
  · apply h.reached
  · apply Reaches.mem h.begun
    intro a ha
    apply h.closed a ha List.not_mem_nil

end Explores

/-- If there are no more than `bound` elements to be found, all of them are. -/
theorem explores_reachable {next : α → List α} {starts : List α} {bound : Nat}
    (hbound : ∀ l : List α, l.Nodup → (∀ b ∈ l, Reaches next starts b) → l.length ≤ bound) :
  Explores next starts [] (reachable next bound starts)
  := by
  apply (Explores.start next starts).search hbound
  omega

end ServiceFlow.Closure
