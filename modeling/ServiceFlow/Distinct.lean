import Std.Data.HashMap
import Std.Data.HashSet

/-!
# Sequences of distinct elements

A sequence that keeps the order in which elements were first inserted and knows at once whether it
holds an element; and tables that keep such a sequence for every key.
-/

namespace ServiceFlow

/-- Different elements in the order of their insertion. -/
structure Distinct (α : Type) [DecidableEq α] [Hashable α] where
  items : Array α
  members : Std.HashSet α
  mem_members : ∀ a, a ∈ members ↔ a ∈ items
  nodup : items.toList.Nodup

namespace Distinct

variable {α : Type} [DecidableEq α] [Hashable α]

def empty : Distinct α := ⟨#[], ∅, fun a => by simp, List.nodup_nil⟩

instance : Inhabited (Distinct α) := ⟨empty⟩

instance : Membership α (Distinct α) := ⟨fun d a => a ∈ d.members⟩

instance (a : α) (d : Distinct α) : Decidable (a ∈ d) := inferInstanceAs (Decidable (a ∈ d.members))

def toList (d : Distinct α) : List α := d.items.toList

def size (d : Distinct α) : Nat := d.items.size

@[simp] theorem mem_toList {d : Distinct α} {a : α} :
  a ∈ d.toList ↔ a ∈ d
  := by
  rw [toList, Array.mem_toList_iff, ← d.mem_members]
  exact Iff.rfl

@[simp] theorem toList_empty :
  (empty : Distinct α).toList = []
  := rfl

@[simp] theorem not_mem_empty {a : α} :
  a ∉ (empty : Distinct α)
  := by
  rw [← mem_toList]
  exact List.not_mem_nil

/-- The element behind all others, unless it is there already. -/
def insert (d : Distinct α) (a : α) : Distinct α :=
  if h : a ∈ d then d
  else {
    items := d.items.push a
    members := d.members.insert a
    mem_members := fun b => by
      rw [Std.HashSet.mem_insert, d.mem_members, Array.mem_push, beq_iff_eq, or_comm, eq_comm]
    nodup := by
      rw [Array.toList_push, List.nodup_append]
      refine ⟨d.nodup, List.nodup_cons.2 ⟨List.not_mem_nil, List.nodup_nil⟩, fun b hb c hc => ?_⟩
      rintro rfl
      obtain rfl := List.mem_singleton.1 hc
      exact h (mem_toList.1 hb) }

theorem toList_insert (d : Distinct α) (a : α) :
  (d.insert a).toList = if a ∈ d then d.toList else d.toList ++ [a]
  := by
  unfold insert
  split
  · rfl
  · exact Array.toList_push

@[simp] theorem mem_insert {d : Distinct α} {a b : α} :
  b ∈ d.insert a ↔ b = a ∨ b ∈ d
  := by
  rw [← mem_toList, toList_insert]
  split
  · next h =>
    rw [mem_toList]
    exact ⟨Or.inr, fun hb => hb.elim (fun e => e ▸ h) id⟩
  · simp [or_comm]

/-- The elements of a list, each at its first place. -/
def ofList (l : List α) : Distinct α := l.foldl insert empty

end Distinct

/-- A sequence of distinct elements for every key. -/
structure Table (κ α : Type) [DecidableEq κ] [Hashable κ] [DecidableEq α] [Hashable α] where
  rows : Std.HashMap κ (Distinct α)

namespace Table

variable {κ α : Type} [DecidableEq κ] [Hashable κ] [DecidableEq α] [Hashable α]

def empty : Table κ α := ⟨∅⟩

instance : Inhabited (Table κ α) := ⟨empty⟩

def row (t : Table κ α) (k : κ) : Distinct α := t.rows.getD k .empty

/-- Inserts an element into the row of a key. -/
def add (t : Table κ α) (k : κ) (a : α) : Table κ α :=
  ⟨t.rows.alter k (fun d => some ((d.getD .empty).insert a))⟩

@[simp] theorem row_empty (k : κ) :
  (empty : Table κ α).row k = .empty
  := by
  rw [row, empty, Std.HashMap.getD_empty]

theorem row_add (t : Table κ α) (k l : κ) (a : α) :
  (t.add k a).row l = if k = l then (t.row l).insert a else t.row l
  := by
  rw [row, add, Std.HashMap.getD_alter, row]
  by_cases h : k = l
  · subst h
    simp [Std.HashMap.getD_eq_getD_getElem?]
  · simp [h]

end Table

end ServiceFlow
