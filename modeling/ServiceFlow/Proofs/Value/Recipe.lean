import ServiceFlow.Proofs.Value.Store

/-!
# Stores and how they are made

Stores are made from the empty one by writing, by laying stores over each other and by taking
parts.  Some of these operations put bindings in their place without a look at the value.  Still no
location is ever bound to an unknown value, because the bindings come from stores that were made in
the same way.  So a store is determined by what is read from it.
-/

namespace ServiceFlow

/-! ### Bindings -/

/-- Locations with values, any of which may be unknown. -/
abbrev Bindings := List (Location × Value)

namespace Bindings

/-- Every binding is to a known value. -/
def Known (l : Bindings) : Prop := ∀ e ∈ l, e.2 ≠ .unknown

/-- Writes a value; to write an unknown one removes the binding. -/
def write (l : Bindings) (x : Location) (v : Value) : Bindings :=
  if v.isKnown then Sorted.insert x v l else Sorted.erase x l

/-- Puts all bindings of the second list in their places, whatever their values are. -/
def overlay (l k : Bindings) : Bindings := k.foldl (fun l e => Sorted.insert e.1 e.2 l) l

/-- Puts those bindings of the second list in their places whose location has none. -/
def fillMissing (l k : Bindings) : Bindings :=
  k.foldl (fun l e => if (Sorted.lookup e.1 l).isSome then l else Sorted.insert e.1 e.2 l) l

def statics (l : Bindings) : Bindings := l.filter (fun e => e.1.isStatic)

def ofList (writes : List (Location × Value)) : Bindings :=
  writes.foldl (fun l e => l.write e.1 e.2) []

/-! #### Operations on known bindings -/

variable {l k : Bindings}

theorem Known.insert (hl : l.Known) (x : Location) {v : Value} (hv : v ≠ .unknown) :
  Known (Sorted.insert x v l)
  := by
  intro e he
  rcases Sorted.mem_insert he with rfl | he
  · apply hv
  · apply hl e he

theorem Known.write (hl : l.Known) (x : Location) (v : Value) :
  (l.write x v).Known
  := by
  rw [Bindings.write]
  split
  · next hv =>
    apply hl.insert x
    simpa [Value.isKnown] using hv
  · intro e he
    apply hl e (Sorted.mem_of_mem_erase he)

/-- What is laid over has to be known as well. -/
theorem Known.overlay (hl : l.Known) (hk : k.Known) :
  (l.overlay k).Known
  := by
  induction k generalizing l with
  | nil => apply hl
  | cons e k ih =>
      apply ih (hl.insert e.1 (hk e List.mem_cons_self))
      intro e' he'
      apply hk e' (List.mem_cons_of_mem _ he')

theorem Known.fillMissing (hl : l.Known) (hk : k.Known) :
  (l.fillMissing k).Known
  := by
  induction k generalizing l with
  | nil => apply hl
  | cons e k ih =>
      have hrest : Known k := fun e' he' => hk e' (List.mem_cons_of_mem _ he')
      rw [Bindings.fillMissing, List.foldl_cons]
      split
      · apply ih hl hrest
      · apply ih (hl.insert e.1 (hk e List.mem_cons_self)) hrest

theorem Known.statics (hl : l.Known) :
  l.statics.Known
  := fun e he => hl e (List.mem_filter.1 he).1

theorem known_ofList (writes : List (Location × Value)) :
  (ofList writes).Known
  := by
  have hfold : ∀ (l : Bindings), l.Known →
      Known (writes.foldl (fun l e => l.write e.1 e.2) l) := by
    induction writes with
    | nil =>
        intro l hl
        apply hl
    | cons e writes ih =>
        intro l hl
        apply ih _ (hl.write e.1 e.2)
  apply hfold
  intro e he
  cases he

end Bindings

namespace Store

theorem known_entries (s : Store) :
  Bindings.Known s.entries
  := by
  intro e he
  simpa [Value.isKnown] using s.known e he

theorem entries_set (s : Store) (x : Location) (v : Value) :
  (s.set x v).entries = Bindings.write s.entries x v
  := by
  rw [set, Bindings.write]
  split <;> rfl

theorem entries_set_of_ne {v : Value} (hv : v ≠ .unknown) (s : Store) (x : Location) :
  (s.set x v).entries = Sorted.insert x v s.entries
  := by
  rw [entries_set, Bindings.write, if_pos]
  simpa [Value.isKnown] using hv

theorem entries_ofList (writes : List (Location × Value)) :
  (ofList writes).entries = Bindings.ofList writes
  := by
  have hfold : ∀ s : Store, (writes.foldl (fun s e => s.set e.1 e.2) s).entries =
      writes.foldl (fun l e => Bindings.write l e.1 e.2) s.entries := by
    induction writes with
    | nil =>
        intro s
        rfl
    | cons e writes ih =>
        intro s
        rw [List.foldl_cons, List.foldl_cons, ih, entries_set]
  apply hfold

theorem entries_overlay (s t : Store) :
  (s.overlay t).entries = Bindings.overlay s.entries t.entries
  := by
  have hfold : ∀ {k : Bindings}, k.Known → ∀ s : Store,
      (k.foldl (fun s e => s.set e.1 e.2) s).entries = Bindings.overlay s.entries k := by
    intro k hk
    induction k with
    | nil =>
        intro s
        rfl
    | cons e k ih =>
        intro s
        have hrest : Bindings.Known k := fun e' he' => hk e' (List.mem_cons_of_mem _ he')
        rw [List.foldl_cons, ih hrest, entries_set_of_ne (hk e List.mem_cons_self)]
        rfl
  apply hfold t.known_entries

/-- A location is known exactly if it has an entry. -/
theorem isKnown_get (s : Store) (x : Location) :
  (s.get x).isKnown = (Sorted.lookup x s.entries).isSome
  := by
  rw [get]
  cases h : Sorted.lookup x s.entries with
  | none => rfl
  | some v => apply s.known _ (Sorted.mem_of_lookup h)

theorem entries_fillMissing (s t : Store) :
  (s.fillMissing t).entries = Bindings.fillMissing s.entries t.entries
  := by
  have hfold : ∀ {k : Bindings}, k.Known → ∀ s : Store,
      (k.foldl (fun s e => if (s.get e.1).isKnown then s else s.set e.1 e.2) s).entries =
        Bindings.fillMissing s.entries k := by
    intro k hk
    induction k with
    | nil =>
        intro s
        rfl
    | cons e k ih =>
        intro s
        have hrest : Bindings.Known k := fun e' he' => hk e' (List.mem_cons_of_mem _ he')
        rw [List.foldl_cons, ih hrest, isKnown_get, Bindings.fillMissing, Bindings.fillMissing,
          List.foldl_cons]
        split
        · rfl
        · rw [entries_set_of_ne (hk e List.mem_cons_self)]
  apply hfold t.known_entries

end Store

/-! ### Recipes -/

/-- The ways to make a store. -/
inductive Recipe where
  | empty
  | set (r : Recipe) (x : Location) (v : Value)
  | setVar (r : Recipe) (m : MethodSig) (l : Local) (v : Value)
  | overlay (r s : Recipe)
  | fillMissing (r s : Recipe)
  | statics (r : Recipe)
  | collect (writes : List (Location × Value))

namespace Recipe

/-- The store that is made. -/
def store : Recipe → Store
  | .empty => .empty
  | .set r x v => r.store.set x v
  | .setVar r m l v => r.store.setVar m l v
  | .overlay r s => r.store.overlay s.store
  | .fillMissing r s => r.store.fillMissing s.store
  | .statics r => r.store.statics
  | .collect writes => .ofList writes

/-- The bindings that are made if only what is written is looked at. -/
def bindings : Recipe → Bindings
  | .empty => []
  | .set r x v => r.bindings.write x v
  | .setVar r m l v => r.bindings.write (.var m l) v
  | .overlay r s => r.bindings.overlay s.bindings
  | .fillMissing r s => r.bindings.fillMissing s.bindings
  | .statics r => r.bindings.statics
  | .collect writes => .ofList writes

/-- The operations that do not look at values keep to known ones. -/
theorem known_bindings (r : Recipe) :
  r.bindings.Known
  := by
  induction r with
  | empty =>
      intro e he
      cases he
  | set r x v ih => apply ih.write
  | setVar r m l v ih => apply ih.write
  | overlay r s ihr ihs => apply ihr.overlay ihs
  | fillMissing r s ihr ihs => apply ihr.fillMissing ihs
  | statics r ih => apply ih.statics
  | collect writes => apply Bindings.known_ofList

theorem entries_store (r : Recipe) :
  r.store.entries = r.bindings
  := by
  induction r with
  | empty => rfl
  | set r x v ih => rw [store, Store.entries_set, ih, bindings]
  | setVar r m l v ih => rw [store, Store.setVar, Store.entries_set, ih, bindings]
  | overlay r s ihr ihs => rw [store, Store.entries_overlay, ihr, ihs, bindings]
  | fillMissing r s ihr ihs => rw [store, Store.entries_fillMissing, ihr, ihs, bindings]
  | statics r ih =>
      rw [bindings, ← ih]
      rfl
  | collect writes => rw [store, Store.entries_ofList, bindings]

/-- However stores are made, no location is bound to an unknown value, what is read from a store
determines it, and each of two stores laid over each other shows where the other one is unknown. -/
theorem store_canonical (r s : Recipe) :
  (r.store.entries = r.bindings ∧ ∀ e ∈ r.bindings, e.2 ≠ .unknown) ∧
  (r.store = s.store ↔ ∀ x, r.store.get x = s.store.get x) ∧
  (r.store.isEmpty ↔ ∀ x, r.store.get x = .unknown) ∧
  (∀ x, (overlay r s).store.get x =
    if s.store.get x ≠ .unknown then s.store.get x else r.store.get x) ∧
  (∀ x, (fillMissing r s).store.get x =
    if r.store.get x ≠ .unknown then r.store.get x else s.store.get x) ∧
  (fillMissing r s).store = (overlay s r).store
  := by
  refine ⟨⟨r.entries_store, r.known_bindings⟩, ⟨?_, Store.ext_get⟩, r.store.isEmpty_iff, ?_, ?_,
    Store.fillMissing_eq_overlay _ _⟩
  · intro h x
    rw [h]
  · intro x
    simpa [store, Value.isKnown] using Store.get_overlay r.store s.store x
  · intro x
    simpa [store, Value.isKnown] using Store.get_fillMissing r.store s.store x

end Recipe

end ServiceFlow
