import Mathlib.Data.List.Nodup
import ServiceFlow.Value.Store

/-!
# The laws of stores

What is read from a store after a write, from a part of a store, and from two stores laid over
each other.  A store is a function from locations to values as far as reading goes, and all its
operations are known by what they do to that function.
-/

namespace ServiceFlow

/-! ### Association lists -/

namespace Sorted

variable {κ ν : Type} [Ord κ] [DecidableEq κ]

theorem lookup_insert [Std.LawfulEqOrd κ] (k k' : κ) (v : ν) (l : List (κ × ν)) :
  lookup k (insert k' v l) = if k = k' then some v else lookup k l
  := by
  induction l with
  | nil => rfl
  | cons e rest ih =>
      obtain ⟨k₁, v₁⟩ := e
      rw [insert]
      split
      · rw [lookup]
      · next heq =>
        obtain rfl := Std.LawfulEqOrd.eq_of_compare heq
        rw [lookup, lookup]
        split
        · rfl
        · rfl
      · next hgt =>
        rw [lookup, lookup, ih]
        by_cases h : k = k₁
        · subst h
          have hne : k ≠ k' := by
            rintro rfl
            rw [Std.ReflOrd.compare_self] at hgt
            cases hgt
          rw [if_pos rfl, if_neg hne, if_pos rfl]
        · rw [if_neg h, if_neg h]

omit [Ord κ] in
theorem lookup_filter (p : κ → Bool) (k : κ) (l : List (κ × ν)) :
  lookup k (l.filter (fun e => p e.1)) = if p k then lookup k l else none
  := by
  induction l with
  | nil =>
      rw [List.filter_nil, lookup]
      split
      · rfl
      · rfl
  | cons e rest ih =>
      obtain ⟨k₁, v₁⟩ := e
      rw [List.filter_cons]
      by_cases h : k = k₁
      · subst h
        by_cases hp : p k
        · rw [if_pos hp, if_pos hp, lookup, lookup, if_pos rfl, if_pos rfl]
        · rw [if_neg hp, ih, if_neg hp, if_neg hp]
      · rw [lookup, if_neg h]
        split
        · rw [lookup, if_neg h, ih]
        · rw [ih]

omit [Ord κ] in
theorem lookup_erase (k k' : κ) (l : List (κ × ν)) :
  lookup k (erase k' l) = if k = k' then none else lookup k l
  := by
  rw [erase, lookup_filter (fun k => k ≠ k')]
  by_cases h : k = k'
  · simp [h]
  · simp [h]

omit [Ord κ] in
theorem mem_of_lookup {k : κ} {v : ν} {l : List (κ × ν)} (h : lookup k l = some v) :
  (k, v) ∈ l
  := by
  induction l with
  | nil => cases h
  | cons e rest ih =>
      obtain ⟨k₁, v₁⟩ := e
      rw [lookup] at h
      split at h
      · next heq =>
        obtain rfl := Option.some.inj h
        rw [heq]
        apply List.mem_cons_self
      · apply List.mem_cons_of_mem _ (ih h)

/-- No key of an ascending list comes twice. -/
theorem Ascending.lookup_tail [Std.ReflOrd κ] {k : κ} {v : ν} {l : List (κ × ν)}
    (h : Ascending ((k, v) :: l)) :
  lookup k l = none
  := by
  rw [Option.eq_none_iff_forall_ne_some]
  intro w hw
  have hlt := (List.pairwise_cons.1 h).1 _ (mem_of_lookup hw)
  rw [Std.ReflOrd.compare_self] at hlt
  cases hlt

/-- A part of an ascending list has the values of the list that belong to the part. -/
theorem Ascending.lookup_filter [Std.ReflOrd κ] {l : List (κ × ν)} (h : Ascending l)
    (p : κ × ν → Bool) (k : κ) :
  lookup k (l.filter p) = (lookup k l).filter (fun v => p (k, v))
  := by
  induction l with
  | nil => rfl
  | cons e rest ih =>
      obtain ⟨k₁, v₁⟩ := e
      have hrest := ih (List.pairwise_cons.1 h).2
      rw [List.filter_cons, lookup]
      by_cases hk : k = k₁
      · subst hk
        rw [h.lookup_tail] at hrest
        by_cases hp : p (k, v₁)
        · simp [hp, lookup, Option.filter]
        · simp [hp, hrest, Option.filter]
      · by_cases hp : p (k₁, v₁)
        · simp [hp, lookup, hk, hrest]
        · simp [hp, hk, hrest]

theorem Ascending.lookup_of_mem [Std.ReflOrd κ] {l : List (κ × ν)} (h : Ascending l) {x : κ} {v : ν}
    (hmem : (x, v) ∈ l) :
  lookup x l = some v
  := by
  induction l with
  | nil => cases hmem
  | cons e rest ih =>
      obtain ⟨y, w⟩ := e
      obtain ⟨hhead, hrest⟩ := List.pairwise_cons.1 h
      rw [lookup]
      rcases List.mem_cons.1 hmem with heq | htail
      · obtain ⟨rfl, rfl⟩ := Prod.mk.inj heq
        rw [if_pos rfl]
      · have hne : x ≠ y := by
          rintro rfl
          have hlt := hhead _ htail
          rw [Std.ReflOrd.compare_self] at hlt
          cases hlt
        rw [if_neg hne, ih hrest htail]

/-- An ascending list is determined by the values of its keys. -/
theorem Ascending.eq_of_lookup [Std.TransOrd κ] {l k : List (κ × ν)} (hl : Ascending l)
    (hk : Ascending k) (h : ∀ x, lookup x l = lookup x k) :
  l = k
  := by
  have hnodup : ∀ {l : List (κ × ν)}, Ascending l → l.Nodup := by
    intro l hl
    apply List.Pairwise.imp _ hl
    rintro a b hlt rfl
    rw [Std.ReflOrd.compare_self] at hlt
    cases hlt
  have hperm : l.Perm k := by
    apply (List.perm_ext_iff_of_nodup (hnodup hl) (hnodup hk)).2
    rintro ⟨x, v⟩
    constructor
    · intro hmem
      apply mem_of_lookup
      rw [← h, hl.lookup_of_mem hmem]
    · intro hmem
      apply mem_of_lookup
      rw [h, hk.lookup_of_mem hmem]
  apply hperm.eq_of_pairwise _ hl hk
  intro a b _ _ hab hba
  rw [Std.OrientedCmp.gt_of_lt hba] at hab
  cases hab

end Sorted

namespace Value

theorem isKnown_eq_false {v : Value} (h : ¬v.isKnown) :
  v = .unknown
  := by
  simpa [isKnown] using h

@[simp] theorem ite_isKnown_unknown (v : Value) :
  (if v.isKnown then v else .unknown) = v
  := by
  split
  · rfl
  · next h => rw [isKnown_eq_false h]

end Value

namespace Store

/-! ### Reading and writing -/

theorem get_set (s : Store) (x y : Location) (v : Value) :
  (s.set x v).get y = if y = x then v else s.get y
  := by
  rw [set]
  split
  · rw [get, Sorted.lookup_insert, get]
    split
    · rfl
    · rfl
  · next h =>
    rw [get, Sorted.lookup_erase, get]
    split
    · rw [Value.isKnown_eq_false h]
      rfl
    · rfl

@[simp] theorem getVar_setVar (s : Store) (m n : MethodSig) (l k : Local) (v : Value) :
  (s.setVar m l v).getVar n k = if n = m ∧ k = l then v else s.getVar n k
  := by
  rw [getVar, setVar, get_set, getVar]
  simp only [Location.var.injEq]

@[simp] theorem getVar_setStatic (s : Store) (f : FieldSig) (n : MethodSig) (k : Local)
    (v : Value) :
  (s.setStatic f v).getVar n k = s.getVar n k
  := by
  rw [getVar, setStatic, get_set, if_neg nofun, getVar]

@[simp] theorem getStatic_setVar (s : Store) (m : MethodSig) (l : Local) (f : FieldSig)
    (v : Value) :
  (s.setVar m l v).getStatic f = s.getStatic f
  := by
  rw [getStatic, setVar, get_set, if_neg nofun, getStatic]

@[simp] theorem getStatic_setStatic (s : Store) (f h : FieldSig) (v : Value) :
  (s.setStatic f v).getStatic h = if h = f then v else s.getStatic h
  := by
  rw [getStatic, setStatic, get_set, getStatic]
  simp only [Location.static.injEq]

/-! ### Parts -/

theorem get_restrict (s : Store) (p : Location → Bool) (x : Location) :
  (s.restrict p).get x = if p x then s.get x else .unknown
  := by
  rw [get, restrict, Sorted.lookup_filter, get]
  split
  · rfl
  · rfl

@[simp] theorem getVar_statics (s : Store) (m : MethodSig) (l : Local) :
  s.statics.getVar m l = .unknown
  := by
  rw [getVar, statics, get_restrict]
  rfl

@[simp] theorem getStatic_statics (s : Store) (f : FieldSig) :
  s.statics.getStatic f = s.getStatic f
  := by
  rw [getStatic, statics, get_restrict]
  rfl

@[simp] theorem getVar_locals (s : Store) (m : MethodSig) (l : Local) :
  s.locals.getVar m l = s.getVar m l
  := by
  rw [getVar, locals, get_restrict]
  rfl

@[simp] theorem getStatic_locals (s : Store) (f : FieldSig) :
  s.locals.getStatic f = .unknown
  := by
  rw [getStatic, locals, get_restrict]
  rfl

/-! ### Stores over each other -/

theorem get_foldl_set {l : List (Location × Value)} (h : Sorted.Ascending l) (s : Store)
    (x : Location) :
  (l.foldl (fun s e => s.set e.1 e.2) s).get x = (Sorted.lookup x l).getD (s.get x)
  := by
  induction l generalizing s with
  | nil => rfl
  | cons e rest ih =>
      obtain ⟨y, v⟩ := e
      rw [List.foldl_cons, ih (List.pairwise_cons.1 h).2, get_set, Sorted.lookup]
      by_cases hx : x = y
      · subst hx
        rw [h.lookup_tail, if_pos rfl, if_pos rfl]
        rfl
      · rw [if_neg hx, if_neg hx]

theorem get_overlay (s t : Store) (x : Location) :
  (s.overlay t).get x = if (t.get x).isKnown then t.get x else s.get x
  := by
  rw [overlay, get_foldl_set t.ascending, get.eq_1 t]
  cases h : Sorted.lookup x t.entries with
  | none => rfl
  | some v =>
      have hknown := t.known _ (Sorted.mem_of_lookup h)
      rw [Option.getD_some, Option.getD_some, if_pos hknown]

theorem get_fillMissing (s t : Store) (x : Location) :
  (s.fillMissing t).get x = if (s.get x).isKnown then s.get x else t.get x
  := by
  have hfold : ∀ {l : List (Location × Value)}, Sorted.Ascending l → ∀ s : Store,
      (l.foldl (fun s e => if (s.get e.1).isKnown then s else s.set e.1 e.2) s).get x =
        if (s.get x).isKnown then s.get x else (Sorted.lookup x l).getD .unknown := by
    intro l hl
    induction l with
    | nil =>
        intro s
        simp [Sorted.lookup]
    | cons e rest ih =>
        intro s
        obtain ⟨y, v⟩ := e
        rw [List.foldl_cons, ih (List.pairwise_cons.1 hl).2, Sorted.lookup]
        by_cases hx : x = y
        · -- The entry is the only one of its location.
          subst hx
          rw [hl.lookup_tail]
          by_cases hs : (s.get x).isKnown
          · simp [hs]
          · simp [hs, get_set]
        · by_cases hs : (s.get y).isKnown
          · simp [hs, hx]
          · simp [hs, hx, get_set]
  apply hfold t.ascending

/-- To write the static fields of a store to another one is to lay them over it. -/
theorem foldl_setStatic_staticEntries (s t : Store) :
  t.staticEntries.foldl (fun s e => s.setStatic e.1 e.2) s = s.overlay t.statics
  := by
  have hfold : ∀ (l : List (Location × Value)) (s : Store),
      (l.filterMap (fun e => e.1.static?.map (fun f => (f, e.2)))).foldl
          (fun s e => s.setStatic e.1 e.2) s
        = (l.filter (fun e => e.1.isStatic)).foldl (fun s e => s.set e.1 e.2) s := by
    intro l
    induction l with
    | nil =>
        intro s
        rfl
    | cons e rest ih =>
        intro s
        obtain ⟨x, v⟩ := e
        cases x with
        | var m l => apply ih
        | static f => apply ih
  apply hfold

/-! ### Stores are determined by what is read -/

theorem ext_get {s t : Store} (h : ∀ x, s.get x = t.get x) :
  s = t
  := by
  have hlookup : ∀ x, Sorted.lookup x s.entries = Sorted.lookup x t.entries := by
    intro x
    have hread : (Sorted.lookup x s.entries).getD .unknown =
        (Sorted.lookup x t.entries).getD .unknown := h x
    -- no entry is unknown, so what is read tells whether there is an entry
    have hknown : ∀ {s : Store}, Sorted.lookup x s.entries ≠ some .unknown := by
      intro s hs
      have hknown := s.known _ (Sorted.mem_of_lookup hs)
      cases hknown
    cases hs : Sorted.lookup x s.entries with
    | none =>
        cases ht : Sorted.lookup x t.entries with
        | none => rfl
        | some w =>
            rw [hs, ht] at hread
            exact absurd (ht.trans (congrArg some hread.symm)) hknown
    | some v =>
        cases ht : Sorted.lookup x t.entries with
        | none =>
            rw [hs, ht] at hread
            exact absurd (hs.trans (congrArg some hread)) hknown
        | some w =>
            rw [hs, ht] at hread
            exact congrArg some hread
  have hentries := s.ascending.eq_of_lookup t.ascending hlookup
  cases s
  cases t
  cases hentries
  rfl

theorem ext_vars {s t : Store} (hvars : ∀ m l, s.getVar m l = t.getVar m l)
    (hstatics : ∀ f, s.getStatic f = t.getStatic f) :
  s = t
  := by
  apply ext_get
  intro x
  cases x with
  | var m l => apply hvars
  | static f => apply hstatics

theorem isEmpty_iff (s : Store) :
  s.isEmpty ↔ ∀ x, s.get x = .unknown
  := by
  constructor
  · intro h x
    have hentries : s.entries = [] := List.isEmpty_iff.1 h
    rw [get, hentries]
    rfl
  · intro h
    rw [ext_get (t := empty) h]
    rfl

/-- What fills the gaps of a store is what the store lies over. -/
theorem fillMissing_eq_overlay (s t : Store) :
  s.fillMissing t = t.overlay s
  := by
  apply ext_get
  intro x
  rw [get_fillMissing, get_overlay]

end Store

end ServiceFlow
