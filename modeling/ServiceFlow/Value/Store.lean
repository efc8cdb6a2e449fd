import ServiceFlow.Value.Basic

/-!
# Stores

A store gives a value to each location: to the locals of methods, and to the static fields, which
all methods share.  A location without an entry is unknown, and no entry is; entries are in
ascending order of their locations.  Hence two stores that agree everywhere are equal.
-/

namespace ServiceFlow

/-- A place where a value is kept. -/
inductive Location where
  | var (method : MethodSig) (l : Local)
  | static (f : FieldSig)
deriving DecidableEq, Hashable, Inhabited

namespace Location

/-- Locals by method, then by local; then static fields. -/
def order : Location → Location → Ordering
  | .var m l, .var n k => (compare m n).then (compare l k)
  | .var _ _, .static _ => .lt
  | .static _, .var _ _ => .gt
  | .static f, .static g => compare f g

instance : Ord Location := ⟨order⟩

theorem order_swap (a b : Location) :
  a.order b = (b.order a).swap
  := by
  cases a with
  | var m l =>
      cases b with
      | var n k =>
          have hm : compare m n = (compare n m).swap := Std.OrientedOrd.eq_swap
          have hl : compare l k = (compare k l).swap := Std.OrientedOrd.eq_swap
          simp [order, hm, hl, Ordering.swap_then]
      | static g => rfl
  | static f =>
      cases b with
      | var n k => rfl
      | static g => exact (Std.OrientedOrd.eq_swap : compare f g = (compare g f).swap)

theorem order_isLE_trans {a b c : Location} (hab : (a.order b).isLE) (hbc : (b.order c).isLE) :
  (a.order c).isLE
  := by
  cases a with
  | var m l =>
      cases c with
      | var p q =>
          cases b with
          | var n k =>
              have trans : Std.TransCmp
                  (compareLex (compareOn (Prod.fst : MethodSig × Local → MethodSig))
                    (compareOn (Prod.snd : MethodSig × Local → Local))) := inferInstance
              exact trans.isLE_trans (a := (m, l)) (b := (n, k)) (c := (p, q)) hab hbc
          | static g => cases hbc
      | static h => rfl
  | static f =>
      cases b with
      | var n k => cases hab
      | static g =>
          cases c with
          | var p q => cases hbc
          | static h => exact (Std.TransOrd.isLE_trans (b := g) hab hbc : (compare f h).isLE)

theorem eq_of_order {a b : Location} (h : a.order b = .eq) :
  a = b
  := by
  cases a with
  | var m l =>
      cases b with
      | var n k =>
          obtain ⟨hm, hl⟩ := Ordering.then_eq_eq.1 h
          rw [Std.LawfulEqOrd.eq_of_compare hm, Std.LawfulEqOrd.eq_of_compare hl]
      | static g => cases h
  | static f =>
      cases b with
      | var n k => cases h
      | static g => rw [Std.LawfulEqOrd.eq_of_compare h]

instance : Std.TransOrd Location where
  eq_swap := order_swap _ _
  isLE_trans := order_isLE_trans

instance : Std.LawfulEqOrd Location where
  compare_self := Std.ReflOrd.compare_self
  eq_of_compare := eq_of_order

def isStatic : Location → Bool
  | .static _ => true
  | .var _ _ => false

def static? : Location → Option FieldSig
  | .static f => some f
  | .var _ _ => none

/-- The method a local belongs to. -/
def method? : Location → Option MethodSig
  | .var m _ => some m
  | .static _ => none

def text : Location → String
  | .var m l => m.name ++ "#" ++ l.name
  | .static f => f.text

end Location

/-- The known locations and their values. -/
structure Store where
  entries : List (Location × Value)
  ascending : Sorted.Ascending entries
  known : ∀ e ∈ entries, e.2.isKnown
deriving DecidableEq

namespace Store

instance : Hashable Store := ⟨fun s => hash s.entries⟩

/-- Stores are compared entry by entry, each by location and then by value. -/
instance : Ord Store where
  compare s t :=
    List.compareLex (compareLex (compareOn Prod.fst) (compareOn Prod.snd)) s.entries t.entries

/-- The store that knows nothing. -/
def empty : Store := ⟨[], Sorted.ascending_nil, nofun⟩

instance : Inhabited Store := ⟨empty⟩

/-! ### Reading and writing -/

/-- The value of a location, which is unknown unless there is an entry. -/
def get (s : Store) (x : Location) : Value := (Sorted.lookup x s.entries).getD .unknown

/-- The store with a value written to a location; to write an unknown value is to forget it. -/
def set (s : Store) (x : Location) (v : Value) : Store :=
  if h : v.isKnown then
    { entries := Sorted.insert x v s.entries
      ascending := s.ascending.insert x v
      known := fun e he => (Sorted.mem_insert he).elim (fun heq => heq ▸ h) (s.known e) }
  else
    { entries := Sorted.erase x s.entries
      ascending := s.ascending.erase x
      known := fun e he => s.known e (Sorted.mem_of_mem_erase he) }

def getVar (s : Store) (m : MethodSig) (l : Local) : Value := s.get (.var m l)

def getStatic (s : Store) (f : FieldSig) : Value := s.get (.static f)

def setVar (s : Store) (m : MethodSig) (l : Local) (v : Value) : Store := s.set (.var m l) v

def setStatic (s : Store) (f : FieldSig) (v : Value) : Store := s.set (.static f) v

/-- The store after the writes, one after another. -/
def ofList (writes : List (Location × Value)) : Store :=
  writes.foldl (fun s e => s.set e.1 e.2) empty

/-! ### Parts and combinations -/

/-- The entries of some locations. -/
def restrict (s : Store) (p : Location → Bool) : Store where
  entries := s.entries.filter (fun e => p e.1)
  ascending := s.ascending.filter _
  known := fun e he => s.known e (List.mem_filter.1 he).1

/-- What is known of the static fields. -/
def statics (s : Store) : Store := s.restrict Location.isStatic

/-- What is known of the locals. -/
def locals (s : Store) : Store := s.restrict (fun x => !x.isStatic)

/-- The known static fields with their values. -/
def staticEntries (s : Store) : List (FieldSig × Value) :=
  s.entries.filterMap (fun e => e.1.static?.map (fun f => (f, e.2)))

/-- The entries of the second store on top of the first. -/
def overlay (s t : Store) : Store := t.entries.foldl (fun s e => s.set e.1 e.2) s

/-- The first store, with entries of the second where the first knows nothing. -/
def fillMissing (s t : Store) : Store :=
  t.entries.foldl (fun s e => if (s.get e.1).isKnown then s else s.set e.1 e.2) s

def size (s : Store) : Nat := s.entries.length

def isEmpty (s : Store) : Bool := s.entries.isEmpty

def text (s : Store) : String :=
  "\x7b" ++ ", ".intercalate (s.entries.map (fun e => e.1.text ++ " -> " ++ e.2.text)) ++ "\x7d"

end Store

end ServiceFlow
