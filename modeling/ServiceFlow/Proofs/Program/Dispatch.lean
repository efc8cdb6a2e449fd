import Mathlib.Data.List.Perm.Subperm
import Mathlib.Data.List.Range
import ServiceFlow.Proofs.Program.Supergraph

/-!
# Dispatch along superclasses

A class answers a call with the nearest declaration in its chain of superclasses, as far as the
chain stays in view.  The chain ends at a class without a superclass in view, or it runs in a
circle.  As the classes of a chain without a circle are different, the search for a declaration
needs no more steps than there are classes.
-/

namespace ServiceFlow

namespace View

variable {v : View} {c : ClassName} {m : MethodSig}

/-! ### Chains of superclasses -/

/-- The superclass of a class, both in view. -/
def parent? (v : View) (c : ClassName) : Option ClassName :=
  (v.class? c).bind (fun d => d.superclass.filter v.contains)

/-- The class so many superclasses above a class, as long as they are in view. -/
def ancestor? (v : View) (c : ClassName) : Nat → Option ClassName
  | 0 => some c
  | n + 1 => (v.ancestor? c n).bind v.parent?

theorem parent?_eq_some {a b : ClassName} (h : v.parent? a = some b) :
  ∃ d, v.class? a = some d ∧ d.superclass = some b ∧ v.contains b
  := by
  obtain ⟨d, hd, hs⟩ := Option.bind_eq_some_iff.1 h
  obtain ⟨hs, hb⟩ := Option.filter_eq_some_iff.1 hs
  use d, hd, hs, hb

theorem parent?_eq_none {a : ClassName} {d : ClassDecl} (hd : v.class? a = some d)
    (hs : ∀ s, d.superclass = some s → v.contains s = false) :
  v.parent? a = none
  := by
  rw [parent?, hd, Option.bind_some, Option.filter_eq_none_iff]
  intro s h
  simpa using hs s h

theorem ancestor?_succ {n : Nat} {a : ClassName} (h : v.ancestor? c n = some a) :
  v.ancestor? c (n + 1) = v.parent? a
  := by
  rw [ancestor?, h, Option.bind_some]

theorem ancestor?_add (v : View) (c : ClassName) (n k : Nat) :
  v.ancestor? c (n + k) = (v.ancestor? c n).bind (fun a => v.ancestor? a k)
  := by
  induction k with
  | zero => simp [ancestor?]
  | succ k ih =>
      rw [← Nat.add_assoc, ancestor?, ih, Option.bind_assoc]
      rfl

/-- A chain goes on from equal classes in the same way. -/
theorem ancestor?_add_congr {n k : Nat} (h : v.ancestor? c n = v.ancestor? c k) (l : Nat) :
  v.ancestor? c (n + l) = v.ancestor? c (k + l)
  := by
  rw [ancestor?_add, ancestor?_add, h]

theorem exists_ancestor?_of_le {n k : Nat} {a : ClassName} (h : v.ancestor? c n = some a)
    (hk : k ≤ n) :
  ∃ b, v.ancestor? c k = some b
  := by
  obtain ⟨l, rfl⟩ := Nat.exists_eq_add_of_le hk
  rw [ancestor?_add] at h
  obtain ⟨b, hb, _⟩ := Option.bind_eq_some_iff.1 h
  use b, hb

theorem contains_of_ancestor?_succ {n : Nat} {a : ClassName} (h : v.ancestor? c (n + 1) = some a) :
  v.contains a
  := by
  obtain ⟨b, _, hb⟩ := Option.bind_eq_some_iff.1 h
  obtain ⟨_, _, _, ha⟩ := parent?_eq_some hb
  apply ha

/-- The classes before the last one of a chain are in view. -/
theorem contains_of_ancestor?_lt {n k : Nat} {a b : ClassName} (h : v.ancestor? c n = some a)
    (hk : k < n) (hb : v.ancestor? c k = some b) :
  v.contains b
  := by
  obtain ⟨s, hs⟩ := exists_ancestor?_of_le h hk
  rw [ancestor?_succ hb] at hs
  obtain ⟨d, hd, _⟩ := parent?_eq_some hs
  rw [contains, hd]
  rfl

/-- There are no more different classes in a chain than in the view. -/
theorem length_le_of_distinct {n : Nat}
    (hview : ∀ k < n, ∃ a, v.ancestor? c k = some a ∧ v.contains a)
    (hdistinct : ∀ j k, j < k → k < n → v.ancestor? c j ≠ v.ancestor? c k) :
  n ≤ v.classes.length
  := by
  have hnodup : ((List.range n).map (v.ancestor? c)).Nodup := by
    apply List.nodup_range.map_on
    intro j hj k hk heq
    rw [List.mem_range] at hj hk
    rcases Nat.lt_trichotomy j k with hlt | rfl | hlt
    · apply absurd heq (hdistinct j k hlt hk)
    · rfl
    · apply absurd heq.symm (hdistinct k j hlt hj)
  have hsubset : (List.range n).map (v.ancestor? c) ⊆ v.classes.map (fun d => some d.name) := by
    intro b hb
    obtain ⟨k, hk, rfl⟩ := List.mem_map.1 hb
    obtain ⟨a, ha, hcontains⟩ := hview k (List.mem_range.1 hk)
    obtain ⟨d, hd, hname⟩ := contains_iff_exists.1 hcontains
    apply List.mem_map.2
    use d, hd
    rw [ha, hname]
  have hlength := (hnodup.subperm hsubset).length_le
  rw [List.length_map, List.length_map, List.length_range] at hlength
  apply hlength

/-- What first holds of a class of the chain holds before the chain could run in a circle. -/
theorem lt_length_of_first {P : ClassName → Prop} {n : Nat} {a : ClassName}
    (ha : v.ancestor? c n = some a) (hview : v.contains a) (hP : P a)
    (hfirst : ∀ k < n, ∀ b, v.ancestor? c k = some b → ¬P b) :
  n < v.classes.length
  := by
  apply length_le_of_distinct (c := c)
  · intro k hk
    rcases Nat.lt_succ_iff_lt_or_eq.1 hk with hlt | rfl
    · obtain ⟨b, hb⟩ := exists_ancestor?_of_le ha hlt.le
      use b, hb, contains_of_ancestor?_lt ha hlt hb
    · use a, ha, hview
  · intro j k hjk hk heq
    -- if two classes were equal, the last one would occur earlier, as far behind the first of them
    have hearlier := ancestor?_add_congr heq (n - k)
    rw [Nat.add_sub_of_le (Nat.lt_succ_iff.1 hk), ha] at hearlier
    apply hfirst _ _ a hearlier hP
    omega

/-! ### The search along a chain -/

/-- The method that a class of the view declares under the name, parameters and result of a
signature. -/
def declared? (v : View) (m : MethodSig) (c : ClassName) : Option Method :=
  (v.class? c).bind (fun d => d.methodBySubSignature? m)

theorem contains_of_declared? {found : Method} (h : v.declared? m c = some found) :
  v.contains c
  := by
  obtain ⟨d, hd, _⟩ := Option.bind_eq_some_iff.1 h
  rw [contains, hd]
  rfl

theorem methodBySubSignature?_eq_none {d : ClassDecl} (hd : v.class? c = some d)
    (h : v.declared? m c = none) :
  d.methodBySubSignature? m = none
  := by
  rwa [declared?, hd, Option.bind_some] at h

theorem dispatchWithin_of_declared? {found : Method} (h : v.declared? m c = some found)
    (fuel : Nat) :
  v.dispatchWithin m (fuel + 1) c = .ok (if found.isConcrete then some found.signature else none)
  := by
  obtain ⟨d, hd, hfound⟩ := Option.bind_eq_some_iff.1 h
  rw [dispatchWithin, hd]
  dsimp only
  rw [hfound]

theorem dispatchWithin_of_parent? {s : ClassName} (hs : v.parent? c = some s)
    (hm : v.declared? m c = none) (fuel : Nat) :
  v.dispatchWithin m (fuel + 1) c = v.dispatchWithin m fuel s
  := by
  obtain ⟨d, hd, hsuper, hview⟩ := parent?_eq_some hs
  rw [dispatchWithin, hd]
  dsimp only
  rw [methodBySubSignature?_eq_none hd hm, hsuper]
  dsimp only
  rw [if_pos hview]

theorem dispatchWithin_of_top {d : ClassDecl} (hd : v.class? c = some d)
    (hm : v.declared? m c = none) (hs : d.superclass = none) (fuel : Nat) :
  v.dispatchWithin m (fuel + 1) c = .ok none
  := by
  rw [dispatchWithin, hd]
  dsimp only
  rw [methodBySubSignature?_eq_none hd hm, hs]

theorem dispatchWithin_of_left {d : ClassDecl} {s : ClassName} (hd : v.class? c = some d)
    (hm : v.declared? m c = none) (hs : d.superclass = some s) (hview : ¬v.contains s)
    (fuel : Nat) :
  v.dispatchWithin m (fuel + 1) c =
    if s = .object then .ok none else .error (.unresolvedSuperclass m d.name s)
  := by
  rw [dispatchWithin, hd]
  dsimp only
  rw [methodBySubSignature?_eq_none hd hm, hs]
  dsimp only
  rw [if_neg hview]

/-- The search passes the classes that do not declare the method. -/
theorem dispatchWithin_ancestor? {n : Nat} {a : ClassName} (ha : v.ancestor? c n = some a)
    (hm : ∀ k < n, ∀ b, v.ancestor? c k = some b → v.declared? m b = none) (fuel : Nat) :
  v.dispatchWithin m (n + fuel) c = v.dispatchWithin m fuel a
  := by
  induction n generalizing a fuel with
  | zero =>
      obtain rfl := Option.some.inj ha
      rw [Nat.zero_add]
  | succ n ih =>
      obtain ⟨b, hb, hparent⟩ := Option.bind_eq_some_iff.1 ha
      have hbefore := ih hb (fun k hk => hm k (hk.trans n.lt_succ_self)) (fuel + 1)
      rw [Nat.add_right_comm, Nat.add_assoc, hbefore]
      apply dispatchWithin_of_parent? hparent (hm n n.lt_succ_self b hb)

/-- The search gets to the first class of the chain with a property, unless it has found the method
before. -/
theorem exists_dispatchWithin_first {P : ClassName → Prop} {n fuel : Nat} {a : ClassName}
    (hfuel : v.classes.length ≤ fuel) (ha : v.ancestor? c n = some a) (hview : v.contains a)
    (hP : P a) (hfirst : ∀ k < n, ∀ b, v.ancestor? c k = some b → ¬P b)
    (hm : ∀ k < n, ∀ b, v.ancestor? c k = some b → v.declared? m b = none) :
  ∃ rest, v.dispatchWithin m fuel c = v.dispatchWithin m (rest + 1) a
  := by
  have hn := lt_length_of_first ha hview hP hfirst
  use fuel - n - 1
  rw [← dispatchWithin_ancestor? ha hm]
  congr 1
  omega

/-! ### The ends of chains -/

/-- How the chain of superclasses of a class ends. -/
inductive ChainEnd where
  /-- The class itself is outside the view. -/
  | outside
  /-- With a class that has no superclass. -/
  | top
  /-- Below the topmost class, which is outside the view. -/
  | object
  /-- Below another class outside the view. -/
  | missing (last superclass : ClassName)
  /-- Not at all: it comes back to a class. -/
  | circle

/-- What the search answers at the end of a chain. -/
def ChainEnd.answer (m : MethodSig) : ChainEnd → Except ScopeError (Option MethodSig)
  | .missing last superclass => .error (.unresolvedSuperclass m last superclass)
  | _ => .ok none

/-- The chain of superclasses of a class ends in this way. -/
inductive EndsIn (v : View) (c : ClassName) : ChainEnd → Prop where
  | outside (hc : ¬v.contains c) :
      EndsIn v c .outside
  | top {n : Nat} {d : ClassDecl} (hd : d ∈ v.classes) (hn : v.ancestor? c n = some d.name)
      (hs : d.superclass = none) :
      EndsIn v c .top
  | object {n : Nat} {d : ClassDecl} (hd : d ∈ v.classes) (hn : v.ancestor? c n = some d.name)
      (hs : d.superclass = some .object) (hview : ¬v.contains .object) :
      EndsIn v c .object
  | missing {n : Nat} {d : ClassDecl} {s : ClassName} (hd : d ∈ v.classes)
      (hn : v.ancestor? c n = some d.name) (hs : d.superclass = some s) (hview : ¬v.contains s)
      (hobject : s ≠ .object) :
      EndsIn v c (.missing d.name s)
  | circle {n k : Nat} {a : ClassName} (hlt : n < k) (hn : v.ancestor? c n = some a)
      (hk : v.ancestor? c k = some a) :
      EndsIn v c .circle

/-- A chain that comes back to a class has no end. -/
theorem exists_ancestor?_of_circle {n k : Nat} {a : ClassName} (hlt : n < k)
    (hn : v.ancestor? c n = some a) (hk : v.ancestor? c k = some a) (l : Nat) :
  ∃ b, v.ancestor? c l = some b
  := by
  induction l using Nat.strong_induction_on with
  | h l ih =>
      by_cases hl : l ≤ k
      · apply exists_ancestor?_of_le hk hl
      · have hback := ancestor?_add_congr (hk.trans hn.symm) (l - k)
        rw [Nat.add_sub_of_le (Nat.le_of_not_le hl)] at hback
        rw [hback]
        apply ih
        omega

/-- A chain that does not go on for ever has a last class. -/
theorem exists_last {n : Nat} (h : v.ancestor? c n = none) :
  ∃ k a, v.ancestor? c k = some a ∧ v.parent? a = none
  := by
  induction n with
  | zero => cases h
  | succ n ih =>
      cases hn : v.ancestor? c n with
      | none => apply ih hn
      | some a =>
          use n, a, hn
          rw [← ancestor?_succ hn, h]

/-- A last class in view has no superclass, or one outside the view. -/
theorem endsIn_of_last {n : Nat} {d : ClassDecl} (hd : d ∈ v.classes)
    (hn : v.ancestor? c n = some d.name) (hlast : v.parent? d.name = none) :
  ∃ e, v.EndsIn c e
  := by
  cases hs : d.superclass with
  | none => use .top, .top hd hn hs
  | some s =>
      have hview : ¬v.contains s := by
        rw [parent?, class?_eq_some_iff.2 ⟨hd, rfl⟩, Option.bind_some, hs] at hlast
        simpa using hlast
      by_cases hobject : s = .object
      · subst hobject
        use .object, .object hd hn hs hview
      · use .missing d.name s, .missing hd hn hs hview hobject

/-- A chain without a last class comes back to some class, since there are only so many. -/
theorem endsIn_circle (h : ∀ n, ∃ a, v.ancestor? c n = some a) :
  v.EndsIn c .circle
  := by
  by_contra hcircle
  have hlength : v.classes.length + 1 ≤ v.classes.length := by
    apply length_le_of_distinct (c := c)
    · intro k _
      obtain ⟨a, ha⟩ := h k
      obtain ⟨b, hb⟩ := h (k + 1)
      use a, ha, contains_of_ancestor?_lt hb k.lt_succ_self ha
    · intro j k hjk _ heq
      obtain ⟨a, ha⟩ := h k
      apply hcircle (.circle hjk (heq.trans ha) ha)
  omega

/-- Every chain ends in one of these ways. -/
theorem exists_endsIn (v : View) (c : ClassName) :
  ∃ e, v.EndsIn c e
  := by
  by_cases hends : ∃ n, v.ancestor? c n = none
  · obtain ⟨n, hn⟩ := hends
    obtain ⟨k, a, ha, hlast⟩ := exists_last hn
    by_cases hview : v.contains a
    · obtain ⟨d, hd, rfl⟩ := contains_iff_exists.1 hview
      apply endsIn_of_last hd ha hlast
    · cases k with
      | zero =>
          obtain rfl := Option.some.inj ha
          use .outside, .outside hview
      | succ k => apply absurd (contains_of_ancestor?_succ ha) hview
  · use .circle
    apply endsIn_circle
    intro n
    apply Option.ne_none_iff_exists'.1
    intro hn
    apply hends ⟨n, hn⟩

/-- Without a declaration the search gets to the last class of a chain. -/
theorem exists_dispatchWithin_last {n fuel : Nat} {d : ClassDecl}
    (hfuel : v.classes.length ≤ fuel) (hd : d ∈ v.classes) (hn : v.ancestor? c n = some d.name)
    (hs : ∀ s, d.superclass = some s → ¬v.contains s)
    (hm : ∀ n a, v.ancestor? c n = some a → v.declared? m a = none) :
  ∃ rest, v.dispatchWithin m fuel c = v.dispatchWithin m (rest + 1) d.name
  := by
  have hclass : v.class? d.name = some d := class?_eq_some_iff.2 ⟨hd, rfl⟩
  have hlast : v.parent? d.name = none := by
    apply parent?_eq_none hclass
    intro s h
    simpa using hs s h
  apply exists_dispatchWithin_first (P := fun a => v.parent? a = none) hfuel hn
    (contains_iff_exists.2 ⟨d, hd, rfl⟩) hlast _ (fun k _ b hb => hm k b hb)
  intro k hk b hb hnone
  obtain ⟨s, hsucc⟩ := exists_ancestor?_of_le hn hk
  rw [ancestor?_succ hb, hnone] at hsucc
  cases hsucc

/-- Without a declaration the search answers as the chain ends. -/
theorem dispatchWithin_of_endsIn {fuel : Nat} {e : ChainEnd} (hfuel : v.classes.length ≤ fuel)
    (hm : ∀ n a, v.ancestor? c n = some a → v.declared? m a = none) (h : v.EndsIn c e) :
  v.dispatchWithin m fuel c = e.answer m
  := by
  cases h with
  | outside hc =>
      have hclass : v.class? c = none := by simpa [contains] using hc
      cases fuel with
      | zero => rfl
      | succ fuel =>
          rw [dispatchWithin, hclass]
          rfl
  | top hd hn hs =>
      obtain ⟨rest, hrest⟩ := exists_dispatchWithin_last hfuel hd hn (by simp [hs]) hm
      rw [hrest]
      apply dispatchWithin_of_top (class?_eq_some_iff.2 ⟨hd, rfl⟩) (hm _ _ hn) hs
  | object hd hn hs hview =>
      obtain ⟨rest, hrest⟩ := exists_dispatchWithin_last hfuel hd hn (by simp [hs, hview]) hm
      rw [hrest, dispatchWithin_of_left (class?_eq_some_iff.2 ⟨hd, rfl⟩) (hm _ _ hn) hs hview]
      rfl
  | missing hd hn hs hview hobject =>
      obtain ⟨rest, hrest⟩ := exists_dispatchWithin_last hfuel hd hn (by simp [hs, hview]) hm
      rw [hrest, dispatchWithin_of_left (class?_eq_some_iff.2 ⟨hd, rfl⟩) (hm _ _ hn) hs hview,
        if_neg hobject]
      rfl
  | circle hlt hn hk =>
      -- the chain goes on past all steps of the search
      obtain ⟨a, ha⟩ := exists_ancestor?_of_circle hlt hn hk fuel
      apply dispatchWithin_ancestor? ha (fun k _ b hb => hm k b hb) 0

/-- The search finds the nearest declaration, wherever it is. -/
theorem dispatchWithin_of_nearest {n fuel : Nat} {a : ClassName} {found : Method}
    (hfuel : v.classes.length ≤ fuel) (ha : v.ancestor? c n = some a)
    (hfound : v.declared? m a = some found)
    (hnearest : ∀ k < n, ∀ b, v.ancestor? c k = some b → v.declared? m b = none) :
  v.dispatchWithin m fuel c = .ok (if found.isConcrete then some found.signature else none)
  := by
  obtain ⟨rest, hrest⟩ := exists_dispatchWithin_first (P := fun b => v.declared? m b ≠ none) hfuel
    ha (contains_of_declared? hfound) (by simp [hfound])
    (fun k hk b hb hne => hne (hnearest k hk b hb)) hnearest
  rw [hrest, dispatchWithin_of_declared? hfound]

/-- If some class of a chain declares the method, there is a nearest one. -/
theorem exists_nearest {n : Nat} {a : ClassName} (ha : v.ancestor? c n = some a)
    (hm : v.declared? m a ≠ none) :
  ∃ n a found, v.ancestor? c n = some a ∧ v.declared? m a = some found ∧
    ∀ k < n, ∀ b, v.ancestor? c k = some b → v.declared? m b = none
  := by
  induction n using Nat.strong_induction_on generalizing a with
  | h n ih =>
      by_cases hnearest : ∀ k < n, ∀ b, v.ancestor? c k = some b → v.declared? m b = none
      · obtain ⟨found, hfound⟩ := Option.ne_none_iff_exists'.1 hm
        use n, a, found
      · push Not at hnearest
        obtain ⟨k, hk, b, hb, hne⟩ := hnearest
        apply ih k hk hb hne

/-- More steps than there are classes make no difference. -/
theorem dispatchWithin_eq_dispatch {fuel : Nat} (hfuel : v.classes.length ≤ fuel) :
  v.dispatchWithin m fuel c = v.dispatch c m
  := by
  rw [dispatch]
  by_cases hm : ∀ n a, v.ancestor? c n = some a → v.declared? m a = none
  · obtain ⟨e, he⟩ := v.exists_endsIn c
    rw [dispatchWithin_of_endsIn hfuel hm he, dispatchWithin_of_endsIn (Nat.le_refl _) hm he]
  · push Not at hm
    obtain ⟨n, a, ha, hne⟩ := hm
    obtain ⟨k, b, found, hb, hfound, hnearest⟩ := exists_nearest ha hne
    rw [dispatchWithin_of_nearest hfuel hb hfound hnearest,
      dispatchWithin_of_nearest (Nat.le_refl _) hb hfound hnearest]

/-- A class answers with the nearest declaration in its chain of superclasses, if that has a body.
Without a declaration the answer is an error exactly if the chain leaves the view below a class
other than the topmost one; it names the last class in view.  In all other cases nothing is found.
The search comes to an end by itself: with more steps than there are classes it answers the same. -/
theorem dispatch_eq_nearest (v : View) (c : ClassName) (m : MethodSig) :
  (∀ n a found, v.ancestor? c n = some a → v.declared? m a = some found →
    (∀ k < n, ∀ b, v.ancestor? c k = some b → v.declared? m b = none) →
    v.dispatch c m = .ok (if found.body.isSome then some found.signature else none)) ∧
  ((∀ n a, v.ancestor? c n = some a → v.declared? m a = none) →
    (∀ e, v.dispatch c m = .error e ↔
      ∃ last s, v.EndsIn c (.missing last s) ∧ e = .unresolvedSuperclass m last s) ∧
    (v.dispatch c m = .ok none ↔
      v.EndsIn c .outside ∨ v.EndsIn c .top ∨ v.EndsIn c .object ∨ v.EndsIn c .circle)) ∧
  ∀ fuel, v.classes.length ≤ fuel → v.dispatchWithin m fuel c = v.dispatch c m
  := by
  refine ⟨?_, ?_, fun _ => dispatchWithin_eq_dispatch⟩
  · intro n a found
    apply dispatchWithin_of_nearest (Nat.le_refl _)
  · intro hm
    have hanswer : ∀ e, v.EndsIn c e → v.dispatch c m = e.answer m := by
      intro e
      apply dispatchWithin_of_endsIn (Nat.le_refl _) hm
    obtain ⟨e, he⟩ := v.exists_endsIn c
    constructor
    · intro err
      constructor
      · intro herr
        rw [hanswer e he] at herr
        cases e with
        | missing last s => use last, s, he, (Except.error.inj herr).symm
        | _ => cases herr
      · rintro ⟨last, s, hmissing, rfl⟩
        apply hanswer _ hmissing
    · constructor
      · intro hnone
        rw [hanswer e he] at hnone
        cases e with
        | outside => apply Or.inl he
        | top => apply Or.inr (Or.inl he)
        | object => apply Or.inr (Or.inr (Or.inl he))
        | missing last s => cases hnone
        | circle => apply Or.inr (Or.inr (Or.inr he))
      · rintro (h | h | h | h) <;> apply hanswer _ h

end View

/-! ### A method that is found two classes above -/

namespace Inherited

def leaf : ClassName := ⟨"Leaf"⟩
def middle : ClassName := ⟨"Middle"⟩
def root : ClassName := ⟨"Root"⟩
def ping : ClassName := ⟨"Ping"⟩
def pong : ClassName := ⟨"Pong"⟩
def stray : ClassName := ⟨"Stray"⟩
def absent : ClassName := ⟨"Absent"⟩

def run (c : ClassName) : MethodSig := ⟨c, "run", [], .void⟩
def stop (c : ClassName) : MethodSig := ⟨c, "stop", [], .void⟩

def running : Method := ⟨run root, false, some ⟨[], [.retVoid]⟩⟩

/-- `Ping` and `Pong` are each other's superclasses, and the superclass of `Stray` is missing. -/
def view : View := .ofList [
  ⟨leaf, some middle, [], none, []⟩,
  ⟨middle, some root, [], none, []⟩,
  ⟨root, some .object, [], none, [running]⟩,
  ⟨ping, some pong, [], none, []⟩,
  ⟨pong, some ping, [], none, []⟩,
  ⟨stray, some absent, [], none, []⟩]

theorem dispatch_root_circle_absent :
  view.ancestor? leaf 2 = some root ∧ view.declared? (run leaf) root = some running ∧
  view.dispatch leaf (run leaf) = .ok (some (run root)) ∧
  (∀ n a, view.ancestor? ping n = some a → view.declared? (stop ping) a = none) ∧
  view.EndsIn ping .circle ∧ view.dispatch ping (stop ping) = .ok none ∧
  view.dispatch stray (stop ping) = .error (.unresolvedSuperclass (stop ping) stray absent)
  := by
  have hroot : view.ancestor? leaf 2 = some root := rfl
  have hrun : view.declared? (run leaf) root = some running := rfl
  have hnearest : ∀ k < 2, ∀ b, view.ancestor? leaf k = some b →
      view.declared? (run leaf) b = none := by
    intro k hk b hb
    obtain rfl | rfl : k = 0 ∨ k = 1 := by omega
    · obtain rfl : leaf = b := Option.some.inj hb
      rfl
    · obtain rfl : middle = b := Option.some.inj hb
      rfl
  have hstop : ∀ a, view.declared? (stop ping) a = none := by
    intro a
    rw [View.declared?, Option.bind_eq_none_iff]
    intro d hd
    have hall : ∀ e ∈ view.classes, e.methodBySubSignature? (stop ping) = none := by decide
    apply hall d (View.class?_eq_some_iff.1 hd).1
  have hcircle : view.EndsIn ping .circle := by
    apply View.EndsIn.circle (n := 0) (k := 2) (a := ping) (by decide) rfl rfl
  have hmissing : view.EndsIn stray (.missing stray absent) := by
    apply View.EndsIn.missing (n := 0) (d := ⟨stray, some absent, [], none, []⟩) <;> decide
  refine ⟨hroot, hrun, ?_, fun _ a _ => hstop a, hcircle, ?_, ?_⟩
  · apply (View.dispatch_eq_nearest view leaf (run leaf)).1 2 root running hroot hrun hnearest
  · apply ((View.dispatch_eq_nearest view ping (stop ping)).2.1 fun _ a _ => hstop a).2.2
    apply Or.inr (Or.inr (Or.inr hcircle))
  · apply (((View.dispatch_eq_nearest view stray (stop ping)).2.1 fun _ a _ => hstop a).1 _).2
    use stray, absent, hmissing

end Inherited

end ServiceFlow
