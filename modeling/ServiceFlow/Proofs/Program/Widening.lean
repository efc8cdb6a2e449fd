import ServiceFlow.Proofs.Program.Dispatch
import ServiceFlow.Proofs.Program.Hierarchy

/-!
# Wider views

A view may be widened by further classes; of classes with the same name the first one still counts.
Chains of superclasses only get longer then, and more types become supertypes of a class.  So a
wider view may answer where the smaller one failed or found nothing, but a method that was found
stays, and it stays a target of the invocations that enter it.
-/

namespace ServiceFlow

namespace View

variable {v w : View} {c : ClassName} {m : MethodSig}

/-! ### Classes of a wider view -/

/-- Every class of the first view is the class of its name in the second one. -/
def PartOf (v w : View) : Prop := ∀ c d, v.class? c = some d → w.class? c = some d

theorem find?_firstOfName {seen : List ClassName} (l : List ClassDecl) (hc : c ∉ seen) :
  (firstOfName seen l).find? (fun d => d.name = c) = l.find? (fun d => d.name = c)
  := by
  induction l generalizing seen with
  | nil => rfl
  | cons d l ih =>
      rw [firstOfName]
      by_cases hd : d.name = c
      · have hnew : d.name ∉ seen := hd ▸ hc
        rw [if_neg hnew, List.find?_cons_of_pos (by simpa using hd),
          List.find?_cons_of_pos (by simpa using hd)]
      · rw [List.find?_cons_of_neg (by simpa using hd)]
        split
        · apply ih hc
        · rw [List.find?_cons_of_neg (by simpa using hd)]
          apply ih
          simpa using ⟨Ne.symm hd, hc⟩

/-- A name stands for the first class that has it. -/
theorem class?_ofList (l : List ClassDecl) (c : ClassName) :
  (ofList l).class? c = l.find? (fun d => d.name = c)
  := find?_firstOfName l List.not_mem_nil

theorem partOf_append (cs ds : List ClassDecl) :
  (ofList cs).PartOf (ofList (cs ++ ds))
  := by
  intro c d hd
  rw [class?_ofList] at hd ⊢
  rw [List.find?_append, hd]
  rfl

theorem PartOf.contains (h : v.PartOf w) (hc : v.contains c) :
  w.contains c
  := by
  obtain ⟨d, hd⟩ := Option.isSome_iff_exists.1 hc
  rw [View.contains, h c d hd]
  rfl

/-! ### Supertypes -/

theorem PartOf.extends {a b : ClassName} (h : v.PartOf w) (hab : v.Extends a b) :
  w.Extends a b
  := by
  obtain ⟨d, hd, hname, hb⟩ := hab
  obtain ⟨hd, hname⟩ := class?_eq_some_iff.1 (h a d (class?_eq_some_iff.2 ⟨hd, hname⟩))
  use d, hd, hname, hb

/-- The classes whose method may be meant are the named class and, if the method may be overridden,
the classes of the view below it. -/
theorem mem_receivers_iff {i : Invoke} :
  c ∈ v.receivers i ↔ c = i.method.owner ∨ isOverridable i.kind ∧ v.contains c ∧
    Relation.ReflTransGen v.Extends c i.method.owner
  := by
  cases hkind : isOverridable i.kind with
  | false => simp [receivers_of_not_overridable hkind]
  | true =>
      rw [receivers_of_overridable hkind, classesBelow, List.mem_cons, List.mem_filter,
        contains_iff_exists, List.mem_map]
      by_cases hc : c = i.method.owner <;> simp [hc]

theorem PartOf.mem_receivers {i : Invoke} (h : v.PartOf w) (hc : c ∈ v.receivers i) :
  c ∈ w.receivers i
  := by
  rw [mem_receivers_iff] at hc ⊢
  apply hc.imp_right
  rintro ⟨hkind, hview, hbelow⟩
  use hkind, h.contains hview
  apply Relation.ReflTransGen.mono _ _ _ hbelow
  intro a b
  apply h.extends

/-! ### Chains of superclasses -/

theorem PartOf.parent? {a b : ClassName} (h : v.PartOf w) (hb : v.parent? a = some b) :
  w.parent? a = some b
  := by
  obtain ⟨d, hd, hsuper, hview⟩ := parent?_eq_some hb
  rw [View.parent?, h a d hd, Option.bind_some, hsuper]
  simpa using h.contains hview

theorem PartOf.ancestor? {n : Nat} {a : ClassName} (h : v.PartOf w)
    (ha : v.ancestor? c n = some a) :
  w.ancestor? c n = some a
  := by
  induction n generalizing a with
  | zero => apply ha
  | succ n ih =>
      obtain ⟨b, hb, hparent⟩ := Option.bind_eq_some_iff.1 ha
      rw [ancestor?_succ (ih hb)]
      apply h.parent? hparent

/-- A class of the smaller view declares the same methods in the wider one. -/
theorem PartOf.declared? (h : v.PartOf w) (hc : v.contains c) :
  w.declared? m c = v.declared? m c
  := by
  obtain ⟨d, hd⟩ := Option.isSome_iff_exists.1 hc
  rw [View.declared?, View.declared?, hd, h c d hd]

/-- Where a class answers with a method, that is the nearest declaration and has a body. -/
theorem exists_nearest_of_dispatch {t : MethodSig} (h : v.dispatch c m = .ok (some t)) :
  ∃ n a found, v.ancestor? c n = some a ∧ v.declared? m a = some found ∧
    (∀ k < n, ∀ b, v.ancestor? c k = some b → v.declared? m b = none) ∧
    found.isConcrete ∧ found.signature = t
  := by
  by_cases hm : ∀ n a, v.ancestor? c n = some a → v.declared? m a = none
  · obtain ⟨e, he⟩ := v.exists_endsIn c
    rw [dispatch, dispatchWithin_of_endsIn (Nat.le_refl _) hm he] at h
    cases e <;> cases h
  · push Not at hm
    obtain ⟨n, a, ha, hne⟩ := hm
    obtain ⟨k, b, found, hb, hfound, hnearest⟩ := exists_nearest ha hne
    rw [dispatch, dispatchWithin_of_nearest (Nat.le_refl _) hb hfound hnearest] at h
    split at h
    · next hconcrete =>
      use k, b, found, hb, hfound, hnearest, hconcrete, Option.some.inj (Except.ok.inj h)
    · cases h

/-- The chain up to the nearest declaration is in the smaller view, and so is in the wider one. -/
theorem PartOf.dispatch {t : MethodSig} (h : v.PartOf w) (ht : v.dispatch c m = .ok (some t)) :
  w.dispatch c m = .ok (some t)
  := by
  obtain ⟨n, a, found, ha, hfound, hnearest, hconcrete, rfl⟩ := exists_nearest_of_dispatch ht
  have hfound' : w.declared? m a = some found := by
    rw [h.declared? (contains_of_declared? hfound), hfound]
  have hnearest' : ∀ k < n, ∀ b, w.ancestor? c k = some b → w.declared? m b = none := by
    intro k hk b hb
    obtain ⟨b', hb'⟩ := exists_ancestor?_of_le ha hk.le
    obtain rfl : b' = b := Option.some.inj ((h.ancestor? hb').symm.trans hb)
    rw [h.declared? (contains_of_ancestor?_lt ha hk hb'), hnearest k hk b' hb']
  rw [View.dispatch, dispatchWithin_of_nearest (Nat.le_refl _) (h.ancestor? ha) hfound' hnearest',
    if_pos hconcrete]

/-! ### Targets -/

/-- The targets of an invocation are what the classes that may be meant answer with. -/
theorem mem_targets_iff {i : Invoke} {ts : List MethodSig} (h : v.resolve i = .ok ts)
    {t : MethodSig} :
  t ∈ ts ↔ i.kind ≠ .dynamic ∧ v.contains i.method.owner ∧
    ∃ c ∈ v.receivers i, v.dispatch c i.method = .ok (some t)
  := by
  by_cases hout : i.kind = .dynamic ∨ ¬v.contains i.method.owner
  · have hnone : v.resolve i = .ok [] := by
      apply if_pos
      simpa using hout
    obtain rfl : [] = ts := Except.ok.inj (hnone.symm.trans h)
    simp only [List.not_mem_nil, false_iff, not_and]
    intro hkind hview
    exact absurd hout (not_or.2 ⟨hkind, not_not.2 hview⟩)
  · obtain ⟨hkind, hview⟩ := not_or.1 hout
    have hview := not_not.1 hview
    obtain ⟨found, hfound, rfl⟩ := (resolve_eq_ok_iff hkind hview).1 h
    rw [mem_found_iff hfound]
    simp [hkind, hview]

theorem PartOf.targets {i : Invoke} {ts us : List MethodSig} (h : v.PartOf w)
    (hts : v.resolve i = .ok ts) (hus : w.resolve i = .ok us) :
  ts ⊆ us
  := by
  intro t ht
  obtain ⟨hkind, hview, c, hc, hdispatch⟩ := (mem_targets_iff hts).1 ht
  apply (mem_targets_iff hus).2
  use hkind, h.contains hview, c, h.mem_receivers hc, h.dispatch hdispatch

/-- Further classes take no method away: what a class answers with it answers with in the wider view
too, and the targets of an invocation stay its targets as long as it can be resolved. -/
theorem resolve_of_append (cs ds : List ClassDecl) :
  (∀ c m t, (ofList cs).dispatch c m = .ok (some t) →
    (ofList (cs ++ ds)).dispatch c m = .ok (some t)) ∧
  ∀ i ts us, (ofList cs).resolve i = .ok ts → (ofList (cs ++ ds)).resolve i = .ok us → ts ⊆ us
  := by
  have hpart := partOf_append cs ds
  constructor
  · intro c m t
    apply hpart.dispatch
  · intro i ts us
    apply hpart.targets

end View

/-! ### An inner class beside its outer class -/

namespace Beside

def inner : ClassName := ⟨"Outer$Inner"⟩
def outer : ClassName := ⟨"Outer"⟩
def start (c : ClassName) : MethodSig := ⟨c, "start", [], .void⟩

def starting (c : ClassName) : Method := ⟨start c, false, some ⟨[], [.retVoid]⟩⟩

def innerDecl : ClassDecl := ⟨inner, some .object, [], some outer, [starting inner]⟩

/-- The outer class is below the inner one and overrides its method; a second inner class without
the method does not count. -/
def added : List ClassDecl := [⟨outer, some inner, [], none, [starting outer]⟩, .empty inner]

def call : Invoke := ⟨.virtual, start inner, none, []⟩

theorem targets_kept :
  (View.ofList [innerDecl]).dispatch inner (start inner) = .ok (some (start inner)) ∧
  (View.ofList ([innerDecl] ++ added)).dispatch inner (start inner) = .ok (some (start inner)) ∧
  (View.ofList [innerDecl]).resolve call = .ok [start inner] ∧
  (View.ofList ([innerDecl] ++ added)).resolve call = .ok [start inner, start outer] ∧
  [start inner] ⊆ [start inner, start outer]
  := by
  have hdispatch : (View.ofList [innerDecl]).dispatch inner (start inner) =
      .ok (some (start inner)) := rfl
  have hsmall : (View.ofList [innerDecl]).resolve call = .ok [start inner] := rfl
  have hwide : (View.ofList ([innerDecl] ++ added)).resolve call =
      .ok [start inner, start outer] := rfl
  obtain ⟨hmethods, htargets⟩ := View.resolve_of_append [innerDecl] added
  use hdispatch, hmethods inner (start inner) (start inner) hdispatch, hsmall, hwide
  apply htargets call _ _ hsmall hwide

end Beside

end ServiceFlow
