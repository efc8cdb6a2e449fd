import Mathlib.Data.List.Perm.Subperm
import Mathlib.Logic.Relation
import ServiceFlow.Proofs.Program.Supergraph

/-!
# The class hierarchy

The classes of a view declare a superclass and interfaces.  These edges may run in circles, meet
again, or leave the view.  A type is a subtype of exactly those types that a chain of edges leads
to, and an invocation that may be overridden finds its methods in exactly the classes from which
such a chain leads to the class it names.
-/

namespace ServiceFlow

namespace View

variable {v : View}

/-- A class of the view declares the type as its superclass or as one of its interfaces. -/
def Extends (v : View) (c s : ClassName) : Prop :=
  ∃ d ∈ v.classes, d.name = c ∧ (d.superclass = some s ∨ s ∈ d.interfaces)

theorem mem_supertypes {c s : ClassName} :
  s ∈ v.supertypes c ↔ v.Extends c s
  := by
  rw [supertypes]
  constructor
  · intro h
    split at h
    · next d hd =>
      obtain ⟨hmem, hname⟩ := class?_eq_some_iff.1 hd
      use d, hmem, hname
      simpa using h
    · cases h
  · rintro ⟨d, hd, hname, h⟩
    rw [class?_eq_some_iff.2 ⟨hd, hname⟩]
    simpa using h

/-- Steps to declared supertypes are steps along the edges of the hierarchy. -/
theorem reaches_supertypes_iff {sub sup : ClassName} :
  Closure.Reaches v.supertypes [sub] sup ↔ Relation.ReflTransGen v.Extends sub sup
  := by
  have hedges : (fun c s => s ∈ v.supertypes c) = v.Extends := by
    funext c s
    apply propext mem_supertypes
  rw [Closure.Reaches, hedges]
  simp

/-! ### The number of supertypes -/

/-- The types that some class of the view declares as a supertype. -/
def declaredSupertypes (v : View) : List ClassName :=
  v.classes.flatMap (fun d => d.superclass.toList ++ d.interfaces)

theorem supertypeBound_eq (v : View) :
  v.supertypeBound = 1 + v.declaredSupertypes.length
  := by
  rw [supertypeBound, declaredSupertypes]
  generalize 1 = n
  generalize v.classes = l
  induction l generalizing n with
  | nil => rfl
  | cons d l ih =>
      rw [List.foldl_cons, ih, List.flatMap_cons, List.length_append, List.length_append]
      omega

theorem Extends.mem_declaredSupertypes {c s : ClassName} (h : v.Extends c s) :
  s ∈ v.declaredSupertypes
  := by
  obtain ⟨d, hd, _, hs⟩ := h
  apply List.mem_flatMap.2
  use d, hd
  simpa using hs

/-- No more types can be reached than the bound says, so that the search for supertypes is complete
as soon as it has that many steps. -/
theorem explores_supertypes (sub : ClassName) {steps : Nat} (hsteps : v.supertypeBound ≤ steps) :
  Closure.Explores v.supertypes [sub] [] (Closure.reachable v.supertypes steps [sub])
  := by
  apply Closure.explores_reachable
  intro l hnodup hl
  have hsubset : l ⊆ sub :: v.declaredSupertypes := by
    intro s hs
    apply Closure.Reaches.mem _ _ (hl s hs)
    · apply List.cons_subset.2 ⟨List.mem_cons_self, List.nil_subset _⟩
    · intro c _ t ht
      apply List.mem_cons_of_mem _ (mem_supertypes.1 ht).mem_declaredSupertypes
  have hlength := (hnodup.subperm hsubset).length_le
  rw [List.length_cons] at hlength
  rw [supertypeBound_eq] at hsteps
  omega

theorem mem_reachable_supertypes_iff {sub sup : ClassName} {steps : Nat}
    (hsteps : v.supertypeBound ≤ steps) :
  sup ∈ Closure.reachable v.supertypes steps [sub] ↔ Relation.ReflTransGen v.Extends sub sup
  := by
  rw [(explores_supertypes sub hsteps).mem_iff, reaches_supertypes_iff]

theorem isSubtype_iff {sub sup : ClassName} :
  v.isSubtype sub sup ↔ Relation.ReflTransGen v.Extends sub sup
  := by
  rw [isSubtype, decide_eq_true_iff]
  apply mem_reachable_supertypes_iff (Nat.le_refl _)

instance (sub sup : ClassName) : Decidable (Relation.ReflTransGen v.Extends sub sup) :=
  decidable_of_iff _ isSubtype_iff

/-- The subtype test decides the reflexive and transitive closure of the edges of the hierarchy.
Its search comes to an end by itself: further steps find no other types. -/
theorem isSubtype_eq_closure (v : View) :
  (∀ sub sup, v.isSubtype sub sup ↔ Relation.ReflTransGen v.Extends sub sup) ∧
  (∀ sub sup steps, v.supertypeBound ≤ steps →
    (sup ∈ Closure.reachable v.supertypes steps [sub] ↔ v.isSubtype sub sup)) ∧
  (∀ c, v.isSubtype c c) ∧
  ∀ a b c, v.isSubtype a b → v.isSubtype b c → v.isSubtype a c
  := by
  refine ⟨fun _ _ => isSubtype_iff, ?_, ?_, ?_⟩
  · intro sub sup steps hsteps
    rw [mem_reachable_supertypes_iff hsteps, isSubtype_iff]
  · intro c
    apply isSubtype_iff.2 .refl
  · intro a b c hab hbc
    apply isSubtype_iff.2
    apply (isSubtype_iff.1 hab).trans (isSubtype_iff.1 hbc)

/-! ### Invocations -/

/-- The class and then the other classes of the view that are below it, in the order of the view. -/
def classesBelow (v : View) (c : ClassName) : List ClassName :=
  c :: (v.classes.map ClassDecl.name).filter
    (fun d => d ≠ c ∧ Relation.ReflTransGen v.Extends d c)

theorem receivers_of_overridable {i : Invoke} (h : isOverridable i.kind) :
  v.receivers i = v.classesBelow i.method.owner
  := by
  rw [receivers, if_pos h, classesBelow, properSubtypes]
  congr 1
  apply List.filter_congr
  intro d _
  simp [← isSubtype_iff]

theorem receivers_of_not_overridable {i : Invoke} (h : isOverridable i.kind = false) :
  v.receivers i = [i.method.owner]
  := by
  rw [receivers, h]
  rfl

section

variable {i : Invoke} (hkind : i.kind ≠ .dynamic) (hview : v.contains i.method.owner)

include hkind hview

theorem resolve_of_contains :
  v.resolve i =
    ((v.receivers i).mapM (fun c => v.dispatch c i.method)).map
      (fun found => (found.filterMap id).eraseDups)
  := by
  rw [resolve, if_neg (by simp [hkind, hview])]
  cases (v.receivers i).mapM (fun c => v.dispatch c i.method) <;> rfl

theorem resolve_eq_ok_iff {ts : List MethodSig} :
  v.resolve i = .ok ts ↔ ∃ found : List (Option MethodSig),
    (v.receivers i).map (fun c => v.dispatch c i.method) = found.map .ok ∧
      ts = (found.filterMap id).eraseDups
  := by
  rw [resolve_of_contains hkind hview]
  constructor
  · intro h
    obtain ⟨found, hfound, rfl⟩ := map_eq_ok h
    use found, mapM_eq_ok_iff.1 hfound
  · rintro ⟨found, hfound, rfl⟩
    rw [mapM_eq_ok_iff.2 hfound]
    rfl

theorem resolve_eq_error_iff {e : ScopeError} :
  v.resolve i = .error e ↔ ∃ before c after, v.receivers i = before ++ c :: after ∧
    (∀ b ∈ before, ∃ r, v.dispatch b i.method = .ok r) ∧ v.dispatch c i.method = .error e
  := by
  rw [resolve_of_contains hkind hview, ← mapM_eq_error_iff]
  constructor
  · apply map_eq_error
  · intro h
    rw [h]
    rfl

end

/-- The methods found are those that some class answers with. -/
theorem mem_found_iff {m t : MethodSig} {l : List ClassName} {found : List (Option MethodSig)}
    (h : l.map (fun c => v.dispatch c m) = found.map .ok) :
  t ∈ (found.filterMap id).eraseDups ↔ ∃ c ∈ l, v.dispatch c m = .ok (some t)
  := by
  have hanswers : (∃ c ∈ l, v.dispatch c m = .ok (some t)) ↔
      .ok (some t) ∈ l.map (fun c => v.dispatch c m) := List.mem_map.symm
  rw [hanswers, h]
  simp

theorem resolve_of_not_overridable {i : Invoke} (hkind : i.kind ≠ .dynamic)
    (hview : v.contains i.method.owner) (h : isOverridable i.kind = false) :
  v.resolve i = (v.dispatch i.method.owner i.method).map Option.toList
  := by
  rw [resolve_of_contains hkind hview, receivers_of_not_overridable h, List.mapM_cons]
  cases v.dispatch i.method.owner i.method with
  | error e => rfl
  | ok found => cases found <;> rfl

/-- Dynamic invocations and those of classes outside the view enter no method.  Static and special
ones enter the method that their class answers with.  The others enter what the class and all
classes below it answer with, each method once, in the order of the view.  If some of these classes
cannot answer, the first of them says why. -/
theorem resolve_eq_hierarchy (v : View) (i : Invoke) :
  (i.kind = .dynamic ∨ ¬v.contains i.method.owner → v.resolve i = .ok []) ∧
  (v.contains i.method.owner → i.kind = .static ∨ i.kind = .special →
    v.resolve i = (v.dispatch i.method.owner i.method).map Option.toList) ∧
  (v.contains i.method.owner → i.kind = .virtual ∨ i.kind = .interface →
    (∀ ts, v.resolve i = .ok ts ↔ ∃ found : List (Option MethodSig),
      (v.classesBelow i.method.owner).map (fun c => v.dispatch c i.method) = found.map .ok ∧
        ts = (found.filterMap id).eraseDups) ∧
    (∀ ts, v.resolve i = .ok ts → ts.Nodup ∧
      ∀ t, t ∈ ts ↔ ∃ c ∈ v.classesBelow i.method.owner, v.dispatch c i.method = .ok (some t)) ∧
    ∀ e, v.resolve i = .error e ↔ ∃ before c after,
      v.classesBelow i.method.owner = before ++ c :: after ∧
        (∀ b ∈ before, ∃ r, v.dispatch b i.method = .ok r) ∧ v.dispatch c i.method = .error e)
  := by
  refine ⟨?_, ?_, ?_⟩
  · intro h
    apply if_pos
    simpa using h
  · intro hview hkind
    apply resolve_of_not_overridable _ hview
    · rcases hkind with hkind | hkind <;> rw [hkind] <;> rfl
    · rcases hkind with hkind | hkind <;> rw [hkind] <;> decide
  · intro hview hkind
    have hne : i.kind ≠ .dynamic := by rcases hkind with hkind | hkind <;> rw [hkind] <;> decide
    have hoverridable : isOverridable i.kind := by
      rcases hkind with hkind | hkind <;> rw [hkind] <;> rfl
    rw [← receivers_of_overridable hoverridable]
    refine ⟨fun _ => resolve_eq_ok_iff hne hview, ?_, fun _ => resolve_eq_error_iff hne hview⟩
    intro ts hts
    obtain ⟨found, hfound, rfl⟩ := (resolve_eq_ok_iff hne hview).1 hts
    use nodup_eraseDups _
    intro t
    apply mem_found_iff hfound

end View

/-! ### A hierarchy that runs in a circle -/

namespace Diamond

def base : ClassName := ⟨"Base"⟩
def left : ClassName := ⟨"Left"⟩
def right : ClassName := ⟨"Right"⟩
def bottom : ClassName := ⟨"Bottom"⟩
def lone : ClassName := ⟨"Lone"⟩
def stub : ClassName := ⟨"Stub"⟩
def absent : ClassName := ⟨"Absent"⟩

def run (c : ClassName) : MethodSig := ⟨c, "run", [], .void⟩

def concrete (c : ClassName) : Method := ⟨run c, false, some ⟨[], [.retVoid]⟩⟩

/-- `Bottom` is below `Base` on two ways, and `Base` is below `Bottom`. -/
def view : View := .ofList [
  ⟨bottom, some left, [right], none, [concrete bottom]⟩,
  ⟨right, none, [base], none, []⟩,
  ⟨left, some base, [], none, [concrete left]⟩,
  ⟨base, some bottom, [], none, [⟨run base, false, none⟩]⟩,
  ⟨lone, none, [], none, []⟩,
  ⟨stub, some absent, [lone], none, []⟩]

def call (c : ClassName) : Invoke := ⟨.virtual, run c, none, []⟩

theorem isSubtype_around :
  view.isSubtype right base ∧ view.isSubtype base left ∧ view.isSubtype right left ∧
    ¬Relation.ReflTransGen view.Extends lone base
  := by
  obtain ⟨hclosure, _, _, htrans⟩ := View.isSubtype_eq_closure view
  have hbase : view.isSubtype right base := by decide
  have hleft : view.isSubtype base left := by decide
  refine ⟨hbase, hleft, htrans right base left hbase hleft, ?_⟩
  rw [← hclosure lone base]
  decide

theorem resolve_overridden :
  view.contains base ∧ view.resolve (call base) = .ok [run bottom, run left] ∧
  view.contains lone ∧
    view.resolve (call lone) = .error (.unresolvedSuperclass (run lone) stub absent)
  := by
  have hbase : view.contains base := rfl
  have hlone : view.contains lone := rfl
  obtain ⟨hfound, _, _⟩ := (View.resolve_eq_hierarchy view (call base)).2.2 hbase (.inl rfl)
  obtain ⟨_, _, hfailed⟩ := (View.resolve_eq_hierarchy view (call lone)).2.2 hlone (.inl rfl)
  refine ⟨hbase, (hfound _).2 ?_, hlone, (hfailed _).2 ?_⟩
  · use [none, some (run bottom), none, some (run left)]
    decide
  · use [lone], stub, [], rfl
    constructor
    · intro c hc
      obtain rfl := List.mem_singleton.1 hc
      use none
      rfl
    · rfl

end Diamond

end ServiceFlow
