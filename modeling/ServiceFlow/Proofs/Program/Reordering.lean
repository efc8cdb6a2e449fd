import Mathlib.Data.List.Find
import Mathlib.Data.List.Forall2
import ServiceFlow.Proofs.Program.CallGraph
import ServiceFlow.Proofs.Program.Pool

/-!
# The order of methods

Two classes that declare the same methods in different orders are told apart by no look-up, if no
look-up has more than one method to find.  The views of such classes resolve the same invocations
to the same methods, hence they have the same supergraphs, and call graphs with the same calls.
Programs with such classes have such views.
-/

namespace ServiceFlow

/-- Both computations have a result, and the results are related, or both fail. -/
inductive Parallel {α β ε : Type} (R : α → β → Prop) : Except ε α → Except ε β → Prop
  | ok {a : α} {b : β} (h : R a b) : Parallel R (.ok a) (.ok b)
  | error (e e' : ε) : Parallel R (.error e) (.error e')

namespace Parallel

variable {α β γ δ ε : Type} {R : α → β → Prop} {S : γ → δ → Prop} {x : Except ε α} {y : Except ε β}

theorem bind {f : α → Except ε γ} {g : β → Except ε δ} (h : Parallel R x y)
    (hf : ∀ a b, R a b → Parallel S (f a) (g b)) :
  Parallel S (x >>= f) (y >>= g)
  := by
  cases h with
  | ok hab => exact hf _ _ hab
  | error e e' => exact .error e e'

theorem map {f : α → γ} {g : β → δ} (h : Parallel R x y)
    (hf : ∀ a b, R a b → S (f a) (g b)) :
  Parallel S (x.map f) (y.map g)
  := by
  cases h with
  | ok hab => exact .ok (hf _ _ hab)
  | error e e' => exact .error e e'

end Parallel

/-! ### Classes -/

theorem MethodSig.eq_of_sameSubSignature {m n k : MethodSig} (howner : m.owner = n.owner)
    (hm : m.sameSubSignature k) (hn : n.sameSubSignature k) :
  m = n
  := by
  cases m
  cases n
  simp_all [sameSubSignature]

/-- The classes differ in the order of their methods only, and all look-ups agree. -/
structure ClassDecl.Reordered (d e : ClassDecl) : Prop where
  name : d.name = e.name
  superclass : d.superclass = e.superclass
  interfaces : d.interfaces = e.interfaces
  outer : d.outer = e.outer
  methods : d.methods.Perm e.methods
  method? : ∀ m, d.method? m = e.method? m
  methodBySubSignature? : ∀ m, d.methodBySubSignature? m = e.methodBySubSignature? m
  staticInitializer? : d.staticInitializer? = e.staticInitializer?

/-- Every method is declared under the name of the class and has a signature of its own, and there
is no more than one static initializer. -/
structure ClassDecl.IsRegular (d : ClassDecl) : Prop where
  owners : ∀ m ∈ d.methods, m.signature.owner = d.name
  signatures : (d.methods.map Method.signature).Nodup
  initializers : ∀ m ∈ d.methods, ∀ n ∈ d.methods,
    m.signature.isStaticInitializer → n.signature.isStaticInitializer → m = n

namespace ClassDecl

variable {d e : ClassDecl}

theorem Reordered.refl (d : ClassDecl) :
  d.Reordered d
  := ⟨rfl, rfl, rfl, rfl, .refl _, fun _ => rfl, fun _ => rfl, rfl⟩

theorem IsRegular.eq_of_signature (h : d.IsRegular) {m n : Method} (hm : m ∈ d.methods)
    (hn : n ∈ d.methods) (heq : m.signature = n.signature) :
  m = n
  := List.inj_on_of_nodup_map h.signatures hm hn heq

/-- The methods of a regular class may be declared in any order. -/
theorem IsRegular.reordered (h : d.IsRegular) {methods : List Method}
    (hperm : methods.Perm d.methods) :
  d.Reordered { d with methods }
  := by
  refine ⟨rfl, rfl, rfl, rfl, hperm.symm, fun m => ?_, fun m => ?_, ?_⟩
  · apply List.find?_eq_find?_of_perm hperm.symm
    rintro a ⟨ha, hma⟩ b ⟨hb, hmb⟩
    apply h.eq_of_signature ha hb
    simp_all
  · apply List.find?_eq_find?_of_perm hperm.symm
    rintro a ⟨ha, hma⟩ b ⟨hb, hmb⟩
    apply h.eq_of_signature ha hb
    apply MethodSig.eq_of_sameSubSignature _ hma hmb
    rw [h.owners a ha, h.owners b hb]
  · apply List.find?_eq_find?_of_perm hperm.symm
    rintro a ⟨ha, hma⟩ b ⟨hb, hmb⟩
    apply h.initializers a ha b hb hma hmb

theorem IsRegular.of_perm (h : d.IsRegular) {methods : List Method}
    (hperm : methods.Perm d.methods) :
  IsRegular { d with methods }
  := by
  refine ⟨?_, (hperm.map _).nodup_iff.2 h.signatures, ?_⟩
  · intro m hm
    apply h.owners m (hperm.mem_iff.1 hm)
  · intro m hm n hn
    apply h.initializers m (hperm.mem_iff.1 hm) n (hperm.mem_iff.1 hn)

/-- A regular class is regular on its own. -/
theorem IsRegular.alone (h : d.IsRegular) :
  (View.ofList [d]).IsRegular
  := by
  constructor
  · simpa [View.ofList, View.firstOfName] using h.owners
  · simpa [View.ofList, View.firstOfName, View.methods] using h.signatures

end ClassDecl

/-! ### Views -/

namespace View

/-- The views have the same classes up to the order of their methods. -/
def Reordered (v w : View) : Prop := List.Forall₂ ClassDecl.Reordered v.classes w.classes

variable {v w : View}

theorem forall₂_firstOfName {ds es : List ClassDecl} (h : List.Forall₂ ClassDecl.Reordered ds es)
    (seen : List ClassName) :
  List.Forall₂ ClassDecl.Reordered (firstOfName seen ds) (firstOfName seen es)
  := by
  induction h generalizing seen with
  | nil => exact .nil
  | cons hd _ ih =>
      rw [firstOfName, firstOfName, hd.name]
      split
      · exact ih seen
      · exact .cons hd (ih _)

theorem reordered_ofList {ds es : List ClassDecl} (h : List.Forall₂ ClassDecl.Reordered ds es) :
  (ofList ds).Reordered (ofList es)
  := forall₂_firstOfName h []

namespace Reordered

theorem class? (h : v.Reordered w) (c : ClassName) :
  (v.class? c = none ∧ w.class? c = none) ∨
    ∃ d e, v.class? c = some d ∧ w.class? c = some e ∧ d.Reordered e
  := by
  unfold View.class? Reordered at *
  generalize v.classes = ds at h
  generalize w.classes = es at h
  induction h with
  | nil => exact .inl ⟨rfl, rfl⟩
  | @cons d e ds es hd _ ih =>
      rw [List.find?_cons, List.find?_cons, hd.name]
      split
      · exact .inr ⟨d, e, rfl, rfl, hd⟩
      · exact ih

theorem names (h : v.Reordered w) :
  v.classes.map ClassDecl.name = w.classes.map ClassDecl.name
  := by
  unfold Reordered at h
  generalize v.classes = ds at h
  generalize w.classes = es at h
  induction h with
  | nil => rfl
  | cons hd _ ih => rw [List.map_cons, List.map_cons, hd.name, ih]

theorem methods (h : v.Reordered w) :
  v.methods.Perm w.methods
  := by
  unfold View.methods Reordered at *
  generalize v.classes = ds at h
  generalize w.classes = es at h
  induction h with
  | nil => rfl
  | cons hd _ ih => exact hd.methods.append ih

theorem contains (h : v.Reordered w) (c : ClassName) :
  v.contains c = w.contains c
  := by
  rcases h.class? c with ⟨hv, hw⟩ | ⟨d, e, hv, hw, _⟩ <;> simp [View.contains, hv, hw]

theorem method? (h : v.Reordered w) (m : MethodSig) :
  v.method? m = w.method? m
  := by
  rcases h.class? m.owner with ⟨hv, hw⟩ | ⟨d, e, hv, hw, hd⟩
  · simp [View.method?, hv, hw]
  · simp [View.method?, hv, hw, hd.method? m]

theorem body? (h : v.Reordered w) (m : MethodSig) :
  v.body? m = w.body? m
  := by
  rw [View.body?, View.body?, h.method?]

theorem hasBody (h : v.Reordered w) (m : MethodSig) :
  v.hasBody m = w.hasBody m
  := by
  rw [View.hasBody, View.hasBody, h.body?]

theorem stmt? (h : v.Reordered w) (q : StmtId) :
  v.stmt? q = w.stmt? q
  := by
  rw [View.stmt?, View.stmt?, h.body?]

theorem supertypes (h : v.Reordered w) (c : ClassName) :
  v.supertypes c = w.supertypes c
  := by
  rcases h.class? c with ⟨hv, hw⟩ | ⟨d, e, hv, hw, hd⟩
  · rw [View.supertypes, View.supertypes, hv, hw]
  · simp only [View.supertypes, hv, hw, hd.superclass, hd.interfaces]

theorem supertypeBound (h : v.Reordered w) :
  v.supertypeBound = w.supertypeBound
  := by
  unfold View.supertypeBound Reordered at *
  generalize v.classes = ds at h
  generalize w.classes = es at h
  generalize 1 = n
  induction h generalizing n with
  | nil => rfl
  | cons hd _ ih => rw [List.foldl_cons, List.foldl_cons, hd.superclass, hd.interfaces, ih]

theorem isSubtype (h : v.Reordered w) (sub sup : ClassName) :
  v.isSubtype sub sup = w.isSubtype sub sup
  := by
  rw [View.isSubtype, View.isSubtype, h.supertypeBound, funext h.supertypes]

theorem dispatch (h : v.Reordered w) (c : ClassName) (m : MethodSig) :
  v.dispatch c m = w.dispatch c m
  := by
  have hlength : v.classes.length = w.classes.length := h.length_eq
  rw [View.dispatch, View.dispatch, hlength]
  generalize w.classes.length = fuel
  induction fuel generalizing c with
  | zero => rfl
  | succ fuel ih =>
      rw [dispatchWithin, dispatchWithin]
      rcases h.class? c with ⟨hv, hw⟩ | ⟨d, e, hv, hw, hd⟩
      · rw [hv, hw]
      · rw [hv, hw]
        simp only [hd.methodBySubSignature? m, hd.superclass, hd.name, h.contains, ih]

theorem resolve (h : v.Reordered w) (i : Invoke) :
  v.resolve i = w.resolve i
  := by
  have hreceivers : v.receivers i = w.receivers i := by
    simp only [receivers, properSubtypes, h.names, h.isSubtype]
  rw [View.resolve, View.resolve, h.contains, hreceivers, funext fun c => h.dispatch c i.method]

theorem targets (h : v.Reordered w) (skip : Invoke → Bool) (i : Invoke) :
  v.targets skip i = w.targets skip i
  := by
  rw [View.targets, View.targets, h.resolve, funext h.hasBody]

theorem callSitesOf (h : v.Reordered w) (skip : Invoke → Bool) (m : MethodSig) (b : Body) :
  v.callSitesOf skip m b = w.callSitesOf skip m b
  := by
  simp only [View.callSitesOf, h.targets]

theorem callSites (h : v.Reordered w) (skip : Invoke → Bool) (m : MethodSig) :
  v.callSites skip m = w.callSites skip m
  := by
  simp only [View.callSites, h.body?, h.callSitesOf]

theorem calledMethods (h : v.Reordered w) (skip : Invoke → Bool) (m : MethodSig) :
  v.calledMethods skip m = w.calledMethods skip m
  := by
  simp only [View.calledMethods, h.body?, h.targets]

theorem reachableMethods (h : v.Reordered w) (skip : Invoke → Bool) (entries : List MethodSig) :
  v.reachableMethods skip entries = w.reachableMethods skip entries
  := by
  rw [View.reachableMethods, View.reachableMethods, h.methods.length_eq,
    funext (h.calledMethods skip)]

end Reordered

end View

/-! ### Graphs -/

/-- The graph with another view. -/
def Supergraph.withView (g : Supergraph) (w : View) : Supergraph := { g with view := w }

/-- The supergraphs of the views are the same but for the view. -/
theorem Supergraph.build_of_reordered {v w : View} (h : v.Reordered w) (entries : List MethodSig)
    (skip : Invoke → Bool) :
  build w entries skip = (build v entries skip).map (fun g => g.withView w)
  := by
  have hbodies : (fun m => !w.hasBody m) = fun m => !v.hasBody m := by
    funext m
    rw [h.hasBody]
  rw [build, build, hbodies, ← h.reachableMethods, ← funext (h.callSites skip)]
  split
  · rfl
  · dsimp only
    cases (v.reachableMethods skip entries).mapM (v.callSites skip) <;> rfl

namespace CallGraph

variable {v w : View} {skip : Invoke → Bool}

/-- A method calls those that it is a caller of. -/
theorem mem_callers_iff_mem_callees {g : CallGraph} {m callee : MethodSig} :
  m ∈ g.callers callee ↔ callee ∈ g.callees m
  := by
  simp only [callers, callees, callSites, List.mem_eraseDups, List.mem_map, List.mem_filter,
    decide_eq_true_eq]
  constructor
  · rintro ⟨_, ⟨e, ⟨he, hcallee⟩, rfl⟩, hm⟩
    exact ⟨e, ⟨he, hm⟩, hcallee⟩
  · rintro ⟨e, ⟨he, hm⟩, hcallee⟩
    exact ⟨_, ⟨e, ⟨he, hcallee⟩, rfl⟩, hm⟩

/-- A call graph can be built if the invocations of all methods can be resolved. -/
theorem exists_build_iff :
  (∃ g, build v skip = .ok g) ↔ ∀ m ∈ v.methods, ∃ row, rowOf v skip m = .ok row
  := by
  rw [← exists_mapM_eq_ok]
  constructor
  · rintro ⟨g, hg⟩
    obtain ⟨rows, hrows, _⟩ := build_eq_ok hg
    exact ⟨rows, hrows⟩
  · rintro ⟨rows, hrows⟩
    rw [build, hrows]
    exact ⟨_, rfl⟩

/-- The call graphs of the views have the same calls. -/
theorem build_of_reordered (h : v.Reordered w) (hv : v.IsRegular) (hw : w.IsRegular) :
  Parallel (fun g g' => ∀ m callee, m ∈ g.callers callee ↔ m ∈ g'.callers callee)
    (build v skip) (build w skip)
  := by
  have hrows : (∃ g, build v skip = .ok g) ↔ ∃ g, build w skip = .ok g := by
    have hrow : rowOf v skip = rowOf w skip := by
      funext m
      simp only [rowOf, h.callSitesOf]
    rw [exists_build_iff, exists_build_iff, hrow]
    exact forall_congr' fun m => imp_congr_left h.methods.mem_iff
  cases hbuild : build v skip with
  | ok g =>
      obtain ⟨g', hbuild'⟩ := hrows.1 ⟨g, hbuild⟩
      rw [hbuild']
      apply Parallel.ok
      intro m callee
      rw [mem_callers_iff_mem_callees, mem_callers_iff_mem_callees, mem_callees hv hbuild,
        mem_callees hw hbuild', h.calledMethods]
  | error e =>
      cases hbuild' : build w skip with
      | ok g' =>
          obtain ⟨g, hg⟩ := hrows.2 ⟨g', hbuild'⟩
          rw [hbuild] at hg
          cases hg
      | error e' => apply Parallel.error

end CallGraph

/-! ### Programs -/

namespace ClassPool

variable {p q : ClassPool} {c : ClassName} {d e : ClassDecl}

/-- The programs have the same classes up to the order of their methods. -/
structure Reordered (p q : ClassPool) : Prop where
  load : ∀ c, Parallel ClassDecl.Reordered (p.load c) (q.load c)
  contains : ∀ c, p.contains c = q.contains c

/-- The programs differ in one class. -/
theorem reordered_of_load (hp : p.load c = .ok d) (hq : q.load c = .ok e) (hd : d.Reordered e)
    (hrest : ∀ n, n ≠ c → q.load n = p.load n) :
  p.Reordered q
  := by
  constructor
  · intro n
    by_cases hn : n = c
    · rw [hn, hp, hq]
      exact .ok hd
    · rw [hrest n hn]
      cases p.load n with
      | ok d => exact .ok (.refl d)
      | error e => exact .error e e
  · intro n
    apply Bool.eq_iff_iff.2
    rw [contains_iff_load, contains_iff_load]
    by_cases hn : n = c
    · simp [hn, hp, hq]
    · rw [hrest n hn]

theorem Reordered.view (h : p.Reordered q) (names : List ClassName) :
  Parallel View.Reordered (p.view names) (q.view names)
  := by
  have hloads : Parallel (List.Forall₂ ClassDecl.Reordered) (names.mapM p.load)
      (names.mapM q.load) := by
    induction names with
    | nil => exact .ok .nil
    | cons c names ih =>
        rw [List.mapM_cons, List.mapM_cons]
        apply (h.load c).bind
        intro d e hd
        apply ih.bind
        intro ds es hds
        exact .ok (.cons hd hds)
  apply hloads.map
  intro ds es
  apply View.reordered_ofList

end ClassPool

end ServiceFlow
