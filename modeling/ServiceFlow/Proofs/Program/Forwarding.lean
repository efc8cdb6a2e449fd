import ServiceFlow.Proofs.Program.CallGraph
import ServiceFlow.Proofs.Program.Dispatch
import ServiceFlow.Proofs.Program.Hierarchy
import ServiceFlow.Proofs.Program.LoadSite
import ServiceFlow.Proofs.Program.Reachability

/-!
# Classes that forward

The methods of a class may do nothing but hand a class from one to the next, until the last one
loads it.  A method hands on a literal, or what it takes as its only parameter.  In such a class
every call enters the method that it names: the supergraphs and the call graph are known.
-/

namespace ServiceFlow

/-- A method that hands a class on. -/
structure Passer where
  name : String
  /-- The literal that is handed on; without one the method takes a class. -/
  literal : Option String
  /-- The method of the same class that is called; without one the class is loaded. -/
  goal : Option String
deriving DecidableEq, Inhabited

namespace Passer

/-- The parameter of a method that takes a class. -/
def param : Local := ⟨"p0", .cls⟩

/-- The signature of a method that takes a class. -/
def taking (owner : ClassName) (name : String) : MethodSig := ⟨owner, name, [.cls], .void⟩

variable (owner : ClassName) (p : Passer)

def sig : MethodSig := p.literal.elim (taking owner p.name) (fun _ => ⟨owner, p.name, [], .void⟩)

def operand : Operand := p.literal.elim (.var param) (fun name => .const (.cls name))

def target : MethodSig := p.goal.elim loadMethod (taking owner)

def invoke : Invoke := ⟨.static, p.target owner, none, [p.operand]⟩

/-- The binding of the parameter. -/
def prologue : List Stmt := p.literal.elim [.identity param (.parameter 0)] (fun _ => [])

def body : Body where
  locals := p.literal.elim [param] (fun _ => [])
  stmts := p.prologue ++ [.invoke (p.invoke owner), .retVoid]

def method : Method := ⟨p.sig owner, true, some (p.body owner)⟩

/-- The statement that hands the class on. -/
def site : StmtId := ⟨p.sig owner, p.prologue.length⟩

theorem owner_sig :
  (p.sig owner).owner = owner
  := by
  unfold sig
  cases p.literal <;> rfl

theorem name_sig :
  (p.sig owner).name = p.name
  := by
  unfold sig
  cases p.literal <;> rfl

variable {owner p}

theorem sig_of_taking (h : p.literal = none) :
  p.sig owner = taking owner p.name
  := by
  rw [sig, h]
  rfl

theorem invokes_body (m : MethodSig) :
  (p.body owner).invokes m = [(⟨m, p.prologue.length⟩, p.invoke owner)]
  := by
  cases h : p.literal <;> simp [Body.invokes, body, prologue, h, Stmt.invoke?]

/-- A statement of the body binds the parameter, hands the class on or returns. -/
theorem mem_stmts {stmt : Stmt} (h : stmt ∈ (p.body owner).stmts) :
  stmt = .identity param (.parameter 0) ∨ stmt = .invoke (p.invoke owner) ∨ stmt = .retVoid
  := by
  rw [body, prologue] at h
  cases hl : p.literal <;> simp_all

end Passer

/-- The names that have a meaning of their own in some class. -/
def reservedNames : List String := ["forName", "<init>", "append", "concat", "load", "<clinit>"]

/-- No such name begins with one of these letters. -/
theorem not_mem_reservedNames {name : String} {c : Char} (h : name.toList.head? = some c)
    (hc : c ∈ ['i', 'r', 't', 'u']) :
  name ∉ reservedNames
  := by
  have hheads : reservedNames.map (fun n => n.toList.head?) =
      [some 'f', some '<', some 'a', some 'c', some 'l', some '<'] := rfl
  intro hmem
  have hhead : name.toList.head? ∈ reservedNames.map (fun n => n.toList.head?) :=
    List.mem_map_of_mem hmem
  rw [hheads, h] at hhead
  simp only [List.mem_cons, List.not_mem_nil, or_false, Option.some.injEq] at hhead hc
  rcases hc with rfl | rfl | rfl | rfl
  all_goals simp at hhead

/-- A name with a number behind it. -/
def numbered (name : String) (n : Nat) : String := name ++ toString n

theorem numbered_injective (name : String) :
  Function.Injective (numbered name)
  := by
  intro m n h
  have hdigits := (String.append_right_inj name).1 h
  rw [Nat.toString_eq_ofList_toDigits, Nat.toString_eq_ofList_toDigits,
    String.ofList_inj] at hdigits
  rw [← Nat.ofDigitChars_ten_toDigits (n := m), hdigits, Nat.ofDigitChars_ten_toDigits]

theorem head?_numbered {name : String} {c : Char} (h : name.toList.head? = some c) (n : Nat) :
  (numbered name n).toList.head? = some c
  := by
  rw [numbered, String.toList_append, List.head?_append, h]
  rfl

/-- A class of methods with different names that hand classes to each other.  Only one of them loads
the class, which it takes as its parameter. -/
structure ForwardingClass where
  owner : ClassName
  passers : List Passer
  loader : Passer
  distinct : (passers.map Passer.name).Nodup
  unreserved : ∀ p ∈ passers, p.name ∉ reservedNames
  called : ∀ p ∈ passers, ∀ n, p.goal = some n → ∃ q ∈ passers, q.name = n ∧ q.literal = none
  loads : loader ∈ passers ∧ loader.literal = none ∧ loader.goal = none
  only : ∀ p ∈ passers, p.goal = none → p = loader

namespace ForwardingClass

open Passer

variable (x : ForwardingClass)

def decl : ClassDecl := ⟨x.owner, none, [], none, x.passers.map (Passer.method x.owner)⟩

/-- The view of the class alone. -/
def view : View := .ofList [x.decl]

/-- The statement that loads the class. -/
def loadSite : LoadSite := ⟨x.loader.site x.owner, param⟩

/-! ### Methods and bodies -/

theorem methods_view :
  x.view.methods = x.passers.map (Passer.method x.owner)
  := by
  simp [view, View.methods, View.ofList, View.firstOfName, decl]

variable {x} {p q : Passer}

theorem eq_of_name (hp : p ∈ x.passers) (hq : q ∈ x.passers) (h : p.name = q.name) :
  p = q
  := List.inj_on_of_nodup_map x.distinct hp hq h

theorem eq_of_sig (hp : p ∈ x.passers) (hq : q ∈ x.passers) (h : p.sig x.owner = q.sig x.owner) :
  p = q
  := by
  apply eq_of_name hp hq
  rw [← name_sig x.owner p, h, name_sig]

theorem isStaticInitializer_sig (hp : p ∈ x.passers) :
  (p.sig x.owner).isStaticInitializer = false
  := by
  apply decide_eq_false
  rw [name_sig]
  intro hname
  apply x.unreserved p hp
  simp [hname, reservedNames, MethodSig.staticInitializerName]

theorem nodup_sigs (x : ForwardingClass) :
  (x.passers.map (Passer.sig x.owner)).Nodup
  := by
  apply List.Nodup.of_map MethodSig.name
  rw [List.map_map]
  have hnames : MethodSig.name ∘ Passer.sig x.owner = Passer.name := by
    funext p
    apply name_sig
  rw [hnames]
  apply x.distinct

theorem isRegular_view (x : ForwardingClass) :
  x.view.IsRegular
  := by
  constructor
  · intro d hd m hm
    obtain rfl := List.mem_singleton.1 hd
    obtain ⟨p, _, rfl⟩ := List.mem_map.1 hm
    apply owner_sig
  · rw [methods_view, List.map_map]
    apply x.nodup_sigs

theorem body?_sig (hp : p ∈ x.passers) :
  x.view.body? (p.sig x.owner) = some (p.body x.owner)
  := by
  apply x.isRegular_view.body? (d := p.method x.owner)
  rw [methods_view]
  apply List.mem_map_of_mem hp

theorem exists_of_body? {m : MethodSig} {b : Body} (h : x.view.body? m = some b) :
  ∃ p ∈ x.passers, m = p.sig x.owner ∧ b = p.body x.owner
  := by
  obtain ⟨d, hd, rfl, hb⟩ := View.exists_method_of_body? h
  rw [methods_view] at hd
  obtain ⟨p, hp, rfl⟩ := List.mem_map.1 hd
  use p, hp, rfl, (Option.some.inj hb).symm

theorem invokeAt?_eq_some_iff {s : StmtId} {i : Invoke} :
  x.view.invokeAt? s = some i ↔ ∃ p ∈ x.passers, s = p.site x.owner ∧ i = p.invoke x.owner
  := by
  have hinvokes : ∀ p ∈ x.passers, x.view.invokes (p.sig x.owner) =
      [(p.site x.owner, p.invoke x.owner)] := by
    intro p hp
    rw [View.invokes, body?_sig hp]
    apply invokes_body
  constructor
  · intro h
    obtain ⟨stmt, hstmt, _⟩ := Option.bind_eq_some_iff.1 h
    obtain ⟨b, hb, _⟩ := View.stmt?_eq_some hstmt
    obtain ⟨p, hp, hs, _⟩ := exists_of_body? hb
    have hmem := View.mem_invokes_iff.2 ⟨hs, h⟩
    rw [hinvokes p hp, List.mem_singleton, Prod.mk.injEq] at hmem
    use p
  · rintro ⟨p, hp, rfl, rfl⟩
    have hmem : (p.site x.owner, p.invoke x.owner) ∈ x.view.invokes (p.sig x.owner) := by
      simp [hinvokes p hp]
    apply (View.mem_invokes_iff.1 hmem).2

/-! ### Calls -/

theorem invoke_loader (x : ForwardingClass) :
  x.loader.invoke x.owner = loadOf x.loadSite.cls
  := by
  obtain ⟨_, hliteral, hgoal⟩ := x.loads
  rw [Passer.invoke, target, hgoal, operand, hliteral]
  rfl

/-- No method of the class is called as a library method. -/
theorem ofInvoke?_invoke (hp : p ∈ x.passers) :
  LibraryCall.ofInvoke? (p.invoke x.owner) = none
  := by
  cases h : p.goal with
  | none => simp [LibraryCall.ofInvoke?, Passer.invoke, target, h, loadMethod, ClassName.isBuilder]
  | some n =>
      obtain ⟨q, hq, rfl, _⟩ := x.called p hp n h
      have hname := x.unreserved q hq
      simp only [reservedNames, List.mem_cons, List.not_mem_nil, or_false, not_or] at hname
      simp only [LibraryCall.ofInvoke?, Passer.invoke, target, h, Option.elim_some, taking]
      split
      · split <;> simp_all
      · split
        · split <;> simp_all
        · simp [hname]

/-- Only the load call is not followed. -/
theorem skips_invoke (hp : p ∈ x.passers) :
  skips (p.invoke x.owner) = p.goal.isNone
  := by
  change ((LibraryCall.ofInvoke? (p.invoke x.owner)).isSome || _) = _
  rw [ofInvoke?_invoke hp]
  cases h : p.goal with
  | none =>
      simp [LoadTarget.accepts, Passer.invoke, target, h, loadMethod, Ty.isObject, Ty.cls,
        Ty.className?]
  | some n =>
      obtain ⟨q, hq, rfl, _⟩ := x.called p hp n h
      have hload : q.name ≠ "load" := by
        intro hload
        apply x.unreserved q hq
        simp [hload, reservedNames]
      simp [LoadTarget.accepts, Passer.invoke, target, h, taking, hload]

theorem skips_of_goal (hp : p ∈ x.passers) {n : String} (h : p.goal = some n) :
  skips (p.invoke x.owner) = false
  := by
  rw [skips_invoke hp, h]
  rfl

theorem class?_owner (x : ForwardingClass) :
  x.view.class? x.owner = some x.decl
  := View.class?_eq_some_iff.2 ⟨List.mem_cons_self, rfl⟩

/-- A method is declared under its name. -/
theorem methodBySubSignature?_sig (hq : q ∈ x.passers) :
  x.decl.methodBySubSignature? (q.sig x.owner) = some (q.method x.owner)
  := by
  have hmem : q.method x.owner ∈ x.decl.methods := List.mem_map_of_mem hq
  cases h : x.decl.methodBySubSignature? (q.sig x.owner) with
  | none =>
      have hnone := List.find?_eq_none.1 h _ hmem
      simp [Passer.method, MethodSig.sameSubSignature] at hnone
  | some d =>
      obtain ⟨p, hp, rfl⟩ := List.mem_map.1 (List.mem_of_find?_eq_some h)
      have hsame := List.find?_some h
      simp only [Passer.method, MethodSig.sameSubSignature, name_sig, Bool.and_eq_true,
        decide_eq_true_eq] at hsame
      rw [eq_of_name hp hq hsame.1.1]

theorem resolve_invoke (hp : p ∈ x.passers) {n : String} (h : p.goal = some n) :
  x.view.resolve (p.invoke x.owner) = .ok [taking x.owner n]
  := by
  obtain ⟨q, hq, rfl, hliteral⟩ := x.called p hp n h
  have hmethod : (p.invoke x.owner).method = q.sig x.owner := by
    rw [sig_of_taking hliteral]
    simp [Passer.invoke, target, h]
  have hdeclared : x.view.declared? (q.sig x.owner) x.owner = some (q.method x.owner) := by
    rw [View.declared?, class?_owner, Option.bind_some, methodBySubSignature?_sig hq]
  have hdispatch : x.view.dispatch x.owner (q.sig x.owner) = .ok (some (q.sig x.owner)) :=
    View.dispatchWithin_of_declared? hdeclared 0
  rw [View.resolve_of_not_overridable, hmethod, owner_sig, hdispatch, sig_of_taking hliteral]
  · rfl
  · intro hkind
    cases hkind
  · rw [hmethod, owner_sig, View.contains, class?_owner]
    rfl
  · rfl

/-- A method enters the one that it calls. -/
theorem targets_invoke (hp : p ∈ x.passers) :
  x.view.targets skips (p.invoke x.owner) = .ok (p.goal.toList.map (taking x.owner))
  := by
  cases h : p.goal with
  | none =>
      apply View.targets_of_skipped
      rw [skips_invoke hp, h]
      rfl
  | some n =>
      obtain ⟨q, hq, rfl, hliteral⟩ := x.called p hp n h
      have hbody : x.view.hasBody (taking x.owner q.name) := by
        rw [View.hasBody, ← sig_of_taking hliteral, body?_sig hq]
        rfl
      rw [View.targets_of_followed (skips_of_goal hp h), resolve_invoke hp h]
      simp [Except.map, hbody]

theorem callSites_sig (hp : p ∈ x.passers) :
  x.view.callSites skips (p.sig x.owner) =
    .ok [⟨p.site x.owner, p.goal.toList.map (taking x.owner)⟩]
  := by
  rw [View.callSites, body?_sig hp]
  dsimp only
  rw [View.callSitesOf, invokes_body, List.mapM_cons, targets_invoke hp]
  rfl

/-! ### Graphs -/

/-- There is a supergraph from every method. -/
theorem exists_supergraph (hp : p ∈ x.passers) :
  ∃ g, Supergraph.build x.view [p.sig x.owner] skips = .ok g
  := by
  have hbody : ∀ m ∈ [p.sig x.owner], x.view.hasBody m := by simp [View.hasBody, body?_sig hp]
  apply Supergraph.exists_build hbody
  intro s i hs
  obtain ⟨q, hq, _, rfl⟩ := invokeAt?_eq_some_iff.1 hs.invoke
  cases hgoal : q.goal with
  | none =>
      have hfollowed := hs.followed
      rw [skips_invoke hq, hgoal] at hfollowed
      cases hfollowed
  | some n => exact ⟨_, resolve_invoke hq hgoal⟩

/-- From a reached method the one that it calls is reached. -/
theorem reached_goal {entries : List MethodSig} (hp : p ∈ x.passers) (hq : q ∈ x.passers)
    (hgoal : p.goal = some q.name) (hliteral : q.literal = none)
    (h : x.view.Reached skips entries (p.sig x.owner)) :
  x.view.Reached skips entries (q.sig x.owner)
  := by
  have hsite : x.view.invokeAt? (p.site x.owner) = some (p.invoke x.owner) :=
    invokeAt?_eq_some_iff.2 ⟨p, hp, rfl, rfl⟩
  apply View.Reached.call h hsite (skips_of_goal hp hgoal) (resolve_invoke hp hgoal)
  · rw [sig_of_taking hliteral]
    apply List.mem_cons_self
  · rw [View.hasBody, body?_sig hq]
    rfl

theorem exists_callGraph (x : ForwardingClass) :
  ∃ g, CallGraph.build x.view skips = .ok g
  := by
  have hrows : ∀ d ∈ x.view.methods, ∃ row, CallGraph.rowOf x.view skips d = .ok row := by
    intro d hd
    rw [methods_view] at hd
    obtain ⟨p, hp, rfl⟩ := List.mem_map.1 hd
    have hsites := callSites_sig hp
    rw [View.callSites, body?_sig hp] at hsites
    use some (p.sig x.owner, [⟨p.site x.owner, p.goal.toList.map (taking x.owner)⟩])
    apply congrArg (Except.map (fun sites => some (p.sig x.owner, sites))) hsites
  obtain ⟨rows, hrows⟩ := exists_mapM_eq_ok.2 hrows
  rw [CallGraph.build, hrows]
  exact ⟨_, rfl⟩

/-- The callers of a method are those that name it, in the order of their declaration. -/
theorem callers_eq {g : CallGraph} (hg : CallGraph.build x.view skips = .ok g)
    (hliteral : q.literal = none) :
  g.callers (q.sig x.owner) =
    (x.passers.filter (fun p => p.goal = some q.name)).map (Passer.sig x.owner)
  := by
  have hedges : g.edges = x.passers.flatMap (fun p =>
      p.goal.toList.map (fun n => ⟨p.site x.owner, taking x.owner n⟩)) := by
    rw [CallGraph.edges_build x.isRegular_view hg, methods_view, List.map_map, List.flatMap_map]
    apply List.flatMap_congr
    intro p hp
    change (x.view.sitesOf skips (p.sig x.owner)).flatMap CallSite.edges = _
    rw [View.sitesOf_eq (callSites_sig hp)]
    simp [CallSite.edges, Function.comp_def]
  have hsites : (g.callSites (q.sig x.owner)).map Point.method =
      (x.passers.filter (fun p => p.goal = some q.name)).map (Passer.sig x.owner) := by
    rw [CallGraph.callSites, hedges, sig_of_taking hliteral]
    generalize x.passers = passers
    induction passers with
    | nil => rfl
    | cons p passers ih =>
        rw [List.flatMap_cons, List.filter_append, List.map_append, List.map_append, ih,
          List.filter_cons]
        cases hgoal : p.goal with
        | none => simp
        | some n =>
            by_cases hn : n = q.name
            · simp [hn, taking, Passer.site]
            · simp [hn, taking]
  rw [CallGraph.callers, hsites, eraseDups_of_nodup]
  apply x.nodup_sigs.sublist (List.filter_sublist.map _)

end ForwardingClass

end ServiceFlow
