import ServiceFlow.Proofs.Program.Forwarding

/-!
# Classes that are made by their outer class

An inner class may keep a class that its constructor takes in a field, and load it later.  Its outer
class has any number of methods that each make one object of the inner class, with a literal of
their own.  Seen together with its outer class, the inner class is entered through its constructor
only; seen alone, it is entered from nowhere.
-/

namespace ServiceFlow

/-- An outer class with a method for each name, and the inner class that these methods make objects
of. -/
structure Nesting where
  outer : ClassName
  inner : ClassName
  names : List String
  distinct : outer ≠ inner
  plain : inner.isBuilder = false

namespace Nesting

open Passer (param)

variable (x : Nesting)

/-! ### The two classes -/

def this : Local := ⟨"this", .object x.inner⟩

/-- The field that keeps the class. -/
def field : FieldSig := ⟨x.inner, "svc", .cls⟩

def init : MethodSig := ⟨x.inner, "<init>", [.cls], .void⟩

def initBody : Body where
  locals := [x.this, param]
  stmts := [.identity x.this .this, .identity param (.parameter 0),
    .assign (.instanceField x.this x.field) (.operand (.var param)), .retVoid]

/-- The local of the class that is loaded. -/
def cls : Local := ⟨"c", .cls⟩

def start : MethodSig := ⟨x.inner, "start", [], .void⟩

def startBody : Body where
  locals := [x.this, cls]
  stmts := [.identity x.this .this, .assign (.var cls) (.instanceField x.this x.field),
    .invoke (loadOf cls), .retVoid]

/-- The statement that loads the class. -/
def loadSite : LoadSite := ⟨⟨x.start, 2⟩, cls⟩

def innerDecl : ClassDecl :=
  ⟨x.inner, none, [], some x.outer,
    [⟨x.init, false, some x.initBody⟩, ⟨x.start, false, some x.startBody⟩]⟩

/-- The local of the object that is made. -/
def object : Local := ⟨"i", .object x.inner⟩

def construct (name : String) : Invoke :=
  ⟨.special, x.init, some x.object, [.const (.cls name)]⟩

def setup (i : Nat) : MethodSig := ⟨x.outer, numbered "setup" i, [], .void⟩

def setupBody (name : String) : Body where
  locals := [x.object]
  stmts := [.assign (.var x.object) (.new x.inner), .invoke (x.construct name), .retVoid]

def setupMethod (name : String) (i : Nat) : Method := ⟨x.setup i, true, some (x.setupBody name)⟩

def outerDecl : ClassDecl :=
  ⟨x.outer, none, [], none, x.names.zipIdx.map (fun e => x.setupMethod e.1 e.2)⟩

/-- The statement that calls the constructor. -/
def site (i : Nat) : StmtId := ⟨x.setup i, 1⟩

/-- The inner class alone. -/
def alone : View := .ofList [x.innerDecl]

/-- Both classes. -/
def both : View := .ofList [x.outerDecl, x.innerDecl]

/-! ### Methods and bodies -/

theorem setup_injective :
  Function.Injective x.setup
  := by
  intro i j h
  apply numbered_injective "setup"
  simpa [setup] using h

theorem setup_ne_of_owner {m : MethodSig} (h : m.owner = x.inner) (i : Nat) :
  x.setup i ≠ m
  := by
  rintro rfl
  apply x.distinct h

theorem mem_setups {m : Method} :
  m ∈ x.outerDecl.methods ↔ ∃ name i, x.names[i]? = some name ∧ m = x.setupMethod name i
  := by
  simp [outerDecl, List.mem_zipIdx_iff_getElem?, eq_comm]

theorem classes_both :
  x.both.classes = [x.outerDecl, x.innerDecl]
  := by
  have hname : x.innerDecl.name ≠ x.outerDecl.name := x.distinct.symm
  simp [both, View.ofList, View.firstOfName, hname]

theorem methods_both :
  x.both.methods = x.outerDecl.methods ++ x.innerDecl.methods
  := by
  rw [View.methods, classes_both]
  simp

theorem methods_alone :
  x.alone.methods = x.innerDecl.methods
  := rfl

theorem nodup_inner :
  (x.innerDecl.methods.map Method.signature).Nodup
  := by
  simp [innerDecl, init, start]

theorem nodup_setups :
  (x.outerDecl.methods.map Method.signature).Nodup
  := by
  have hsignatures : x.outerDecl.methods.map Method.signature =
      (x.names.zipIdx.map Prod.snd).map x.setup := by
    rw [outerDecl, List.map_map, List.map_map]
    rfl
  rw [hsignatures]
  apply (List.nodup_zipIdx_map_snd x.names).map x.setup_injective

theorem owner_inner {m : Method} (h : m ∈ x.innerDecl.methods) :
  m.signature.owner = x.inner
  := by
  simp only [innerDecl, List.mem_cons, List.not_mem_nil, or_false] at h
  rcases h with rfl | rfl <;> rfl

theorem owner_setups {m : Method} (h : m ∈ x.outerDecl.methods) :
  m.signature.owner = x.outer
  := by
  obtain ⟨name, i, _, rfl⟩ := x.mem_setups.1 h
  rfl

theorem isRegular_alone :
  x.alone.IsRegular
  := by
  constructor
  · intro d hd m hm
    obtain rfl := List.mem_singleton.1 hd
    apply x.owner_inner hm
  · apply x.nodup_inner

theorem isRegular_both :
  x.both.IsRegular
  := by
  constructor
  · intro d hd m hm
    rw [classes_both, List.mem_cons, List.mem_singleton] at hd
    rcases hd with rfl | rfl
    · apply x.owner_setups hm
    · apply x.owner_inner hm
  · rw [methods_both, List.map_append]
    apply List.nodup_append.2
    refine ⟨x.nodup_setups, x.nodup_inner, ?_⟩
    rintro a ha b hb rfl
    obtain ⟨m, hm, rfl⟩ := List.mem_map.1 ha
    obtain ⟨n, hn, hsignature⟩ := List.mem_map.1 hb
    apply x.distinct
    rw [← x.owner_setups hm, ← hsignature, x.owner_inner hn]

theorem body?_start :
  x.alone.body? x.start = some x.startBody
  := x.isRegular_alone.body? (d := ⟨x.start, false, some x.startBody⟩)
    (by simp [methods_alone, innerDecl])

theorem body?_init :
  x.both.body? x.init = some x.initBody
  := x.isRegular_both.body? (d := ⟨x.init, false, some x.initBody⟩)
    (by simp [methods_both, innerDecl])

variable {x}

theorem body?_setup {name : String} {i : Nat} (h : x.names[i]? = some name) :
  x.both.body? (x.setup i) = some (x.setupBody name)
  := by
  apply x.isRegular_both.body? (d := x.setupMethod name i)
  rw [methods_both]
  apply List.mem_append_left
  apply x.mem_setups.2 ⟨name, i, h, rfl⟩

theorem mem_inner_of_body? {m : MethodSig} {b : Body} (h : x.alone.body? m = some b) :
  (m = x.init ∧ b = x.initBody) ∨ (m = x.start ∧ b = x.startBody)
  := by
  obtain ⟨d, hd, rfl, hb⟩ := View.exists_method_of_body? h
  simp only [methods_alone, innerDecl, List.mem_cons, List.not_mem_nil, or_false] at hd
  rcases hd with rfl | rfl
  · exact .inl ⟨rfl, (Option.some.inj hb).symm⟩
  · exact .inr ⟨rfl, (Option.some.inj hb).symm⟩

theorem exists_of_body? {m : MethodSig} {b : Body} (h : x.both.body? m = some b) :
  (∃ name i, x.names[i]? = some name ∧ m = x.setup i ∧ b = x.setupBody name) ∨
    (m = x.init ∧ b = x.initBody) ∨ (m = x.start ∧ b = x.startBody)
  := by
  obtain ⟨d, hd, rfl, hb⟩ := View.exists_method_of_body? h
  rw [methods_both, List.mem_append] at hd
  rcases hd with hd | hd
  · obtain ⟨name, i, hname, rfl⟩ := x.mem_setups.1 hd
    exact .inl ⟨name, i, hname, rfl, (Option.some.inj hb).symm⟩
  · simp only [innerDecl, List.mem_cons, List.not_mem_nil, or_false] at hd
    rcases hd with rfl | rfl
    · exact .inr (.inl ⟨rfl, (Option.some.inj hb).symm⟩)
    · exact .inr (.inr ⟨rfl, (Option.some.inj hb).symm⟩)

/-! ### Calls -/

/-- The constructor is followed. -/
theorem skips_construct (x : Nesting) (name : String) :
  skips (x.construct name) = false
  := by
  have hplain := x.plain
  have hlibrary : LibraryCall.ofInvoke? (x.construct name) = none := by
    simp only [LibraryCall.ofInvoke?, construct, init, hplain]
    split
    · rfl
    · simp
  change ((LibraryCall.ofInvoke? (x.construct name)).isSome || _) = _
  rw [hlibrary]
  rfl

theorem resolve_construct (x : Nesting) (name : String) :
  x.both.resolve (x.construct name) = .ok [x.init]
  := by
  have hclass : x.both.class? x.inner = some x.innerDecl := by
    apply View.class?_eq_some_iff.2
    simp [classes_both, innerDecl]
  have hdeclared : x.both.declared? x.init x.inner = some ⟨x.init, false, some x.initBody⟩ := by
    rw [View.declared?, hclass, Option.bind_some]
    simp [ClassDecl.methodBySubSignature?, innerDecl, MethodSig.sameSubSignature]
  have hdispatch : x.both.dispatch x.inner x.init = .ok (some x.init) := by
    rw [View.dispatch, classes_both]
    apply View.dispatchWithin_of_declared? hdeclared 1
  rw [View.resolve_of_not_overridable]
  · change (x.both.dispatch x.inner x.init).map _ = _
    rw [hdispatch]
    rfl
  · intro hkind
    cases hkind
  · change (x.both.class? x.inner).isSome
    rw [hclass]
    rfl
  · rfl

/-- The invocations of the two classes. -/
theorem invokeAt?_eq_some {s : StmtId} {i : Invoke} (h : x.both.invokeAt? s = some i) :
  (∃ name k, x.names[k]? = some name ∧ s = x.site k ∧ i = x.construct name) ∨ i = loadOf cls
  := by
  obtain ⟨stmt, hstmt, hi⟩ := Option.bind_eq_some_iff.1 h
  obtain ⟨b, hb, hoffset⟩ := View.stmt?_eq_some hstmt
  obtain ⟨m, offset⟩ := s
  rcases exists_of_body? hb with ⟨name, k, hname, rfl, rfl⟩ | ⟨_, rfl⟩ | ⟨_, rfl⟩
  · match offset, hoffset with
    | 0, hoffset =>
        obtain rfl := Option.some.inj hoffset
        cases hi
    | 1, hoffset =>
        obtain rfl := Option.some.inj hoffset
        exact .inl ⟨name, k, hname, rfl, (Option.some.inj hi).symm⟩
    | 2, hoffset =>
        obtain rfl := Option.some.inj hoffset
        cases hi
  · have hmem := List.mem_of_getElem? hoffset
    simp only [initBody, List.mem_cons, List.not_mem_nil, or_false] at hmem
    rcases hmem with rfl | rfl | rfl | rfl <;> cases hi
  · have hmem := List.mem_of_getElem? hoffset
    simp only [startBody, List.mem_cons, List.not_mem_nil, or_false] at hmem
    rcases hmem with rfl | rfl | rfl | rfl
    · cases hi
    · cases hi
    · exact .inr (Option.some.inj hi).symm
    · cases hi

theorem stmt?_site {name : String} {i : Nat} (h : x.names[i]? = some name) :
  x.both.stmt? (x.site i) = some (.invoke (x.construct name))
  := by
  rw [View.stmt?, site, body?_setup h]
  rfl

/-- From a method of the outer class only the method itself and the constructor are reached. -/
theorem eq_of_reached {i : Nat} {m : MethodSig} (h : x.both.Reached skips [x.setup i] m) :
  m = x.setup i ∨ m = x.init
  := by
  cases h with
  | entry hentry => exact .inl (List.mem_singleton.1 hentry)
  | @call s invoke ts _ _ hinvoke hskip hts ht _ =>
      rcases invokeAt?_eq_some hinvoke with ⟨name, k, _, _, rfl⟩ | rfl
      · rw [resolve_construct] at hts
        rw [← Except.ok.inj hts] at ht
        exact .inr (List.mem_singleton.1 ht)
      · rw [skips_loadOf] at hskip
        cases hskip

/-- The calls of a supergraph from a method of the outer class. -/
theorem eq_of_mem_callees {g : Supergraph} {i : Nat}
    (hg : Supergraph.build x.both [x.setup i] skips = .ok g) {s : StmtId} {callee : MethodSig}
    (h : callee ∈ g.callees s) :
  s = x.site i ∧ callee = x.init
  := by
  obtain ⟨invoke, ts, hs, hts, ht, _⟩ := Supergraph.exists_follows_of_mem_callees hg h
  rcases invokeAt?_eq_some hs.invoke with ⟨name', k, _, rfl, rfl⟩ | rfl
  · rw [resolve_construct] at hts
    rw [← Except.ok.inj hts] at ht
    rcases eq_of_reached hs.reached with heq | heq
    · exact ⟨congrArg _ (x.setup_injective heq), List.mem_singleton.1 ht⟩
    · exact absurd heq (x.setup_ne_of_owner rfl k)
  · have hskip := hs.followed
    rw [skips_loadOf] at hskip
    cases hskip

theorem callees_site {g : Supergraph} {i : Nat} {name : String} (hname : x.names[i]? = some name)
    (hg : Supergraph.build x.both [x.setup i] skips = .ok g) :
  g.callees (x.site i) = [x.init]
  := by
  have hinvoke : x.both.invokeAt? (x.site i) = some (x.construct name) := by
    rw [View.invokeAt?, stmt?_site hname]
    rfl
  have hbody : x.both.hasBody x.init := by
    rw [View.hasBody, body?_init]
    rfl
  obtain ⟨ts, hts, hcallees⟩ := Supergraph.callees_of_follows hg
    ⟨.entry List.mem_cons_self, hinvoke, x.skips_construct name⟩
  rw [resolve_construct] at hts
  rw [hcallees, ← Except.ok.inj hts]
  simp [hbody]

theorem exists_supergraph {i : Nat} {name : String} (hname : x.names[i]? = some name) :
  ∃ g, Supergraph.build x.both [x.setup i] skips = .ok g
  := by
  have hbody : ∀ m ∈ [x.setup i], x.both.hasBody m := by
    simp [View.hasBody, body?_setup hname]
  apply Supergraph.exists_build hbody
  intro s invoke hs
  rcases invokeAt?_eq_some hs.invoke with ⟨_, _, _, _, rfl⟩ | rfl
  · exact ⟨_, resolve_construct _ _⟩
  · have hskip := hs.followed
    rw [skips_loadOf] at hskip
    cases hskip

end Nesting

end ServiceFlow
