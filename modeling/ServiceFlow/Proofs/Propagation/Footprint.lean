import ServiceFlow.Proofs.Propagation.Unfollowed

/-!
# What statements and returns leave untouched

A statement touches what it names and nothing else: the place it assigns, the builder it writes to,
and the objects it hands to a method that is not followed.  A return touches the locals that the
call handed over and the place of the result.  All else is what it was: after a statement what it
was before, and behind a call what the caller knew of its locals and what was known at the exit of
the static fields, even if a method has called itself.
-/

namespace ServiceFlow

/-! ### Stores that agree -/

namespace Store

/-- The stores agree outside of the touched locations. -/
def AgreeOutside (touched : Location → Prop) (s t : Store) : Prop :=
  ∀ x, ¬touched x → t.get x = s.get x

namespace AgreeOutside

variable {touched touched' : Location → Prop} {s t u : Store}

theorem refl (s : Store) :
  AgreeOutside touched s s
  := fun _ _ => rfl

theorem trans (hst : AgreeOutside touched s t) (htu : AgreeOutside touched t u) :
  AgreeOutside touched s u
  := by
  intro x hx
  rw [htu x hx, hst x hx]

theorem mono (h : AgreeOutside touched s t) (hle : ∀ x, touched x → touched' x) :
  AgreeOutside touched' s t
  := by
  intro x hx
  apply h x
  intro htouched
  apply hx (hle x htouched)

theorem set {x : Location} (hx : touched x) (v : Value) (s : Store) :
  AgreeOutside touched s (s.set x v)
  := by
  intro y hy
  have hne : y ≠ x := by
    rintro rfl
    apply hy hx
  rw [get_set, if_neg hne]

theorem foldl {α : Type} {f : Store → α → Store} {as : List α}
    (hf : ∀ t, ∀ a ∈ as, AgreeOutside touched t (f t a)) (s : Store) :
  AgreeOutside touched s (as.foldl f s)
  := List.foldlRecOn (motive := AgreeOutside touched s) as f (refl s)
    fun t ht a ha => ht.trans (hf t a ha)

end AgreeOutside

end Store

/-! ### Places -/

/-- The location that a write to the place may change.  A field is written to a known object
only. -/
inductive Place.Touches (m : MethodSig) (s : Store) : Place → Location → Prop where
  | var (l : Local) : Touches m s (.var l) (.var m l)
  | static (f : FieldSig) : Touches m s (.staticField f) (.static f)
  | base {base : Local} (f : FieldSig) (hobject : (s.getVar m base).isObject) :
      Touches m s (.instanceField base f) (.var m base)

/-- More known objects are touched at more places. -/
theorem Place.Touches.mono {m : MethodSig} {s t : Store} {place : Place} {x : Location}
    (h : place.Touches m t x)
    (hobject : ∀ l, (t.getVar m l).isObject → (s.getVar m l).isObject) :
  place.Touches m s x
  := by
  cases h with
  | var l => apply Touches.var
  | static f => apply Touches.static
  | base f hbase => apply Touches.base f (hobject _ hbase)

theorem Place.agreeOutside_write (place : Place) (m : MethodSig) (value : Value) (s : Store) :
  Store.AgreeOutside (place.Touches m s) s (place.write m value s)
  := by
  cases place with
  | var l => apply Store.AgreeOutside.set (.var l)
  | staticField f => apply Store.AgreeOutside.set (.static f)
  | instanceField base f =>
      rw [write]
      split
      · next hobject => apply Store.AgreeOutside.set (.base f hobject)
      · apply Store.AgreeOutside.refl
  | arrayElement base => apply Store.AgreeOutside.refl

/-! ### Invocations -/

/-- The locals that an invocation may change if it is not followed: the builder that a library call
constructs or appends to, and the builders and known objects handed to any other method. -/
inductive Invoke.Touches (m : MethodSig) (s : Store) (i : Invoke) : Location → Prop where
  | receiver {l : Local} (hreceiver : i.receiver = some l)
      (hop : LibraryCall.ofInvoke? i = some .builderInit ∨
        LibraryCall.ofInvoke? i = some .builderAppend) :
      Touches m s i (.var m l)
  | argument {l : Local} (harg : .var l ∈ i.args)
      (hchanges : l.isBuilder ∨ (s.getVar m l).isObject)
      (hop : LibraryCall.ofInvoke? i = none) :
      Touches m s i (.var m l)

namespace Value

@[simp] theorem isObject_onlyString (v : Value) :
  v.onlyString.isObject = false
  := by
  cases v <;> rfl

@[simp] theorem isObject_concat (v w : Value) :
  (v.concat w).isObject = false
  := by
  cases v with
  | str s => cases w <;> rfl
  | _ => rfl

end Value

namespace Invoke

variable {i : Invoke} {m : MethodSig} {s : Store} {l : Local} {v : Value}

/-- Only the construction of a builder and an append write to the receiver, and they write no
object. -/
theorem receiver_of_effect (h : (i.effect m s).receiver = some (l, v)) :
  i.receiver = some l ∧ v.isObject = false ∧
    (LibraryCall.ofInvoke? i = some .builderInit ∨ LibraryCall.ofInvoke? i = some .builderAppend)
  := by
  rw [effect] at h
  split at h
  · cases h
  · cases h
  · cases h
  · cases h
  · next hop =>
    obtain ⟨_, hreceiver, heq⟩ := Option.map_eq_some_iff.1 h
    cases heq
    refine ⟨hreceiver, ?_, .inl hop⟩
    rw [builderContent]
    split
    · rfl
    · split
      · rfl
      · apply Value.isObject_onlyString
  · next hop =>
    obtain ⟨_, hreceiver, heq⟩ := Option.map_eq_some_iff.1 h
    cases heq
    refine ⟨hreceiver, ?_, .inr hop⟩
    apply Value.isObject_concat
  · cases h
  · cases h

/-- A library call writes to its receiver at most. -/
theorem apply_of_library (hop : (LibraryCall.ofInvoke? i).isSome) :
  i.apply m s = (i.effect m s).receiver.elim s (fun r => s.setVar m r.1 r.2)
  := by
  rw [apply, if_pos hop]
  cases (i.effect m s).receiver with
  | none => rfl
  | some r => rfl

/-- Any other call forgets what it is handed. -/
theorem apply_of_unfollowed (hop : LibraryCall.ofInvoke? i = none) :
  i.apply m s = (i.mutableArgs m s).foldl (fun t a => t.setVar m a.2 .unknown) s
  := by
  rw [apply, effect_of_unfollowed hop, hop]
  rfl

theorem agreeOutside_apply (i : Invoke) (m : MethodSig) (s : Store) :
  Store.AgreeOutside (i.Touches m s) s (i.apply m s)
  := by
  by_cases hop : (LibraryCall.ofInvoke? i).isSome
  · rw [apply_of_library hop]
    cases heffect : (i.effect m s).receiver with
    | none => apply Store.AgreeOutside.refl
    | some r =>
        obtain ⟨hreceiver, _, hbuilder⟩ := receiver_of_effect heffect
        apply Store.AgreeOutside.set (.receiver hreceiver hbuilder)
  · rw [Option.not_isSome_iff_eq_none] at hop
    rw [apply_of_unfollowed hop]
    apply Store.AgreeOutside.foldl
    intro t a ha
    obtain ⟨harg, hchanges⟩ := mem_map_snd_mutableArgs.1 (List.mem_map_of_mem ha)
    apply Store.AgreeOutside.set (.argument harg (Bool.or_eq_true_iff.1 hchanges) hop)

/-- A call that is not followed makes no objects. -/
theorem isObject_of_apply (h : ((i.apply m s).getVar m l).isObject) :
  (s.getVar m l).isObject
  := by
  by_cases hop : (LibraryCall.ofInvoke? i).isSome
  · rw [apply_of_library hop] at h
    cases heffect : (i.effect m s).receiver with
    | none =>
        rw [heffect] at h
        apply h
    | some r =>
        obtain ⟨_, hvalue, _⟩ := receiver_of_effect heffect
        rw [heffect, Option.elim_some, Store.getVar_setVar] at h
        split at h
        · rw [hvalue] at h
          cases h
        · apply h
  · rw [Option.not_isSome_iff_eq_none] at hop
    rw [getVar_apply_of_unfollowed hop] at h
    split at h
    · cases h
    · apply h

end Invoke

/-! ### Statements -/

/-- The locations that a statement may change. -/
inductive Stmt.Touches (m : MethodSig) (s : Store) (stmt : Stmt) (x : Location) : Prop where
  | place {place : Place} {e : Expr} (hstmt : stmt = .assign place e) (h : place.Touches m s x)
  | invoke {i : Invoke} (hinvoke : stmt.invoke? = some i) (h : i.Touches m s x)

/-- The statement has no effect on what is known. -/
def Stmt.isInert : Stmt → Bool
  | .identity _ _ => true
  | .assign (.arrayElement _) (.invoke _) => false
  | .assign (.arrayElement _) _ => true
  | .assign _ _ => false
  | .invoke _ => false
  | .ret _ => true
  | .retVoid => true
  | .goto _ => true
  | .branch _ _ => true
  | .switch _ _ _ => true
  | .throw _ => true
  | .nop => true

/-- What an expression changes, and what it makes of the objects that are known. -/
theorem Expr.agreeOutside_apply (place : Place) (e : Expr) (m : MethodSig) (s : Store) :
  Store.AgreeOutside ((Stmt.assign place e).Touches m s) s (e.apply m s) ∧
    ∀ l, ((e.apply m s).getVar m l).isObject → (s.getVar m l).isObject
  := by
  cases e with
  | invoke i =>
      constructor
      · apply (i.agreeOutside_apply m s).mono
        intro x hx
        apply Stmt.Touches.invoke rfl hx
      · intro l
        apply Invoke.isObject_of_apply
  | _ => exact ⟨.refl s, fun _ => id⟩

theorem Stmt.agreeOutside_apply (stmt : Stmt) (v : View) (m : MethodSig) (s : Store) :
  Store.AgreeOutside (stmt.Touches m s) s (stmt.apply v m s)
  := by
  cases stmt with
  | assign place e =>
      obtain ⟨hexpr, hobject⟩ := Expr.agreeOutside_apply place e m s
      apply hexpr.trans
      apply (place.agreeOutside_write m (e.eval v m s) (e.apply m s)).mono
      intro x hx
      apply Touches.place rfl (hx.mono hobject)
  | invoke i =>
      apply (i.agreeOutside_apply m s).mono
      intro x hx
      apply Touches.invoke rfl hx
  | _ => apply Store.AgreeOutside.refl

/-- A statement names no local of another method. -/
theorem Stmt.Touches.method {m n : MethodSig} {s : Store} {stmt : Stmt} {l : Local}
    (h : stmt.Touches m s (.var n l)) :
  n = m
  := by
  cases h with
  | place _ h => cases h <;> rfl
  | invoke _ h => cases h <;> rfl

/-- A statement changes what it touches and nothing else: no local of another method, and nothing
at all if it is inert.  A local or a static field that is assigned takes the value. -/
theorem Stmt.apply_changes_touched (v : View) (m : MethodSig) (s : Store) (stmt : Stmt) :
  (∀ x, (stmt.apply v m s).get x ≠ s.get x → stmt.Touches m s x) ∧
  (∀ n l, n ≠ m → (stmt.apply v m s).getVar n l = s.getVar n l) ∧
  (stmt.isInert → stmt.apply v m s = s) ∧
  (∀ l e, stmt = .assign (.var l) e → (stmt.apply v m s).getVar m l = e.eval v m s) ∧
  (∀ f e, stmt = .assign (.staticField f) e → (stmt.apply v m s).getStatic f = e.eval v m s)
  := by
  have hagree := stmt.agreeOutside_apply v m s
  refine ⟨?_, ?_, ?_, ?_, ?_⟩
  · intro x hchanged
    by_contra hx
    apply hchanged (hagree x hx)
  · intro n l hne
    apply hagree
    intro htouched
    apply hne htouched.method
  · intro hinert
    cases stmt with
    | assign place e =>
        cases place with
        | arrayElement base =>
            cases e with
            | invoke i => cases hinert
            | _ => rfl
        | _ => cases hinert
    | invoke i => cases hinert
    | _ => rfl
  · rintro l e rfl
    simp [apply, Place.write]
  · rintro f e rfl
    simp [apply, Place.write]

namespace LoggedField

/-! An assignment of a field whose value comes from a call outside of the program, which is handed
another object. -/

def owner : ClassName := ⟨"A"⟩
def main : MethodSig := ⟨owner, "main", [], .void⟩
def other : MethodSig := ⟨owner, "other", [], .void⟩
def target : Local := ⟨"a", .object owner⟩
def handed : Local := ⟨"b", .object owner⟩
def name : FieldSig := ⟨owner, "name", .string⟩

def log : Invoke :=
  ⟨.static, ⟨⟨"lib.Log"⟩, "log", [.object .object], .string⟩, none, [.var handed]⟩

def stmt : Stmt := .assign (.instanceField target name) (.invoke log)

def before : Store :=
  ((Store.empty.setVar main target ((Value.fresh owner).withField name (.str "x"))).setVar main
    handed (.fresh owner)).setVar other handed (.str "kept")

/-- The object that is assigned to and the object that is handed over change, the local of the same
name in another method stays, and so does everything if the field is read only to be stored in an
array. -/
theorem changes_target_and_handed :
  let after := stmt.apply (View.ofList []) main before
  let store : Stmt := .assign (.arrayElement target) (.instanceField target name)
  after.get (.var main target) ≠ before.get (.var main target) ∧
  stmt.Touches main before (.var main target) ∧
  after.get (.var main handed) ≠ before.get (.var main handed) ∧
  stmt.Touches main before (.var main handed) ∧
  other ≠ main ∧ after.getVar other handed = .str "kept" ∧
  store.isInert = true ∧ store.apply (View.ofList []) main before = before
  := by
  obtain ⟨htouched, hother, _⟩ := Stmt.apply_changes_touched (View.ofList []) main before stmt
  obtain ⟨_, _, hinert, _⟩ := Stmt.apply_changes_touched (View.ofList []) main before
    (.assign (.arrayElement target) (.instanceField target name))
  have htarget : (stmt.apply (View.ofList []) main before).get (.var main target) ≠
      before.get (.var main target) := by
    decide
  have hhanded : (stmt.apply (View.ofList []) main before).get (.var main handed) ≠
      before.get (.var main handed) := by
    decide
  have hne : other ≠ main := by decide
  use htarget, htouched _ htarget, hhanded, htouched _ hhanded, hne
  constructor
  · rw [hother _ _ hne]
    decide
  · use rfl
    apply hinert rfl

end LoggedField

/-! ### Returns -/

/-- The locals of the caller that a return may change: the receiver, the builders and known objects
among the arguments, and the local that the result is assigned to. -/
inductive Stmt.HandsOver (m : MethodSig) (caller : Store) (stmt : Stmt) (x : Local) : Prop where
  | receiver {i : Invoke} (hinvoke : stmt.invoke? = some i) (hreceiver : i.receiver = some x)
  | argument {i : Invoke} (hinvoke : stmt.invoke? = some i) (harg : .var x ∈ i.args)
      (hchanges : x.isBuilder ∨ (caller.getVar m x).isObject)
  | result (hplace : stmt.changed? = some x)

/-- The locations that a return may change. -/
inductive Stmt.ReturnTouches (m : MethodSig) (caller : Store) (stmt : Stmt) : Location → Prop where
  | var {x : Local} (h : stmt.HandsOver m caller x) : ReturnTouches m caller stmt (.var m x)
  | static {f : FieldSig} {e : Expr} (hstmt : stmt = .assign (.staticField f) e) :
      ReturnTouches m caller stmt (.static f)

namespace Propagation

variable {g : Supergraph} {site : StmtId} {callee : MethodSig} {caller ended : Store} {stmt : Stmt}

theorem agreeOutside_returnObjects (t : Store) :
  Store.AgreeOutside (stmt.ReturnTouches site.method caller) t
    (returnObjects g site callee caller ended stmt t)
  := by
  rw [returnObjects]
  split
  · next i hinvoke =>
    have hthis : Store.AgreeOutside (stmt.ReturnTouches site.method caller) t
        (returnThis site callee ended i (g.view.frame callee) t) := by
      rw [returnThis]
      split
      · next base this hbase _ =>
        dsimp only
        split
        · apply Store.AgreeOutside.set (.var (.receiver hinvoke hbase))
        · apply Store.AgreeOutside.refl
      · apply Store.AgreeOutside.refl
    apply hthis.trans
    apply Store.AgreeOutside.foldl
    intro t a ha
    obtain ⟨harg, hchanges⟩ := Invoke.mem_map_snd_mutableArgs.1 (List.mem_map_of_mem ha)
    split
    · apply Store.AgreeOutside.set
        (.var (.argument hinvoke harg (Bool.or_eq_true_iff.1 hchanges)))
    · apply Store.AgreeOutside.refl
  · apply Store.AgreeOutside.refl

theorem agreeOutside_assignResult (value : Value) (t : Store) :
  Store.AgreeOutside (stmt.ReturnTouches site.method caller) t
    (assignResult site.method value t stmt)
  := by
  cases stmt with
  | assign place e =>
      apply (place.agreeOutside_write site.method value t).mono
      intro x hx
      cases hx with
      | var l => apply Stmt.ReturnTouches.var (.result rfl)
      | static f => apply Stmt.ReturnTouches.static rfl
      | base f _ => apply Stmt.ReturnTouches.var (.result rfl)
  | _ => apply Store.AgreeOutside.refl

/-- What is known behind a call differs from the locals of the caller and the static fields at the
exit only where the return may change it. -/
theorem agreeOutside_returnWith (exit : StmtId) :
  Store.AgreeOutside (stmt.ReturnTouches site.method caller) (resume caller ended)
    (returnWith g site callee exit caller ended stmt)
  := (agreeOutside_returnObjects _).trans (agreeOutside_assignResult _ _)

/-- Behind a call the caller knows what it knew of its locals, except for those that it handed over
and the one that takes the result, and what was known at the exit of the static fields, except for
the one that takes the result.  The locals of all other methods are those of the caller, and so are
those of the called method unless the caller has called itself. -/
theorem ret_restores_caller (entry : MethodSig) (seeds : Store) (callee : MethodSig)
    (exit next : StmtId) (caller ended : Store) (hstmt : g.view.stmt? site = some stmt) :
  ∃ t, (problem g entry seeds).ret site callee exit next caller ended = [t] ∧
    (∀ x, ¬stmt.HandsOver site.method caller x →
      t.getVar site.method x = caller.getVar site.method x) ∧
    (∀ f, (∀ e, stmt ≠ .assign (.staticField f) e) → t.getStatic f = ended.getStatic f) ∧
    (∀ n x, n ≠ site.method → t.getVar n x = caller.getVar n x) ∧
    (∀ l e, stmt = .assign (.var l) e →
      t.getVar site.method l = returned g callee exit ended) ∧
    (∀ f e, stmt = .assign (.staticField f) e → t.getStatic f = returned g callee exit ended)
  := by
  have hagree : Store.AgreeOutside (stmt.ReturnTouches site.method caller) (resume caller ended)
      (returnWith g site callee exit caller ended stmt) := agreeOutside_returnWith exit
  refine ⟨_, ret_eq_singleton hstmt, ?_, ?_, ?_, ?_, ?_⟩
  · intro x hx
    apply Eq.trans (hagree (.var site.method x) _) (getVar_resume caller ended site.method x)
    intro htouched
    cases htouched with
    | var h => apply hx h
  · intro f hf
    apply Eq.trans (hagree (.static f) _) (getStatic_resume caller ended f)
    intro htouched
    cases htouched with
    | static h => apply hf _ h
  · intro n x hne
    apply Eq.trans (hagree (.var n x) _) (getVar_resume caller ended n x)
    intro htouched
    cases htouched with
    | var h => apply hne rfl
  · rintro l e rfl
    simp [returnWith, assignResult, Place.write]
  · rintro f e rfl
    simp [returnWith, assignResult, Place.write]

end Propagation

namespace SelfCall

/-! A method that calls itself: caller and called method keep their locals under the same names. -/

def owner : ClassName := ⟨"A"⟩
def walk : MethodSig := ⟨owner, "walk", [.string], .string⟩
def param : Local := ⟨"p", .string⟩
def result : Local := ⟨"r", .string⟩
def last : FieldSig := ⟨owner, "last", .string⟩

def call : Invoke := ⟨.static, walk, none, [.var param]⟩

def body : Body := ⟨[param, result], [
  .identity param (.parameter 0),
  .assign (.var result) (.invoke call),
  .ret (.var param)]⟩

def graph : Supergraph :=
  ⟨.ofList [⟨owner, none, [], none, [⟨walk, true, some body⟩]⟩], [walk], [⟨⟨walk, 1⟩, [walk]⟩]⟩

/-- What is known in an activation, by its parameter and the static field. -/
def inside (v w : Value) : Store := (Store.empty.setVar walk param v).setStatic last w

/-- The parameter of the outer activation is back, the static field is that of the inner one, and so
is the result. -/
theorem outer_parameter_restored :
  graph.view.stmt? ⟨walk, 1⟩ = some (.assign (.var result) (.invoke call)) ∧
  ∃ t, (Propagation.problem graph walk .empty).ret ⟨walk, 1⟩ walk ⟨walk, 2⟩ ⟨walk, 2⟩
      (inside (.str "outer") (.str "old")) (inside (.str "inner") (.str "new")) = [t] ∧
    t.getVar walk param = .str "outer" ∧ t.getStatic last = .str "new" ∧
    t.getVar walk result = .str "inner"
  := by
  have hstmt : graph.view.stmt? ⟨walk, 1⟩ = some (.assign (.var result) (.invoke call)) := rfl
  use hstmt
  obtain ⟨t, ht, hlocals, hstatics, _, hresult, _⟩ :=
    Propagation.ret_restores_caller walk .empty walk ⟨walk, 2⟩ ⟨walk, 2⟩
      (inside (.str "outer") (.str "old")) (inside (.str "inner") (.str "new")) hstmt
  have hparam : ¬Stmt.HandsOver walk (inside (.str "outer") (.str "old"))
      (.assign (.var result) (.invoke call)) param := by
    intro h
    cases h with
    | receiver hinvoke hreceiver =>
        cases hinvoke
        cases hreceiver
    | argument hinvoke harg hchanges =>
        revert hchanges
        decide
    | result hplace =>
        revert hplace
        decide
  have hlast : ∀ e, Stmt.assign (.var result) (.invoke call) ≠ .assign (.staticField last) e := by
    intro e heq
    cases heq
  use t, ht
  rw [hlocals param hparam, hstatics last hlast, hresult result _ rfl]
  decide

end SelfCall

end ServiceFlow
