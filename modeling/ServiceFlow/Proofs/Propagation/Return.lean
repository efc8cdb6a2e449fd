import ServiceFlow.Proofs.Propagation.Simulation

/-!
# What a return hands back

When a called method has ended, the caller takes over the objects that it handed to the method: the
receiver if the method still knows it, and then the arguments, one position after another.  A local
that stands at several positions gets what the last of them hands back, and a receiver that the
method has lost stays what it was at the call.
-/

namespace ServiceFlow

/-! ### Places -/

/-- The local that a write to the place changes: the place itself, or the object of a field. -/
def Place.changed? : Place → Option Local
  | .var l => some l
  | .instanceField base _ => some base
  | _ => none

/-- The local that the assignment of a statement changes. -/
def Stmt.changed? : Stmt → Option Local
  | .assign place _ => place.changed?
  | _ => none

theorem Place.getVar_write_of_ne {place : Place} {x : Local} (h : place.changed? ≠ some x)
    (m : MethodSig) (value : Value) (s : Store) :
  (place.write m value s).getVar m x = s.getVar m x
  := by
  cases place with
  | var l =>
      have hne : x ≠ l := fun heq => h (congrArg some heq.symm)
      simp [write, hne]
  | staticField f => simp [write]
  | instanceField base f =>
      have hne : x ≠ base := fun heq => h (congrArg some heq.symm)
      rw [write]
      split
      · simp [hne]
      · rfl
  | arrayElement base => rfl

/-! ### Formals -/

namespace Frame

/-- The parameters at the argument positions of a local. -/
def paramsOf (f : Frame) (i : Invoke) (x : Local) : List Param :=
  i.args.zipIdx.filterMap (fun a => if a.1 = .var x then (f.params[a.2]?).join else none)

/-- The formal of the receiver, if the local is the receiver. -/
def thisOf? (f : Frame) (i : Invoke) (x : Local) : Option Local :=
  if i.receiver = some x then f.this else none

/-- All formals that are bound to a local. -/
def formalsOf (f : Frame) (i : Invoke) (x : Local) : List Param :=
  (f.thisOf? i x).toList.map (fun this => ⟨this, false⟩) ++ f.paramsOf i x

theorem paramsOf_eq_nil {i : Invoke} {x : Local} (h : .var x ∉ i.args) (f : Frame) :
  f.paramsOf i x = []
  := by
  rw [paramsOf, List.filterMap_eq_nil_iff]
  rintro ⟨o, k⟩ ha
  have hne : o ≠ .var x := fun heq => h (heq ▸ List.fst_mem_of_mem_zipIdx ha)
  rw [if_neg hne]

end Frame

theorem Invoke.eq_var_of_mutable? {m : MethodSig} {s : Store} {o : Operand} {x : Local}
    (h : mutable? m s o = some x) :
  o = .var x
  := by
  cases o with
  | const c => cases h
  | var l =>
      rw [mutable?] at h
      split at h
      · rw [Option.some.inj h]
      · cases h

namespace Propagation

variable {g : Supergraph} {site : StmtId} {callee : MethodSig} {caller ended t : Store} {i : Invoke}
  {f : Frame} {x : Local}

/-- The receiver is taken over if the called method still knows the object. -/
theorem getVar_returnThis :
  (returnThis site callee ended i f t).getVar site.method x =
    (((f.thisOf? i x).map (ended.getVar callee)).filter Value.isObject).getD
      (t.getVar site.method x)
  := by
  rw [returnThis, Frame.thisOf?]
  split
  · next base this hbase hthis =>
    by_cases hx : base = x
    · subst hx
      by_cases hobject : (ended.getVar callee this).isObject
      · simp [hbase, hthis, hobject, Option.filter]
      · simp [hbase, hthis, hobject, Option.filter]
    · by_cases hobject : (ended.getVar callee this).isObject
      · simp [hbase, hx, hobject, Ne.symm hx]
      · simp [hbase, hx, hobject]
  · next hnone =>
    by_cases hx : i.receiver = some x
    · have hthis : f.this = none := by
        rw [Option.eq_none_iff_forall_ne_some]
        intro this
        apply hnone x this hx
      simp [hx, hthis]
    · simp [hx]

theorem returnArgs_eq_foldl :
  returnArgs site callee caller ended i f t =
    (i.mutableArgs site.method caller).foldl (fun t a => ((f.params[a.1]?).join).elim t
      (fun p => t.setVar site.method a.2 (endValue callee ended p))) t
  := by
  rw [returnArgs]
  congr 1
  funext t a
  split
  · next p hp => rw [hp, Option.join_some, Option.elim_some]
  · next hp =>
    have hnone : (f.params[a.1]?).join = none := by
      rw [Option.eq_none_iff_forall_ne_some]
      intro p hjoin
      apply hp p (Option.join_eq_some_iff.1 hjoin)
    rw [hnone, Option.elim_none]

/-- A local that the called method can change gets what its last position hands back. -/
theorem getVar_returnArgs (hx : x.isBuilder || (caller.getVar site.method x).isObject) :
  (returnArgs site callee caller ended i f t).getVar site.method x =
    ((f.paramsOf i x).getLast?.map (endValue callee ended)).getD (t.getVar site.method x)
  := by
  rw [returnArgs_eq_foldl, Invoke.mutableArgs, Frame.paramsOf]
  -- The first position counts only if no later one writes to the local.
  generalize i.args.zipIdx = positions
  induction positions generalizing t with
  | nil => rfl
  | cons a positions ih =>
      obtain ⟨o, k⟩ := a
      rw [List.filterMap_cons, List.filterMap_cons]
      by_cases ho : o = .var x
      · have hmutable : Invoke.mutable? site.method caller o = some x := by
          rw [ho]
          apply if_pos hx
        simp only [hmutable, if_pos ho, Option.map_some, List.foldl_cons]
        rw [ih]
        cases (f.params[k]?).join with
        | none => rfl
        | some p =>
            rw [List.getLast?_cons, Option.elim_some, Store.getVar_setVar, if_pos ⟨rfl, rfl⟩]
            cases (positions.filterMap _).getLast? with
            | none => rfl
            | some q => rfl
      · simp only [if_neg ho]
        cases hmutable : Invoke.mutable? site.method caller o with
        | none => exact ih
        | some y =>
            have hne : x ≠ y := by
              rintro rfl
              apply ho (Invoke.eq_var_of_mutable? hmutable)
            simp only [Option.map_some, List.foldl_cons]
            rw [ih]
            cases (f.params[k]?).join with
            | none => rfl
            | some p => simp [hne]

/-- What a call hands back for a local: the exit value of the last parameter bound to it, or else
the receiver if the called method still knows it. -/
def handedBack? (callee : MethodSig) (ended : Store) (i : Invoke) (f : Frame) (x : Local) :
    Option Value :=
  ((f.paramsOf i x).getLast?.map (endValue callee ended)).or
    (((f.thisOf? i x).map (ended.getVar callee)).filter Value.isObject)

theorem getVar_returnObjects {stmt : Stmt} (hinvoke : stmt.invoke? = some i)
    (hx : x.isBuilder || (caller.getVar site.method x).isObject) :
  (returnObjects g site callee caller ended stmt t).getVar site.method x =
    (handedBack? callee ended i (g.view.frame callee) x).getD (t.getVar site.method x)
  := by
  rw [returnObjects, hinvoke, getVar_returnArgs hx, getVar_returnThis, handedBack?]
  cases ((g.view.frame callee).paramsOf i x).getLast? with
  | none => rfl
  | some p => rfl

theorem getVar_assignResult {stmt : Stmt} {m : MethodSig} {value : Value}
    (h : stmt.changed? ≠ some x) :
  (assignResult m value t stmt).getVar m x = t.getVar m x
  := by
  cases stmt with
  | assign place e => apply Place.getVar_write_of_ne h
  | _ => rfl

/-- Behind a call a local holds what is handed back for it, and else what it held at the call. -/
theorem getVar_returnWith {stmt : Stmt} {exit : StmtId} (hinvoke : stmt.invoke? = some i)
    (hx : x.isBuilder || (caller.getVar site.method x).isObject) (hplace : stmt.changed? ≠ some x) :
  (returnWith g site callee exit caller ended stmt).getVar site.method x =
    (handedBack? callee ended i (g.view.frame callee) x).getD (caller.getVar site.method x)
  := by
  rw [returnWith, getVar_assignResult hplace, getVar_returnObjects hinvoke hx, getVar_resume]

theorem ret_eq_singleton {stmt : Stmt} {entry : MethodSig} {seeds : Store} {exit next : StmtId}
    (hstmt : g.view.stmt? site = some stmt) :
  (problem g entry seeds).ret site callee exit next caller ended =
    [returnWith g site callee exit caller ended stmt]
  := by
  simp only [problem, hstmt, Option.map_some, Option.toList_some]

/-! ### Receivers -/

/-- Behind a call the receiver is what the called method left of it exactly if the method still
knows an object there; a receiver that the method has lost is the object of before the call. -/
theorem getVar_ret_receiver_iff {stmt : Stmt} {base this : Local} (entry : MethodSig)
    (seeds ended : Store) (exit next : StmtId) (hstmt : g.view.stmt? site = some stmt)
    (hinvoke : stmt.invoke? = some i) (hbase : i.receiver = some base)
    (hthis : (g.view.frame callee).this = some this)
    (hobject : (caller.getVar site.method base).isObject) (hargs : .var base ∉ i.args)
    (hplace : stmt.changed? ≠ some base) :
  ∃ t, (problem g entry seeds).ret site callee exit next caller ended = [t] ∧
    (t.getVar site.method base = ended.getVar callee this ↔ (ended.getVar callee this).isObject) ∧
    (¬(ended.getVar callee this).isObject →
      t.getVar site.method base = caller.getVar site.method base)
  := by
  refine ⟨_, ret_eq_singleton hstmt, ?_⟩
  have hx : base.isBuilder || (caller.getVar site.method base).isObject := by
    rw [hobject, Bool.or_true]
  rw [getVar_returnWith hinvoke hx hplace, handedBack?, Frame.paramsOf_eq_nil hargs, Frame.thisOf?,
    if_pos hbase, hthis]
  by_cases hknown : (ended.getVar callee this).isObject
  · simp [hknown, Option.filter]
  · have hne : caller.getVar site.method base ≠ ended.getVar callee this := by
      intro heq
      apply hknown (heq ▸ hobject)
    simp [hknown, hne, Option.filter]

end Propagation

namespace Handover

/-! A method that makes an object and hands it to another method of its class. -/

def owner : ClassName := ⟨"A"⟩
def main : MethodSig := ⟨owner, "main", [], .void⟩
def made : Local := ⟨"a", .object owner⟩
def name : FieldSig := ⟨owner, "name", .string⟩

def mainBody (call : Invoke) : Body :=
  ⟨[made], [.assign (.var made) (.new owner), .invoke call, .retVoid]⟩

def view (call : Invoke) (callee : Method) : View :=
  .ofList [⟨owner, none, [], none, [⟨main, true, some (mainBody call)⟩, callee]⟩]

/-- The object with its field set. -/
def named : Value := (Value.fresh owner).withField name (.str "x")

def atCall : Store := Store.empty.setVar main made (.fresh owner)

def run (graph : Supergraph) : Run :=
  ⟨graph, Tabulation.solve (Propagation.flowGraph graph)
    (Propagation.problem graph main .empty) ⟨20, 2⟩⟩

end Handover

namespace Forgotten

/-! A method that hands its receiver to a method outside of the program. -/

open Handover

def hide : MethodSig := ⟨owner, "hide", [], .void⟩
def self : Local := ⟨"this", .object owner⟩

def log : Invoke :=
  ⟨.static, ⟨⟨"lib.Log"⟩, "log", [.object .object], .void⟩, none, [.var self]⟩

def hideBody : Body := ⟨[self], [.identity self .this, .invoke log, .retVoid]⟩

def call : Invoke := ⟨.virtual, hide, some made, []⟩

def graph : Supergraph :=
  ⟨view call ⟨hide, false, some hideBody⟩, [main, hide],
    [⟨⟨main, 1⟩, [hide]⟩, ⟨⟨hide, 1⟩, []⟩]⟩

/-- What is known in the called method, by its receiver. -/
def inside (v : Value) : Store := Store.empty.setVar hide self v

theorem execute_eq_run :
  Run.execute graph.view main .empty {} ⟨20, 2⟩ = .ok (run graph)
  := rfl

theorem factsAt_run :
  (run graph).factsAt ⟨main, 1⟩ = [atCall] ∧ (run graph).factsAt ⟨hide, 2⟩ = [.empty] ∧
  (run graph).factsAt ⟨main, 2⟩ = [atCall]
  := by
  simp only [run, Run.factsAt, Tabulation.factsAt_solve]
  decide +kernel

/-- The called method has lost its receiver, and yet the caller goes on with the object. -/
theorem lost_receiver_survives :
  Run.execute graph.view main .empty {} ⟨20, 2⟩ = .ok (run graph) ∧
  (run graph).factsAt ⟨main, 1⟩ = [atCall] ∧ (run graph).factsAt ⟨hide, 2⟩ = [.empty] ∧
  (Propagation.problem graph main .empty).ret ⟨main, 1⟩ hide ⟨hide, 2⟩ ⟨main, 2⟩ atCall .empty =
    [atCall] ∧
  (run graph).factsAt ⟨main, 2⟩ = [atCall] ∧
  (graph.view.frame hide).this = some self ∧ Store.empty.getVar hide self = .unknown ∧
  atCall.getVar main made = .fresh owner
  := by
  obtain ⟨hcall, hexit, hback⟩ := factsAt_run
  use execute_eq_run, hcall, hexit, rfl, hback
  decide

/-- A receiver with a field set by the called method is taken over. -/
theorem known_receiver_handed_back :
  ∃ t, (Propagation.problem graph main .empty).ret ⟨main, 1⟩ hide ⟨hide, 2⟩ ⟨main, 2⟩ atCall
      (inside named) = [t] ∧
    t.getVar main made = named
  := by
  have hstmt : graph.view.stmt? ⟨main, 1⟩ = some (.invoke call) := rfl
  have hthis : (graph.view.frame hide).this = some self := rfl
  have hobject : (atCall.getVar main made).isObject := by decide
  obtain ⟨t, ht, hiff, -⟩ := Propagation.getVar_ret_receiver_iff main .empty (inside named)
    ⟨hide, 2⟩ ⟨main, 2⟩ hstmt rfl rfl hthis hobject (by decide) (by decide)
  use t, ht
  apply hiff.2
  decide

end Forgotten

/-! ### Locals at several positions -/

namespace Propagation

variable {g : Supergraph} {site : StmtId} {callee : MethodSig} {caller ended : Store} {i : Invoke}
  {f : Frame} {x : Local}

/-- A value of a local that forgets no change: it is unknown, or it is what each formal bound to the
local holds at the exit. -/
def KeepsChanges (callee : MethodSig) (ended : Store) (formals : List Param) (v : Value) : Prop :=
  v = .unknown ∨ ∀ p ∈ formals, p.rebound = false → v = ended.getVar callee p.var

instance {callee : MethodSig} {ended : Store} {formals : List Param} {v : Value} :
    Decidable (KeepsChanges callee ended formals v) :=
  inferInstanceAs (Decidable (v = .unknown ∨ ∀ p ∈ formals, p.rebound = false →
    v = ended.getVar callee p.var))

/-- What the last parameter hands back forgets a change unless all formals agree with it. -/
theorem keepsChanges_endValue_iff {formals : List Param} {p : Param} :
  KeepsChanges callee ended formals (endValue callee ended p) ↔
    p.rebound ∨ ended.getVar callee p.var = .unknown ∨
      ∀ q ∈ formals, q.rebound = false → ended.getVar callee p.var = ended.getVar callee q.var
  := by
  rw [KeepsChanges, endValue]
  split
  · next hrebound => simp [hrebound]
  · next hrebound => simp [hrebound]

/-- Without a bound parameter only a receiver that the called method has lost forgets a change. -/
theorem keepsChanges_thisOf_iff {v : Value} (hparams : f.paramsOf i x = []) :
  KeepsChanges callee ended (f.formalsOf i x) ((handedBack? callee ended i f x).getD v) ↔
    ∀ this, f.thisOf? i x = some this →
      (ended.getVar callee this).isObject ∨ v = .unknown ∨ v = ended.getVar callee this
  := by
  rw [handedBack?, Frame.formalsOf, hparams]
  cases f.thisOf? i x with
  | none => simp [KeepsChanges]
  | some this =>
      by_cases hknown : (ended.getVar callee this).isObject
      · simp [KeepsChanges, hknown, Option.filter]
      · simp [KeepsChanges, hknown, Option.filter]

/-- Behind a call a local that stands at several positions is what its last bound parameter holds,
so that a change is kept exactly if the formals of all its positions agree with that one. -/
theorem keepsChanges_ret_iff {stmt : Stmt} (entry : MethodSig) (seeds ended : Store)
    (exit next : StmtId) (hstmt : g.view.stmt? site = some stmt) (hinvoke : stmt.invoke? = some i)
    (hx : x.isBuilder || (caller.getVar site.method x).isObject)
    (hplace : stmt.changed? ≠ some x) (hframe : g.view.frame callee = f) :
  ∃ t, (problem g entry seeds).ret site callee exit next caller ended = [t] ∧
    (∀ p, (f.paramsOf i x).getLast? = some p →
      (KeepsChanges callee ended (f.formalsOf i x) (t.getVar site.method x) ↔
        p.rebound ∨ ended.getVar callee p.var = .unknown ∨
          ∀ q ∈ f.formalsOf i x, q.rebound = false →
            ended.getVar callee p.var = ended.getVar callee q.var)) ∧
    (f.paramsOf i x = [] →
      (KeepsChanges callee ended (f.formalsOf i x) (t.getVar site.method x) ↔
        ∀ this, f.thisOf? i x = some this →
          (ended.getVar callee this).isObject ∨ caller.getVar site.method x = .unknown ∨
            caller.getVar site.method x = ended.getVar callee this))
  := by
  subst hframe
  refine ⟨_, ret_eq_singleton hstmt, ?_⟩
  rw [getVar_returnWith hinvoke hx hplace]
  constructor
  · intro p hp
    rw [handedBack?, hp]
    apply keepsChanges_endValue_iff
  · apply keepsChanges_thisOf_iff

end Propagation

namespace Aliased

/-! A method that is handed one object at two positions and sets a field at the first. -/

open Handover

def fill : MethodSig := ⟨owner, "fill", [.object owner, .object owner], .void⟩
def first : Local := ⟨"p", .object owner⟩
def second : Local := ⟨"q", .object owner⟩

def fillBody : Body := ⟨[first, second], [
  .identity first (.parameter 0),
  .identity second (.parameter 1),
  .assign (.instanceField first name) (.operand (.const (.string "x"))),
  .retVoid]⟩

def call : Invoke := ⟨.static, fill, none, [.var made, .var made]⟩

def graph : Supergraph :=
  ⟨view call ⟨fill, true, some fillBody⟩, [main, fill], [⟨⟨main, 1⟩, [fill]⟩]⟩

/-- What is known in the called method, by the objects at the two positions. -/
def inside (v w : Value) : Store := (Store.empty.setVar fill first v).setVar fill second w

theorem execute_eq_run :
  Run.execute graph.view main .empty {} ⟨20, 2⟩ = .ok (run graph)
  := rfl

theorem factsAt_run :
  (run graph).factsAt ⟨main, 1⟩ = [atCall] ∧
  (run graph).factsAt ⟨fill, 3⟩ = [inside named (.fresh owner)] ∧
  (run graph).factsAt ⟨main, 2⟩ = [atCall]
  := by
  simp only [run, Run.factsAt, Tabulation.factsAt_solve]
  decide +kernel

/-- The object at the first position has a field, the one at the second has none, and the caller
goes on with the second. -/
theorem change_at_first_position_lost :
  Run.execute graph.view main .empty {} ⟨20, 2⟩ = .ok (run graph) ∧
  (run graph).factsAt ⟨main, 1⟩ = [atCall] ∧
  (run graph).factsAt ⟨fill, 3⟩ = [inside named (.fresh owner)] ∧
  (Propagation.problem graph main .empty).ret ⟨main, 1⟩ fill ⟨fill, 3⟩ ⟨main, 2⟩ atCall
    (inside named (.fresh owner)) = [atCall] ∧
  (run graph).factsAt ⟨main, 2⟩ = [atCall] ∧
  ¬Propagation.KeepsChanges fill (inside named (.fresh owner))
    ((graph.view.frame fill).formalsOf call made) (atCall.getVar main made)
  := by
  obtain ⟨hcall, hexit, hback⟩ := factsAt_run
  use execute_eq_run, hcall, hexit, rfl, hback
  decide

/-- A change that both positions show is kept. -/
theorem change_at_both_positions_kept :
  ∃ t, (Propagation.problem graph main .empty).ret ⟨main, 1⟩ fill ⟨fill, 3⟩ ⟨main, 2⟩ atCall
      (inside named named) = [t] ∧
    Propagation.KeepsChanges fill (inside named named) ((graph.view.frame fill).formalsOf call made)
      (t.getVar main made)
  := by
  have hx : made.isBuilder || (atCall.getVar main made).isObject := by decide
  have hstmt : graph.view.stmt? ⟨main, 1⟩ = some (.invoke call) := rfl
  have hframe : graph.view.frame fill = ⟨none, [some ⟨first, false⟩, some ⟨second, false⟩]⟩ := rfl
  obtain ⟨t, ht, hlast, -⟩ := Propagation.keepsChanges_ret_iff main .empty (inside named named)
    ⟨fill, 3⟩ ⟨main, 2⟩ hstmt rfl hx (by decide) hframe
  use t, ht
  apply (hlast ⟨second, false⟩ rfl).2
  decide

end Aliased

end ServiceFlow
