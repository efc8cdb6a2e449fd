import ServiceFlow.Proofs.Propagation.Machine
import ServiceFlow.Proofs.Value.Store
import ServiceFlow.Propagation.Transfer

/-!
# Stores that describe a machine

A value describes a datum if what it says of it is true, and a store describes a machine if its
values describe the locals of the running activation and the static fields.  In immutable programs
every expression has a value that describes what it yields, and what is known after a statement
describes the machine after it.
-/

namespace ServiceFlow

/-! ### Values -/

namespace Value

/-- What the value says is true of the datum.  Objects describe nothing, since immutable programs
make none. -/
def Describes : Value → Datum → Prop
  | .unknown, _ => True
  | .str s, d => d = .str s
  | .cls name, d => d = .cls name
  | .null, d => d = .null
  | .object _ _, _ => False

/-- The same for a datum that may be missing, of which nothing is known then. -/
def DescribesOption (x : Value) (d : Option Datum) : Prop := d.elim (x = .unknown) x.Describes

variable {x y : Value} {d : Datum}

theorem Describes.isObject (h : x.Describes d) :
  x.isObject = false
  := by
  cases x with
  | object type fields => cases h
  | _ => rfl

theorem Describes.field (h : x.Describes d) (f : FieldSig) :
  x.field f = .unknown
  := by
  cases x with
  | object type fields => cases h
  | _ => rfl

theorem DescribesOption.eq_some {o : Option Datum} (h : x.DescribesOption o)
    (hx : x.isKnown) :
  ∃ d, o = some d ∧ x.Describes d
  := by
  cases o with
  | none =>
      obtain rfl : x = .unknown := h
      cases hx
  | some d => use d, rfl, h

variable {receiver arg : Option Datum}

theorem describes_classForName (hy : y.DescribesOption arg)
    (h : ∀ r, LibraryCall.classForName.result? receiver arg = some r → d = r) :
  y.classForName.Describes d
  := by
  cases y with
  | str s =>
      obtain ⟨_, rfl, rfl⟩ := hy.eq_some rfl
      apply h
      rfl
  | _ => trivial

theorem describes_canonicalName (hx : x.DescribesOption receiver)
    (h : ∀ r, LibraryCall.canonicalName.result? receiver arg = some r → d = r) :
  x.canonicalName.Describes d
  := by
  cases x with
  | cls name =>
      obtain ⟨_, rfl, rfl⟩ := hx.eq_some rfl
      apply h
      rfl
  | _ => trivial

theorem describes_simpleName (hx : x.DescribesOption receiver)
    (h : ∀ r, LibraryCall.simpleName.result? receiver arg = some r → d = r) :
  x.simpleName.Describes d
  := by
  cases x with
  | cls name =>
      obtain ⟨_, rfl, rfl⟩ := hx.eq_some rfl
      apply h
      rfl
  | _ => trivial

theorem describes_concat (hx : x.DescribesOption receiver) (hy : y.DescribesOption arg)
    (h : ∀ r, LibraryCall.stringConcat.result? receiver arg = some r → d = r) :
  (x.concat y).Describes d
  := by
  cases x with
  | str s =>
      cases y with
      | str t =>
          obtain ⟨_, rfl, rfl⟩ := hx.eq_some rfl
          obtain ⟨_, rfl, rfl⟩ := hy.eq_some rfl
          apply h
          rfl
      | _ => trivial
  | _ => trivial

end Value

/-! ### Expressions -/

section Expressions

variable {m : MethodSig} {s : Store} {a : Activation} {statics : FieldSig → Datum}
  (hlocals : ∀ l, (s.getVar m l).Describes (a.locals l))

include hlocals

theorem Operand.describes_eval {o : Operand} {d : Datum} (h : o.Yields a d) :
  (o.eval m s).Describes d
  := by
  cases o with
  | var l =>
      obtain rfl : d = a.locals l := h
      apply hlocals
  | const c =>
      cases c with
      | string s => apply h
      | cls name => apply h
      | null => apply h
      | _ => trivial

namespace Invoke

theorem describes_receiverValue (i : Invoke) :
  (i.receiverValue m s).DescribesOption (i.receiver.map a.locals)
  := by
  rw [receiverValue]
  cases i.receiver with
  | none => rfl
  | some l => apply hlocals

theorem describes_firstValue {i : Invoke} {args : List Datum}
    (hargs : List.Forall₂ (Operand.Yields a) i.args args) :
  (i.firstValue m s).DescribesOption args.head?
  := by
  rw [firstValue]
  revert hargs
  cases i.args with
  | nil =>
      intro hargs
      cases hargs
      rfl
  | cons o rest =>
      intro hargs
      cases hargs with
      | cons ho _ => apply Operand.describes_eval hlocals ho

theorem describes_result {i : Invoke} (hi : i.isImmutable) {d : Datum} (h : i.Yields a d) :
  (i.effect m s).result.Describes d
  := by
  obtain ⟨args, hargs, hresult⟩ := h
  have hreceiver := describes_receiverValue hlocals i
  have hfirst := describes_firstValue hlocals hargs
  rw [isImmutable] at hi
  rw [effect]
  cases hop : LibraryCall.ofInvoke? i with
  | none => trivial
  | some op =>
      have hd := fun r => hresult op r hop
      rw [hop] at hi
      cases op with
      | classForName => apply Value.describes_classForName hfirst hd
      | canonicalName => apply Value.describes_canonicalName hreceiver hd
      | simpleName => apply Value.describes_simpleName hreceiver hd
      | stringConcat => apply Value.describes_concat hreceiver hfirst hd
      | builderInit => cases hi
      | builderAppend => cases hi
      | builderToString => cases hi

omit hlocals in
/-- Calls that are not library calls have no receiver and are handed no builder. -/
theorem not_isBuilder_of_isImmutable {i : Invoke} (hi : i.isImmutable)
    (hop : LibraryCall.ofInvoke? i = none) :
  i.receiver = none ∧ ∀ l, .var l ∈ i.args → l.isBuilder = false
  := by
  rw [isImmutable, hop] at hi
  simp only [Bool.and_eq_true, Option.isNone_iff_eq_none, List.all_eq_true] at hi
  obtain ⟨⟨_, hreceiver⟩, hargs⟩ := hi
  use hreceiver
  intro l hl
  simpa [Operand.var?] using hargs _ hl

theorem mutableArgs_eq_nil {i : Invoke} (hi : i.isImmutable)
    (hop : LibraryCall.ofInvoke? i = none) :
  i.mutableArgs m s = []
  := by
  have hargs := (not_isBuilder_of_isImmutable hi hop).2
  rw [mutableArgs, List.filterMap_eq_nil_iff]
  rintro ⟨o, k⟩ ho
  rw [Option.map_eq_none_iff]
  cases o with
  | const c => rfl
  | var l =>
      have hbuilder := hargs l (List.fst_mem_of_mem_zipIdx ho)
      rw [Local.isBuilder] at hbuilder
      rw [mutable?, hbuilder, (hlocals l).isObject]
      rfl

/-- An invocation that is not followed changes nothing. -/
theorem apply_eq_self {i : Invoke} (hi : i.isImmutable) :
  i.apply m s = s
  := by
  rw [Invoke.apply]
  cases hop : LibraryCall.ofInvoke? i with
  | none =>
      rw [mutableArgs_eq_nil hlocals hi hop, effect, hop]
      rfl
  | some op =>
      rw [isImmutable, hop] at hi
      rw [effect, hop]
      cases op with
      | builderInit => cases hi
      | builderAppend => cases hi
      | builderToString => cases hi
      | _ => rfl

end Invoke

namespace Expr

theorem describes_eval (hstatics : ∀ f, (s.getStatic f).Describes (statics f)) (v : View)
    {e : Expr} (he : e.isImmutable) {d : Datum} (h : e.Yields a statics d) :
  (e.eval v m s).Describes d
  := by
  cases e with
  | operand o => apply Operand.describes_eval hlocals h
  | staticField f =>
      obtain rfl : d = statics f := h
      apply hstatics
  | instanceField base f =>
      rw [eval, (hlocals base).field]
      trivial
  | new c => cases he
  | invoke i => apply Invoke.describes_result hlocals he h
  | uninterpreted source => trivial

theorem apply_eq_self {e : Expr} (he : e.isImmutable) :
  e.apply m s = s
  := by
  cases e with
  | invoke i => apply Invoke.apply_eq_self hlocals he
  | _ => rfl

end Expr

end Expressions

/-! ### Statements -/

/-- The store describes the locals of the running activation and the static fields. -/
structure Store.Describes (s : Store) (M : Machine) : Prop where
  locals : ∀ l, (s.getVar M.top.point.method l).Describes (M.top.locals l)
  statics : ∀ f, (s.getStatic f).Describes (M.statics f)

namespace Store.Describes

variable {s : Store} {M : Machine}

/-- Nothing but the method of the running activation matters of where control is. -/
theorem moveTo (h : s.Describes M) {q : StmtId} (hq : q.method = M.top.point.method) :
  s.Describes (M.moveTo q)
  := by
  constructor
  · intro l
    rw [Machine.moveTo, hq]
    apply h.locals
  · apply h.statics

theorem write (h : s.Describes M) {x : Value} {d : Datum} (hx : x.Describes d) {place : Place}
    (hplace : place.isImmutable) :
  (place.write M.top.point.method x s).Describes (M.write d place)
  := by
  cases place with
  | var l =>
      constructor
      · intro k
        simp only [Place.write, Machine.write, getVar_setVar, true_and, Function.update_apply]
        split
        · apply hx
        · apply h.locals
      · intro f
        simp only [Place.write, Machine.write, getStatic_setVar]
        apply h.statics
  | staticField f =>
      constructor
      · intro l
        simp only [Place.write, Machine.write, getVar_setStatic]
        apply h.locals
      · intro k
        simp only [Place.write, Machine.write, getStatic_setStatic, Function.update_apply]
        split
        · apply hx
        · apply h.statics
  | instanceField base f => cases hplace
  | arrayElement base => cases hplace

/-- What is known after an assignment describes the machine after it. -/
theorem assign (h : s.Describes M) (v : View) {place : Place} {e : Expr}
    (himmutable : (Stmt.assign place e).isImmutable) {d : Datum}
    (hd : e.Yields M.top M.statics d) :
  ((Stmt.assign place e).apply v M.top.point.method s).Describes (M.write d place)
  := by
  obtain ⟨hplace, he⟩ := Bool.and_eq_true_iff.1 himmutable
  rw [Stmt.apply, Expr.apply_eq_self h.locals he]
  apply h.write (Expr.describes_eval h.locals h.statics v he hd) hplace

/-- A silent statement teaches nothing and forgets nothing. -/
theorem apply_of_isSilent (h : s.Describes M) (v : View) {stmt : Stmt}
    (himmutable : stmt.isImmutable) (hsilent : stmt.isSilent) :
  stmt.apply v M.top.point.method s = s
  := by
  cases stmt with
  | invoke i => apply Invoke.apply_eq_self h.locals himmutable
  | assign place e => cases hsilent
  | _ => rfl

end Store.Describes

end ServiceFlow
