import ServiceFlow.Proofs.Ir.Order
import ServiceFlow.Value.Store

/-!
# The order of values and stores

The fields of an object are values again, to any depth.  The order of values is linear at an object
if it is linear at the values of its fields, so that an induction on values shows that it is linear.
Stores are lists of locations with values, and are ordered as such.
-/

namespace ServiceFlow

namespace Location

/-- Locals by method and then by local; then static fields. -/
inductive Before : Location → Location → Prop
  | alternative {x y : Location} (h : x.ctorIdx < y.ctorIdx) : Before x y
  | var {m n : MethodSig} {l k : Local}
      (h : Prod.Lex MethodSig.Before Local.Before (m, l) (n, k)) : Before (.var m l) (.var n k)
  | static {f g : FieldSig} (h : f.Before g) : Before (.static f) (.static g)

theorem compare_eq_lt_iff {x y : Location} :
  compare x y = .lt ↔ Before x y
  := by
  constructor
  · intro h
    cases x with
    | var m l =>
        cases y with
        | var n k => exact .var (((m.linearAt.pair l.linearAt).reflects (n, k)).lt_iff.1 h)
        | static g => exact .alternative Nat.zero_lt_one
    | static f =>
        cases y with
        | var n k => cases h
        | static g => exact .static ((f.linearAt.reflects g).lt_iff.1 h)
  · intro h
    cases h with
    | alternative h =>
        cases x with
        | var m l =>
            cases y with
            | var n k => contradiction
            | static g => rfl
        | static f => cases y <;> contradiction
    | @var m n l k h => exact ((m.linearAt.pair l.linearAt).reflects (n, k)).lt_iff.2 h
    | @static f g h => exact (f.linearAt.reflects g).lt_iff.2 h

theorem linearAt (x : Location) :
  LinearAt compare Before x
  := linearAt_of_lawful (fun _ _ => compare_eq_lt_iff) x

end Location

namespace Value

/-- The alternatives in the order of their declaration.  Objects are compared by their types and
then by their fields: an object whose fields were never written comes first, and fields are compared
entry by entry, each by the field and then by its value. -/
inductive Before : Value → Value → Prop
  | alternative {a b : Value} (h : a.ctorIdx < b.ctorIdx) : Before a b
  | str {s t : String} (h : s < t) : Before (.str s) (.str t)
  | cls {s t : String} (h : s < t) : Before (.cls s) (.cls t)
  | object {c d : ClassName} {fs gs : Option (List (FieldSig × Value))}
      (h : Prod.Lex ClassName.Before (List.Lex (List.Lex (Prod.Lex FieldSig.Before Before)))
        (c, fs.toList) (d, gs.toList)) :
      Before (.object c fs) (.object d gs)

/-- What holds of an object if it holds of the values of its fields, and of everything that is not
an object, holds of all values. -/
@[elab_as_elim] theorem induction {P : Value → Prop} (unknown : P .unknown)
    (str : ∀ s, P (.str s)) (cls : ∀ s, P (.cls s)) (null : P .null)
    (object : ∀ c fs, (∀ l ∈ Option.toList fs, ∀ e ∈ l, P e.2) → P (.object c fs)) (v : Value) :
  P v
  := by
  refine @Value.rec P (fun fs => ∀ l ∈ Option.toList fs, ∀ e ∈ l, P e.2)
    (fun l => ∀ e ∈ l, P e.2) (fun e => P e.2) unknown str cls null object ?_ ?_ ?_ ?_ ?_ v
  · intro l hl
    cases hl
  · intro l hl k hk
    obtain rfl : k = l := List.mem_singleton.1 hk
    apply hl
  · intro e he
    cases he
  · intro e l he hl
    exact List.forall_mem_cons.2 ⟨he, hl⟩
  · intro f w hw
    apply hw

/-- Fields are compared as lists of entries. -/
theorem orderFields_eq (fs gs : List (FieldSig × Value)) :
  orderFields fs gs =
    List.compareLex (fun x y => (compare x.1 y.1).then (compare x.2 y.2)) fs gs
  := by
  induction fs generalizing gs with
  | nil => cases gs <;> rfl
  | cons e fs ih =>
      cases gs with
      | nil => rfl
      | cons d gs =>
          rw [orderFields, ih, List.compareLex_cons_cons, Ordering.then_assoc]
          rfl

theorem compare_object (c d : ClassName) (fs gs : Option (List (FieldSig × Value))) :
  compare (object c fs) (object d gs) = (compare c d).then
    (List.compareLex
      (List.compareLex (fun x y => (compare x.1 y.1).then (compare x.2 y.2))) fs.toList gs.toList)
  := by
  change order (object c fs) (object d gs) = _
  cases fs with
  | none =>
      cases gs with
      | none =>
          rw [order, Option.toList_none, List.compareLex_nil_nil, Ordering.then_eq]
      | some gs => rw [order, Option.toList_none, Option.toList_some, List.compareLex_nil_cons]
  | some fs =>
      cases gs with
      | none => rw [order, Option.toList_none, Option.toList_some, List.compareLex_cons_nil]
      | some gs =>
          rw [order, orderFields_eq, Option.toList_some, Option.toList_some,
            List.compareLex_cons_cons, List.compareLex_nil_nil, Ordering.then_eq]

theorem byAlternative :
  ByAlternative Value.ctorIdx compare Before
  where
  compare_of_ne {a b} h := by
    cases a with
    | unknown =>
        cases b with
        | unknown => contradiction
        | _ => rfl
    | str s =>
        cases b with
        | str t => contradiction
        | _ => rfl
    | cls s =>
        cases b with
        | cls t => contradiction
        | _ => rfl
    | null =>
        cases b with
        | null => contradiction
        | _ => rfl
    | object c fs =>
        cases b with
        | object d gs => contradiction
        | _ => cases fs <;> rfl
  before_of_ne {a b} h := by
    constructor
    · intro hab
      cases hab with
      | alternative hlt => apply hlt
      | _ => contradiction
    · apply Before.alternative

theorem linearAt (v : Value) :
  LinearAt compare Before v
  := by
  induction v using induction with
  | unknown =>
      refine byAlternative.linearAt_of_only ?_ rfl ?_
      · grind [cases Value]
      · grind [Before]
  | str s =>
      refine byAlternative.linearAt (fun _ _ => str.inj) ?_ (fun _ => rfl) ?_ (linearAt_string s)
      · grind [cases Value]
      · grind [Before]
  | cls s =>
      refine byAlternative.linearAt (fun _ _ => cls.inj) ?_ (fun _ => rfl) ?_ (linearAt_string s)
      · grind [cases Value]
      · grind [Before]
  | null =>
      refine byAlternative.linearAt_of_only ?_ rfl ?_
      · grind [cases Value]
      · grind [Before]
  | object c fs ih =>
      have hfields : LinearAt _ (List.Lex (List.Lex (Prod.Lex FieldSig.Before Before))) fs.toList :=
        LinearAt.list (fun l hl => LinearAt.list (fun e he => e.1.linearAt.pair (ih l hl e he)))
      have hinj : Function.Injective
          (fun p : ClassName × Option (List (FieldSig × Value)) => (p.1, p.2.toList)) := by
        rintro ⟨d, _ | gs⟩ ⟨d', _ | gs'⟩ h <;> cases h <;> rfl
      refine byAlternative.linearAt (f := fun p => object p.1 p.2) (x := (c, fs)) ?_ ?_
        (fun p => compare_object c p.1 fs p.2) ?_ ((c.linearAt.pair hfields).comap hinj)
      · rintro ⟨d, gs⟩ ⟨d', gs'⟩ h
        cases h
        rfl
      · intro b hb
        cases b with
        | object d gs => exact ⟨(d, gs), rfl⟩
        | _ => cases hb
      · grind [Before]

end Value

namespace Store

/-- Stores are compared entry by entry, each by the location and then by its value. -/
def Before (s t : Store) : Prop :=
  List.Lex (Prod.Lex Location.Before Value.Before) s.entries t.entries

theorem linearAt (s : Store) :
  LinearAt compare Before s
  := by
  apply LinearAt.comap (f := Store.entries) _
    (LinearAt.list (fun e _ => e.1.linearAt.pair e.2.linearAt))
  rintro ⟨_, _, _⟩ ⟨_, _, _⟩ rfl
  rfl

end Store

/-- The orders of types, signatures, locals, program points, locations, values and stores are linear
and agree with equality.  Alternatives come in the order of their declaration, and members, lists
and entries are compared one after another. -/
theorem orders_linear :
  Linear compare Ty.Before ∧ Linear compare MethodSig.Before ∧ Linear compare FieldSig.Before ∧
  Linear compare Local.Before ∧ Linear compare (Point.Before MethodSig.Before) ∧
  Linear compare Location.Before ∧ Linear compare Value.Before ∧ Linear compare Store.Before
  := by
  exact ⟨.of_linearAt Ty.linearAt, .of_linearAt MethodSig.linearAt, .of_linearAt FieldSig.linearAt,
    .of_linearAt Local.linearAt, StmtId.linear, .of_linearAt Location.linearAt,
    .of_linearAt Value.linearAt, .of_linearAt Store.linearAt⟩

end ServiceFlow
