import ServiceFlow.Proofs.Propagation.Footprint

/-!
# Knowing more

A value is below another one if it says nothing that the other does not say, and a store is below
another one if each of its values is.  To know more never leads to knowing less: what is known after
a statement, or at the start of a called method, is below what is known there if more was known
before.  The rules that ask whether an object is known do no harm: one lets a field be written, and
the other only forgets.
-/

namespace ServiceFlow

/-! ### Values -/

namespace Value

/-- The second value says all that the first one says.  A constant is below itself only, and objects
of a type are compared field by field, where a field without an entry is unknown. -/
inductive Below : Value → Value → Prop where
  | unknown (v : Value) : Below .unknown v
  | constant {v : Value} (h : v.isConstant) : Below v v
  | object {type : ClassName} {fs gs : Option (List (FieldSig × Value))}
      (fields : ∀ f, Below ((object type fs).field f) ((object type gs).field f)) :
      Below (.object type fs) (.object type gs)

theorem sizeOf_field_lt (type : ClassName) (fs : Option (List (FieldSig × Value))) (f : FieldSig) :
  sizeOf ((object type fs).field f) < sizeOf (object type fs)
  := by
  cases fs with
  | none =>
      simp only [field, unknown.sizeOf_spec, object.sizeOf_spec, Option.none.sizeOf_spec]
      omega
  | some fields =>
      rw [field, object.sizeOf_spec, Option.some.sizeOf_spec]
      cases h : Sorted.lookup f fields with
      | none =>
          rw [Option.getD_none, unknown.sizeOf_spec]
          omega
      | some v =>
          have hmem := List.sizeOf_lt_of_mem (Sorted.mem_of_lookup h)
          rw [Prod.mk.sizeOf_spec] at hmem
          rw [Option.getD_some]
          omega

theorem field_withField (type : ClassName) (fs : Option (List (FieldSig × Value))) (f h : FieldSig)
    (v : Value) :
  ((object type fs).withField f v).field h = if h = f then v else (object type fs).field h
  := by
  have hfields : (object type fs).field h = (Sorted.lookup h (fs.getD [])).getD .unknown := by
    cases fs with
    | none => rfl
    | some fields => rfl
  rw [hfields, withField, field]
  split
  · rw [Sorted.lookup_insert]
    split
    · rfl
    · rfl
  · next hknown =>
    rw [Sorted.lookup_erase, isKnown_eq_false hknown]
    split
    · rfl
    · rfl

theorem withField_eq_self {v : Value} (h : ¬v.isObject) (f : FieldSig) (w : Value) :
  v.withField f w = v
  := by
  cases v with
  | object type fields => cases h rfl
  | _ => rfl

namespace Below

variable {v w x y : Value}

theorem refl (v : Value) :
  v.Below v
  := by
  cases v with
  | unknown => apply Below.unknown
  | object type fs =>
      apply Below.object
      intro f
      apply refl
  | _ => apply Below.constant rfl
termination_by sizeOf v
decreasing_by
  apply sizeOf_field_lt

theorem trans (hvw : v.Below w) (hwx : w.Below x) :
  v.Below x
  := by
  induction hvw generalizing x with
  | unknown => apply Below.unknown
  | constant _ => apply hwx
  | object _ ih =>
      cases hwx with
      | constant h => cases h
      | object fields =>
          apply Below.object
          intro f
          apply ih f (fields f)

/-- Below an object there are objects and the unknown value. -/
theorem eq_unknown_of_isObject (h : v.Below w) (hw : w.isObject) (hv : ¬v.isObject) :
  v = .unknown
  := by
  cases h with
  | unknown => rfl
  | constant _ => cases hv hw
  | object _ => cases hv rfl

/-- An operation that is defined on constants only. -/
theorem map (h : v.Below w) (f : Value → Value) (hunknown : f .unknown = .unknown)
    (hobject : ∀ type fs, f (.object type fs) = .unknown) :
  (f v).Below (f w)
  := by
  cases h with
  | unknown =>
      rw [hunknown]
      apply Below.unknown
  | constant _ => apply refl
  | object _ =>
      rw [hobject]
      apply Below.unknown

theorem concat (hv : v.Below w) (hx : x.Below y) :
  (v.concat x).Below (w.concat y)
  := by
  have hleft : (v.concat x).Below (w.concat x) := hv.map (·.concat x) rfl fun _ _ => rfl
  apply hleft.trans
  apply hx.map w.concat
  · cases w <;> rfl
  · cases w <;> exact fun _ _ => rfl

theorem field (h : v.Below w) (f : FieldSig) :
  (v.field f).Below (w.field f)
  := by
  cases h with
  | unknown => apply Below.unknown
  | constant _ => apply refl
  | object fields => apply fields

theorem withField (h : v.Below w) (f : FieldSig) (hx : x.Below y) :
  (v.withField f x).Below (w.withField f y)
  := by
  cases h with
  | unknown => apply Below.unknown
  | @constant v hconstant =>
      cases v with
      | object type fs => cases hconstant
      | _ => apply refl
  | object fields =>
      apply Below.object
      intro f'
      rw [← Value.withField, ← Value.withField, field_withField, field_withField]
      split
      · apply hx
      · apply fields

end Below

end Value

/-! ### Stores -/

namespace Store

/-- The second store knows of each location all that the first one knows. -/
def Below (s t : Store) : Prop := ∀ x, (s.get x).Below (t.get x)

namespace Below

variable {s t : Store} {v w : Value}

theorem refl (s : Store) :
  s.Below s
  := fun x => .refl (s.get x)

theorem getVar (h : s.Below t) (m : MethodSig) (l : Local) :
  (s.getVar m l).Below (t.getVar m l)
  := h (.var m l)

theorem set (h : s.Below t) (x : Location) (hv : v.Below w) :
  (s.set x v).Below (t.set x w)
  := by
  intro y
  rw [get_set, get_set]
  split
  · apply hv
  · apply h

theorem restrict (h : s.Below t) (p : Location → Bool) :
  (s.restrict p).Below (t.restrict p)
  := by
  intro x
  rw [get_restrict, get_restrict]
  split
  · apply h
  · apply Value.Below.refl

theorem foldl {α : Type} {f f' : Store → α → Store} {as : List α} (h : s.Below t)
    (hf : ∀ s t, s.Below t → ∀ a ∈ as, (f s a).Below (f' t a)) :
  (as.foldl f s).Below (as.foldl f' t)
  := by
  induction as generalizing s t with
  | nil => apply h
  | cons a as ih =>
      apply ih (hf s t h a List.mem_cons_self)
      intro s t h b hb
      apply hf s t h b (List.mem_cons_of_mem a hb)

end Below

end Store

/-- To write a field is to write the object with the field, whether the object is known or not. -/
theorem Place.get_write_instanceField (m : MethodSig) (s : Store) (base : Local) (f : FieldSig)
    (v : Value) (x : Location) :
  ((Place.instanceField base f).write m v s).get x =
    if x = .var m base then (s.getVar m base).withField f v else s.get x
  := by
  rw [write]
  split
  · apply Store.get_set
  · next hobject =>
    split
    · next hx =>
      rw [Value.withField_eq_self hobject, hx]
      rfl
    · rfl

/-! ### Expressions -/

section

variable {s t : Store} (h : s.Below t) (m : MethodSig)

include h

theorem Operand.below_eval (o : Operand) :
  (o.eval m s).Below (o.eval m t)
  := by
  cases o with
  | var l => apply h.getVar
  | const c => apply Value.Below.refl

namespace Invoke

variable (i : Invoke)

theorem below_receiverValue :
  (i.receiverValue m s).Below (i.receiverValue m t)
  := by
  rw [receiverValue, receiverValue]
  cases i.receiver with
  | none => apply Value.Below.unknown
  | some l => apply h.getVar

theorem below_firstValue :
  (i.firstValue m s).Below (i.firstValue m t)
  := by
  rw [firstValue, firstValue]
  cases i.args.head? with
  | none => apply Value.Below.unknown
  | some o => apply o.below_eval h

theorem below_builderContent :
  (i.builderContent m s).Below (i.builderContent m t)
  := by
  rw [builderContent, builderContent]
  split
  · apply Value.Below.refl
  · split
    · apply Value.Below.refl
    · apply (i.below_firstValue h m).map Value.onlyString rfl fun _ _ => rfl

/-- A library call has a result above if its receiver and its argument are above, and it changes the
same local. -/
theorem below_effect :
  (i.effect m s).result.Below (i.effect m t).result ∧
  Option.Rel (fun r r' => r.1 = r'.1 ∧ r.2.Below r'.2) (i.effect m s).receiver
    (i.effect m t).receiver
  := by
  have hreceiver := i.below_receiverValue h m
  have hfirst := i.below_firstValue h m
  have hwritten : ∀ {v w : Value}, v.Below w → Option.Rel
      (fun (r r' : Local × Value) => r.1 = r'.1 ∧ r.2.Below r'.2)
      (i.receiver.map (fun l => (l, v))) (i.receiver.map (fun l => (l, w))) := by
    intro v w hvw
    cases i.receiver with
    | none => apply Option.Rel.none
    | some l => apply Option.Rel.some ⟨rfl, hvw⟩
  rw [effect, effect]
  split
  · exact ⟨.unknown _, .none⟩
  · exact ⟨hfirst.map Value.classForName rfl fun _ _ => rfl, .none⟩
  · exact ⟨hreceiver.map Value.canonicalName rfl fun _ _ => rfl, .none⟩
  · exact ⟨hreceiver.map Value.simpleName rfl fun _ _ => rfl, .none⟩
  · exact ⟨.unknown _, hwritten (i.below_builderContent h m)⟩
  · exact ⟨hreceiver.concat hfirst, hwritten (hreceiver.concat hfirst)⟩
  · exact ⟨hreceiver.map Value.onlyString rfl fun _ _ => rfl, .none⟩
  · exact ⟨hreceiver.concat hfirst, .none⟩

/-- An argument that is forgotten in the upper store is forgotten or unknown in the lower one. -/
theorem below_getVar_apply (hop : LibraryCall.ofInvoke? i = none) (l : Local) :
  ((i.apply m s).getVar m l).Below ((i.apply m t).getVar m l)
  := by
  have hl := h.getVar m l
  rw [getVar_apply_of_unfollowed hop, getVar_apply_of_unfollowed hop]
  split
  · apply Value.Below.unknown
  · next hkept =>
    split
    · next hforgotten =>
      obtain ⟨harg, hchanges⟩ := hforgotten
      have hs : ¬(l.isBuilder || (s.getVar m l).isObject) = true := fun hs => hkept ⟨harg, hs⟩
      rw [Bool.or_eq_true, not_or] at hs
      have ht : (t.getVar m l).isObject :=
        (Bool.or_eq_true_iff.1 hchanges).resolve_left hs.1
      rw [hl.eq_unknown_of_isObject ht hs.2]
      apply Value.Below.unknown
    · apply hl

theorem below_apply :
  (i.apply m s).Below (i.apply m t)
  := by
  by_cases hop : (LibraryCall.ofInvoke? i).isSome
  · rw [apply_of_library hop, apply_of_library hop]
    obtain ⟨_, hreceiver⟩ := i.below_effect h m
    generalize (i.effect m s).receiver = r, (i.effect m t).receiver = r' at hreceiver
    cases hreceiver with
    | none => apply h
    | some hr =>
        rw [Option.elim_some, Option.elim_some, hr.1]
        apply h.set _ hr.2
  · rw [Option.not_isSome_iff_eq_none] at hop
    intro x
    by_cases hx : ∃ l, x = .var m l
    · obtain ⟨l, rfl⟩ := hx
      apply i.below_getVar_apply h m hop
    · -- Nothing but locals of the method is touched.
      have hother : ∀ s, ¬i.Touches m s x := by
        intro s htouched
        cases htouched <;> exact hx ⟨_, rfl⟩
      rw [i.agreeOutside_apply m s x (hother s), i.agreeOutside_apply m t x (hother t)]
      apply h

end Invoke

namespace Expr

variable (e : Expr)

theorem below_eval (v : View) :
  (e.eval v m s).Below (e.eval v m t)
  := by
  cases e with
  | operand o => apply o.below_eval h
  | staticField f => apply h (.static f)
  | instanceField base f => apply (h.getVar m base).field
  | new c => apply Value.Below.refl
  | invoke i => apply (i.below_effect h m).1
  | uninterpreted source => apply Value.Below.unknown

theorem below_apply :
  (e.apply m s).Below (e.apply m t)
  := by
  cases e with
  | invoke i => apply i.below_apply h
  | _ => apply h

end Expr

/-! ### Statements -/

theorem Place.below_write (place : Place) {v w : Value} (hv : v.Below w) :
  (place.write m v s).Below (place.write m w t)
  := by
  cases place with
  | var l => apply h.set _ hv
  | staticField f => apply h.set _ hv
  | instanceField base f =>
      intro x
      rw [get_write_instanceField, get_write_instanceField]
      split
      · apply (h.getVar m base).withField f hv
      · apply h
  | arrayElement base => apply h

theorem Stmt.below_apply (stmt : Stmt) (v : View) :
  (stmt.apply v m s).Below (stmt.apply v m t)
  := by
  cases stmt with
  | assign place e => apply place.below_write (e.below_apply h m) m (e.below_eval h m v)
  | invoke i => apply i.below_apply h
  | _ => apply h

end

/-! ### Calls -/

namespace Propagation

variable {s t : Store} (h : s.Below t)

include h

theorem below_enterWith (g : Supergraph) (site : StmtId) (callee : MethodSig) (i : Invoke) :
  (enterWith g site callee s i).Below (enterWith g site callee t i)
  := by
  have hargs : ∀ f, (bindArgs site callee s i f s.statics).Below
      (bindArgs site callee t i f t.statics) := by
    intro f
    apply (h.restrict Location.isStatic).foldl
    intro s' t' h' a _
    split
    · apply h'.set _ (a.1.below_eval h site.method)
    · apply h'
  rw [enterWith, enterWith, bindThis, bindThis]
  split
  · apply (hargs _).set _ (h.getVar site.method _)
  · apply hargs

end Propagation

/-- If more is known before a statement or a call, then no less is known after the statement and at
the start of the called method. -/
theorem Store.Below.apply_and_call {a b : Store} (h : a.Below b) :
  (∀ (v : View) (m : MethodSig) (stmt : Stmt), (stmt.apply v m a).Below (stmt.apply v m b)) ∧
  (∀ (g : Supergraph) (entry : MethodSig) (seeds : Store) (site : StmtId) (callee : MethodSig),
    List.Forall₂ Store.Below ((Propagation.problem g entry seeds).call site callee a)
      ((Propagation.problem g entry seeds).call site callee b))
  := by
  constructor
  · intro v m stmt
    apply stmt.below_apply h
  · intro g entry seeds site callee
    simp only [Propagation.problem]
    cases (g.view.stmt? site).bind Stmt.invoke? with
    | none => apply List.Forall₂.nil
    | some i => apply List.Forall₂.cons (Propagation.below_enterWith h g site callee i) .nil

namespace HalfKnown

/-! An object of which a field is known, or nothing but its type. -/

open Handover Forgotten

def less : Store := Store.empty.setVar main made (.fresh owner)
def more : Store := Store.empty.setVar main made named

def read : Stmt := .assign (.staticField name) (.instanceField made name)

theorem less_below_more :
  less.Below more
  := by
  apply (Store.Below.refl _).set
  apply Value.Below.object
  intro f
  apply Value.Below.unknown

/-- With the field known more is known after it is read, and the called method is entered with the
larger object. -/
theorem read_and_call_of_named :
  less.Below more ∧
  (read.apply graph.view main less).getStatic name = .unknown ∧
  (read.apply graph.view main more).getStatic name = .str "x" ∧
  (read.apply graph.view main less).Below (read.apply graph.view main more) ∧
  (Propagation.problem graph main .empty).call ⟨main, 1⟩ hide less = [inside (.fresh owner)] ∧
  (Propagation.problem graph main .empty).call ⟨main, 1⟩ hide more = [inside named] ∧
  (inside (.fresh owner)).Below (inside named)
  := by
  obtain ⟨happly, hcall⟩ := less_below_more.apply_and_call
  have hless : (Propagation.problem graph main .empty).call ⟨main, 1⟩ hide less =
      [inside (.fresh owner)] := rfl
  have hmore : (Propagation.problem graph main .empty).call ⟨main, 1⟩ hide more =
      [inside named] := rfl
  have hinside := hcall graph main .empty ⟨main, 1⟩ hide
  rw [hless, hmore] at hinside
  refine ⟨less_below_more, by decide, by decide, happly graph.view main read, hless, hmore, ?_⟩
  apply (List.forall₂_cons.1 hinside).1

end HalfKnown

end ServiceFlow
