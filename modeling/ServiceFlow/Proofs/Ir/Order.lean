import ServiceFlow.Ir.Class
import ServiceFlow.Proofs.Order

/-!
# The order of signatures

Names come in the order of their texts and types in the order of their alternatives.  Signatures,
locals and program points are compared member by member.
-/

namespace ServiceFlow

theorem linearAt_string (s : String) :
  LinearAt compare (· < ·) s
  := by
  apply linearAt_of_lawful
  intro s t
  apply compareOfLessAndEq_eq_lt

theorem linearAt_nat (n : Nat) :
  LinearAt compare (· < ·) n
  := by
  apply linearAt_of_lawful
  intro m n
  apply Nat.compare_eq_lt

namespace ClassName

def Before (c d : ClassName) : Prop := c.text < d.text

theorem linearAt (c : ClassName) :
  LinearAt compare Before c
  := by
  apply LinearAt.comap (f := ClassName.text) _ (linearAt_string c.text)
  rintro ⟨s⟩ ⟨t⟩ rfl
  rfl

end ClassName

namespace Primitive

def Before (p q : Primitive) : Prop := p.ctorIdx < q.ctorIdx

theorem linearAt (p : Primitive) :
  LinearAt compare Before p
  := by
  apply LinearAt.comap (f := Primitive.ctorIdx) _ (linearAt_nat p.ctorIdx)
  intro p q h
  apply Std.LawfulEqOrd.eq_of_compare
  apply Nat.compare_eq_eq.2 h

end Primitive

namespace Ty

/-- The alternatives in the order of their declaration, each in the order of its content. -/
inductive Before : Ty → Ty → Prop
  | alternative {a b : Ty} (h : a.ctorIdx < b.ctorIdx) : Before a b
  | primitive {p q : Primitive} (h : p.Before q) : Before (.primitive p) (.primitive q)
  | object {c d : ClassName} (h : c.Before d) : Before (.object c) (.object d)
  | array {a b : Ty} (h : Before a b) : Before (.array a) (.array b)

theorem compare_of_ctorIdx_lt {a b : Ty} (h : a.ctorIdx < b.ctorIdx) :
  compare a b = .lt
  := by
  cases a with
  | void =>
      cases b with
      | void => contradiction
      | _ => rfl
  | primitive p =>
      cases b with
      | void => contradiction
      | primitive q => contradiction
      | _ => rfl
  | object c =>
      cases b with
      | array b => rfl
      | _ => contradiction
  | array a => cases b <;> contradiction

theorem compare_eq_lt_iff {a b : Ty} :
  compare a b = .lt ↔ Before a b
  := by
  constructor
  · intro h
    induction a generalizing b with
    | void =>
        cases b with
        | void => cases h
        | _ => exact .alternative (Nat.succ_pos _)
    | primitive p =>
        cases b with
        | void => cases h
        | primitive q => exact .primitive ((p.linearAt.reflects q).lt_iff.1 h)
        | _ => exact .alternative (Nat.one_lt_succ_succ _)
    | object c =>
        cases b with
        | object d => exact .object ((c.linearAt.reflects d).lt_iff.1 h)
        | array b => exact .alternative (Nat.lt_succ_self _)
        | _ => cases h
    | array a ih =>
        cases b with
        | array b => exact .array (ih h)
        | _ => cases h
  · intro h
    induction h with
    | alternative h => exact compare_of_ctorIdx_lt h
    | @primitive p q h => exact (p.linearAt.reflects q).lt_iff.2 h
    | @object c d h => exact (c.linearAt.reflects d).lt_iff.2 h
    | array _ ih => exact ih

theorem linearAt (t : Ty) :
  LinearAt compare Before t
  := linearAt_of_lawful (fun _ _ => compare_eq_lt_iff) t

end Ty

/-! ### Members one after another -/

namespace FieldSig

def Before (f g : FieldSig) : Prop :=
  Prod.Lex ClassName.Before (Prod.Lex (· < ·) Ty.Before) (f.owner, f.name, f.type)
    (g.owner, g.name, g.type)

theorem linearAt (f : FieldSig) :
  LinearAt compare Before f
  := by
  apply LinearAt.comap (f := fun f : FieldSig => (f.owner, f.name, f.type)) _
    (f.owner.linearAt.pair ((linearAt_string f.name).pair f.type.linearAt))
  rintro ⟨_, _, _⟩ ⟨_, _, _⟩ h
  cases h
  rfl

end FieldSig

namespace MethodSig

def Before (m n : MethodSig) : Prop :=
  Prod.Lex ClassName.Before (Prod.Lex (· < ·) (Prod.Lex (List.Lex Ty.Before) Ty.Before))
    (m.owner, m.name, m.params, m.result) (n.owner, n.name, n.params, n.result)

theorem linearAt (m : MethodSig) :
  LinearAt compare Before m
  := by
  have hparams : LinearAt compare (List.Lex Ty.Before) m.params :=
    LinearAt.list (fun t _ => t.linearAt)
  apply LinearAt.comap (f := fun m : MethodSig => (m.owner, m.name, m.params, m.result)) _
    (m.owner.linearAt.pair ((linearAt_string m.name).pair (hparams.pair m.result.linearAt)))
  rintro ⟨_, _, _, _⟩ ⟨_, _, _, _⟩ h
  cases h
  rfl

end MethodSig

namespace Local

def Before (l k : Local) : Prop :=
  Prod.Lex (· < ·) Ty.Before (l.name, l.type) (k.name, k.type)

theorem linearAt (l : Local) :
  LinearAt compare Before l
  := by
  apply LinearAt.comap (f := fun l : Local => (l.name, l.type)) _
    ((linearAt_string l.name).pair l.type.linearAt)
  rintro ⟨_, _⟩ ⟨_, _⟩ h
  cases h
  rfl

end Local

namespace Point

variable {μ : Type}

/-- The points of a method stand together, in the order of its statements. -/
def Before (before : μ → μ → Prop) (p q : Point μ) : Prop :=
  Prod.Lex before (· < ·) (p.method, p.offset) (q.method, q.offset)

theorem linearAt [Ord μ] {before : μ → μ → Prop} {p : Point μ}
    (h : LinearAt compare before p.method) :
  LinearAt compare (Before before) p
  := by
  apply LinearAt.comap (f := fun p : Point μ => (p.method, p.offset)) _
    (h.pair (linearAt_nat p.offset))
  rintro ⟨_, _⟩ ⟨_, _⟩ h
  cases h
  rfl

end Point

theorem StmtId.linear :
  Linear compare (Point.Before MethodSig.Before)
  := .of_linearAt (fun p => Point.linearAt p.method.linearAt)

end ServiceFlow
