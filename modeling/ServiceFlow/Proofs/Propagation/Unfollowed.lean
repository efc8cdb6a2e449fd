import ServiceFlow.Proofs.Propagation.Return

/-!
# Calls that are not followed

A call that is not followed, and that is no library call, may change the objects handed to it.  The
arguments that a called method can change are forgotten, and so is the local that takes the result.
The receiver is handed to the method as well, and yet it keeps what is known of it.
-/

namespace ServiceFlow

namespace Invoke

variable {i : Invoke} {m : MethodSig} {s : Store} {x : Local}

/-- The arguments that a called method can change are the builders and the known objects. -/
theorem mem_map_snd_mutableArgs :
  x ∈ (i.mutableArgs m s).map Prod.snd ↔
    .var x ∈ i.args ∧ (x.isBuilder || (s.getVar m x).isObject) = true
  := by
  rw [mutableArgs, List.mem_map]
  constructor
  · rintro ⟨⟨k, l⟩, hmem, rfl⟩
    obtain ⟨⟨o, k'⟩, ho, hmap⟩ := List.mem_filterMap.1 hmem
    obtain ⟨l', hl, heq⟩ := Option.map_eq_some_iff.1 hmap
    cases heq
    obtain rfl := eq_var_of_mutable? hl
    use List.fst_mem_of_mem_zipIdx ho
    rw [mutable?] at hl
    split at hl
    · assumption
    · cases hl
  · rintro ⟨harg, hchanges⟩
    obtain ⟨k, hk⟩ := List.getElem?_of_mem harg
    use (k, x)
    constructor
    · apply List.mem_filterMap.2
      use (.var x, k), List.mem_zipIdx_iff_getElem?.2 hk
      rw [Option.map_eq_some_iff]
      use x, if_pos hchanges
    · rfl

/-- A local that is forgotten once stays forgotten. -/
theorem getVar_foldl_forget (l : List (Nat × Local)) (t : Store) :
  (l.foldl (fun t a => t.setVar m a.2 .unknown) t).getVar m x =
    if x ∈ l.map Prod.snd then .unknown else t.getVar m x
  := by
  induction l generalizing t with
  | nil => rfl
  | cons a l ih =>
      rw [List.foldl_cons, ih, Store.getVar_setVar, List.map_cons]
      by_cases ha : x = a.2
      · simp [ha]
      · simp only [List.mem_cons, ha, and_false, false_or, if_false]

theorem effect_of_unfollowed (hop : LibraryCall.ofInvoke? i = none) :
  i.effect m s = {}
  := by
  rw [effect, hop]

/-- What is known of a local after a call that is not followed. -/
theorem getVar_apply_of_unfollowed (hop : LibraryCall.ofInvoke? i = none) :
  (i.apply m s).getVar m x =
    if .var x ∈ i.args ∧ (x.isBuilder || (s.getVar m x).isObject) = true then .unknown
    else s.getVar m x
  := by
  rw [apply, effect_of_unfollowed hop, hop]
  simp only [Option.isSome_none, Bool.false_eq_true, if_false]
  rw [getVar_foldl_forget]
  simp only [mem_map_snd_mutableArgs]

end Invoke

theorem Value.withField_ne_unknown {v : Value} (h : v.isObject) (f : FieldSig) (w : Value) :
  v.withField f w ≠ .unknown
  := by
  cases v with
  | object type fields => nofun
  | unknown => cases h
  | str s => cases h
  | cls name => cases h
  | null => cases h

/-- To write an unknown value makes no other local unknown. -/
theorem Place.getVar_write_unknown_iff {place : Place} {m : MethodSig} {t : Store} {x : Local} :
  (place.write m .unknown t).getVar m x = .unknown ↔
    place = .var x ∨ t.getVar m x = .unknown
  := by
  cases place with
  | var l =>
      by_cases hx : x = l
      · simp [write, hx]
      · simp [write, hx, Ne.symm hx]
  | staticField f => simp [write]
  | arrayElement base => simp [write]
  | instanceField base f =>
      rw [write]
      split
      · next hobject =>
        -- The object loses the field and is still known.
        by_cases hx : x = base
        · subst hx
          have hknown : t.getVar m x ≠ .unknown := by
            intro heq
            rw [heq] at hobject
            cases hobject
          simp [Value.withField_ne_unknown hobject, hknown]
        · simp [hx]
      · simp

/-- A call that is not followed forgets the builders among its arguments.  Of any other builder,
its receiver included, it forgets nothing but what its result replaces. -/
theorem Stmt.getVar_apply_unfollowed_iff {stmt : Stmt} {i : Invoke}
    (hinvoke : stmt.invoke? = some i) (hop : LibraryCall.ofInvoke? i = none) (v : View)
    (m : MethodSig) (s : Store) {x : Local} (hx : x.isBuilder) :
  (stmt.apply v m s).getVar m x = .unknown ↔
    .var x ∈ i.args ∨ stmt.resultLocal? = some x ∨ s.getVar m x = .unknown
  := by
  have hcall : (i.apply m s).getVar m x = .unknown ↔
      .var x ∈ i.args ∨ s.getVar m x = .unknown := by
    rw [Invoke.getVar_apply_of_unfollowed hop]
    by_cases harg : .var x ∈ i.args
    · simp [harg, hx]
    · simp [harg]
  cases stmt with
  | invoke j =>
      obtain rfl := Option.some.inj hinvoke
      simp [apply, resultLocal?, hcall]
  | assign place e =>
      cases e with
      | invoke j =>
          obtain rfl := Option.some.inj hinvoke
          have hresult : (Expr.invoke j).eval v m s = .unknown := by
            rw [Expr.eval, Invoke.effect_of_unfollowed hop]
          rw [apply, hresult, Expr.apply, Place.getVar_write_unknown_iff, hcall]
          cases place with
          | var l => simp [resultLocal?, or_left_comm]
          | staticField f => simp [resultLocal?]
          | instanceField base f => simp [resultLocal?]
          | arrayElement base => simp [resultLocal?]
      | operand o => cases hinvoke
      | staticField f => cases hinvoke
      | instanceField base f => cases hinvoke
      | new c => cases hinvoke
      | uninterpreted source => cases hinvoke
  | identity l source => cases hinvoke
  | ret value => cases hinvoke
  | retVoid => cases hinvoke
  | goto target => cases hinvoke
  | branch operands target => cases hinvoke
  | switch key targets default => cases hinvoke
  | throw value => cases hinvoke
  | nop => cases hinvoke

/-! ### Builders that change out of sight -/

namespace OutOfSight

def builder : Local := ⟨"b", .object .stringBuilder⟩
def other : Local := ⟨"c", .object .stringBuffer⟩
def main : MethodSig := ⟨⟨"A"⟩, "main", [], .void⟩

/-- Both builders hold a text. -/
def before : Store :=
  (Store.empty.setVar main builder (.str "ab")).setVar main other (.str "cd")

/-- A call of a method of string builders. -/
def call (name : String) (params : List Ty) (args : List Operand) : Invoke where
  kind := .virtual
  method := ⟨.stringBuilder, name, params, .object .stringBuilder⟩
  receiver := some builder
  args := args

def reverse : Invoke := call "reverse" [] []

/-- A part of the other builder is appended. -/
def appendPart : Invoke :=
  call "append" [.object ⟨"java.lang.CharSequence"⟩, .primitive .int, .primitive .int]
    [.var other, .const (.int 0), .const (.int 1)]

/-- The call reverses the text of its receiver, and the receiver keeps the old text. -/
theorem receiver_keeps_text :
  (Stmt.invoke reverse).invoke? = some reverse ∧ LibraryCall.ofInvoke? reverse = none ∧
  builder.isBuilder = true ∧ reverse.receiver = some builder ∧
  ((Stmt.invoke reverse).apply (View.ofList []) main before).getVar main builder = .str "ab"
  := by
  decide

/-- The builder among the arguments is forgotten, the receiver is not. -/
theorem argument_forgotten_receiver_kept :
  let stmt : Stmt := .invoke appendPart
  let after := stmt.apply (View.ofList []) main before
  stmt.invoke? = some appendPart ∧ LibraryCall.ofInvoke? appendPart = none ∧
  other.isBuilder = true ∧ after.getVar main other = .unknown ∧
  builder.isBuilder = true ∧ after.getVar main builder ≠ .unknown
  := by
  have hop : LibraryCall.ofInvoke? appendPart = none := by decide
  refine ⟨rfl, hop, by decide, ?_, by decide, ?_⟩
  · apply (Stmt.getVar_apply_unfollowed_iff rfl hop (View.ofList []) main before (by decide)).2
    apply Or.inl List.mem_cons_self
  · intro hunknown
    have hwhy := (Stmt.getVar_apply_unfollowed_iff rfl hop (View.ofList []) main before
      (x := builder) (by decide)).1 hunknown
    revert hwhy
    decide

end OutOfSight

end ServiceFlow
