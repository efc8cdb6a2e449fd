import Mathlib.Logic.Function.Basic
import Mathlib.Logic.Relation
import Mathlib.Data.List.Forall2
import Mathlib.Data.List.Nodup
import Mathlib.Data.List.TakeWhile
import ServiceFlow.Proofs.Program.Supergraph
import ServiceFlow.Propagation.LibraryCall
import ServiceFlow.Value.ClassLiteral

/-!
# A machine for immutable programs

A machine with a stack of activations runs the methods of a supergraph.  Every activation has its
own locals, of which those of the parameters are bound on entry; the static fields are common to
all.  What the machine leaves open it may choose: which branch is taken, what an expression without
meaning yields, and what comes back from an invocation that enters no method.

A program is immutable if nothing that it hands around can change: it makes and writes no objects,
and does not accumulate text in builders.
-/

namespace ServiceFlow

/-! ### States -/

/-- A value at run time.  Numbers, arrays and instances are told apart, and nothing more. -/
inductive Datum where
  | str (s : String)
  | cls (name : String)
  | null
  | other (id : Nat)
deriving DecidableEq, Inhabited

/-- One run of a method: the statement it is at, its locals, and what it was handed. -/
structure Activation where
  point : StmtId
  locals : Local → Datum
  origins : Origin → Datum

/-- The running activation, the activations that wait for a call to end, the innermost first, and
the static fields. -/
structure Machine where
  top : Activation
  callers : List Activation
  statics : FieldSig → Datum

namespace Machine

/-- Control goes to another statement of the running method. -/
def moveTo (M : Machine) (q : StmtId) : Machine := { M with top := { M.top with point := q } }

/-- A value is stored at a place.  Objects and arrays are not modelled. -/
def write (M : Machine) (d : Datum) : Place → Machine
  | .var l => { M with top := { M.top with locals := Function.update M.top.locals l d } }
  | .staticField f => { M with statics := Function.update M.statics f d }
  | .instanceField _ _ => M
  | .arrayElement _ => M

/-- The result of a call arrives at the statement of the call. -/
def deliver (M : Machine) (d : Datum) : Stmt → Machine
  | .assign place _ => M.write d place
  | _ => M

end Machine

/-! ### Values -/

/-- The values of a literal; any value will do for a number. -/
def Constant.Yields : Constant → Datum → Prop
  | .string s, d => d = .str s
  | .cls name, d => d = .cls name
  | .null, d => d = .null
  | _, _ => True

def Operand.Yields (a : Activation) : Operand → Datum → Prop
  | .var l, d => d = a.locals l
  | .const c, d => c.Yields d

/-- The result of a library call on a receiver and a first argument, where it is determined. -/
def LibraryCall.result? : LibraryCall → Option Datum → Option Datum → Option Datum
  | .classForName, _, some (.str s) => some (.cls s)
  | .canonicalName, some (.cls name), _ => some (.str (ClassLiteral.canonical name))
  | .simpleName, some (.cls name), _ => some (.str (ClassLiteral.simple name))
  | .stringConcat, some (.str s), some (.str t) => some (.str (s ++ t))
  | _, _, _ => none

/-- The results of an invocation that enters no method. -/
def Invoke.Yields (a : Activation) (i : Invoke) (d : Datum) : Prop :=
  ∃ args, List.Forall₂ (Operand.Yields a) i.args args ∧
    ∀ op r, LibraryCall.ofInvoke? i = some op →
      op.result? (i.receiver.map a.locals) args.head? = some r → d = r

/-- The values of an expression; an expression without meaning may have any. -/
def Expr.Yields (a : Activation) (statics : FieldSig → Datum) : Expr → Datum → Prop
  | .operand o, d => o.Yields a d
  | .staticField f, d => d = statics f
  | .invoke i, d => i.Yields a d
  | .instanceField _ _, _ => True
  | .new _, _ => True
  | .uninterpreted _, _ => True

/-! ### Steps -/

/-- The local and the origin of an identity statement. -/
def Stmt.identity? : Stmt → Option (Local × Origin)
  | .identity l o => some (l, o)
  | _ => none

/-- The statement changes no local and no field unless it enters a method. -/
def Stmt.isSilent : Stmt → Bool
  | .invoke _ => true
  | .goto _ => true
  | .branch _ _ => true
  | .switch _ _ _ => true
  | .nop => true
  | _ => false

namespace Body

/-- The bindings of the identity statements. -/
def identities (b : Body) : List (Local × Origin) := b.stmts.filterMap Stmt.identity?

/-- The origin that a local is bound to. -/
def originOf? (b : Body) (l : Local) : Option Origin :=
  (b.identities.find? (fun e => e.1 = l)).map Prod.snd

end Body

/-- The activation is at the start of a method, with the locals of its origins bound. -/
structure Activation.Begins (g : Supergraph) (m : MethodSig) (a : Activation) : Prop where
  start : a.point ∈ g.starts m
  bound : ∀ b, g.view.body? m = some b → ∀ l o, b.originOf? l = some o → a.locals l = a.origins o

/-- One step of the machine. -/
inductive Machine.Step (g : Supergraph) : Machine → Machine → Prop where
  /-- An identity statement binds its local. -/
  | bind {M : Machine} {l : Local} {o : Origin} {next : StmtId}
      (hstmt : g.view.stmt? M.top.point = some (.identity l o))
      (hnext : next ∈ g.successors M.top.point) :
      Step g M ((M.write (M.top.origins o) (.var l)).moveTo next)
  /-- An assignment that enters no method. -/
  | assign {M : Machine} {place : Place} {e : Expr} {d : Datum} {next : StmtId}
      (hstmt : g.view.stmt? M.top.point = some (.assign place e))
      (hcallees : g.callees M.top.point = [])
      (hvalue : e.Yields M.top M.statics d) (hnext : next ∈ g.successors M.top.point) :
      Step g M ((M.write d place).moveTo next)
  /-- A statement that only hands on control. -/
  | skip {M : Machine} {stmt : Stmt} {next : StmtId}
      (hstmt : g.view.stmt? M.top.point = some stmt) (hsilent : stmt.isSilent)
      (hcallees : g.callees M.top.point = []) (hnext : next ∈ g.successors M.top.point) :
      Step g M (M.moveTo next)
  /-- An invocation enters a method and hands over its arguments. -/
  | call {M : Machine} {stmt : Stmt} {i : Invoke} {callee : MethodSig} {args : List Datum}
      {a : Activation}
      (hstmt : g.view.stmt? M.top.point = some stmt) (hinvoke : stmt.invoke? = some i)
      (hcallee : callee ∈ g.callees M.top.point)
      (hargs : List.Forall₂ (Operand.Yields M.top) i.args args)
      (hbegins : a.Begins g callee)
      (hparams : ∀ index d, args[index.toNat]? = some d → a.origins (.parameter index) = d) :
      Step g M ⟨a, M.top :: M.callers, M.statics⟩
  /-- The running method ends, and its caller takes the result. -/
  | ret {top a : Activation} {callers : List Activation} {statics : FieldSig → Datum}
      {exit stmt : Stmt} {d : Datum} {next : StmtId}
      (hexit : g.view.stmt? top.point = some exit) (hreturn : exit.isReturn)
      (hvalue : ∀ o, exit = .ret o → o.Yields top d)
      (hstmt : g.view.stmt? a.point = some stmt) (hnext : next ∈ g.successors a.point) :
      Step g ⟨top, a :: callers, statics⟩ ((deliver ⟨a, callers, statics⟩ d stmt).moveTo next)

/-- Any number of steps. -/
abbrev Machine.Steps (g : Supergraph) : Machine → Machine → Prop :=
  Relation.ReflTransGen (Machine.Step g)

/-! ### Immutable programs -/

/-- The offsets that a statement jumps to. -/
def Stmt.jumps : Stmt → List Nat
  | .goto target => [target.toNat]
  | .branch _ target => [target.toNat]
  | .switch _ targets default => targets.map UInt32.toNat ++ [default.toNat]
  | _ => []

def Local.isBuilder (l : Local) : Bool := l.type.className?.elim false ClassName.isBuilder

/-- A library call on strings and classes, or a static call of another method that is handed no
builder. -/
def Invoke.isImmutable (i : Invoke) : Bool :=
  match LibraryCall.ofInvoke? i with
  | some .classForName => true
  | some .canonicalName => true
  | some .simpleName => true
  | some .stringConcat => true
  | some _ => false
  | none =>
      i.kind = .static && i.receiver.isNone && i.args.all (fun o => o.var?.all (!·.isBuilder))

def Expr.isImmutable : Expr → Bool
  | .new _ => false
  | .invoke i => i.isImmutable
  | _ => true

/-- A local or a static field. -/
def Place.isImmutable : Place → Bool
  | .var _ => true
  | .staticField _ => true
  | _ => false

def Stmt.isImmutable : Stmt → Bool
  | .assign place e => place.isImmutable && e.isImmutable
  | .invoke i => i.isImmutable
  | _ => true

/-- How many identity statements come first. -/
def Body.prologue (b : Body) : Nat := (b.stmts.takeWhile (fun s => s.identity?.isSome)).length

/-- The statements are immutable, and the identity statements come first, are no targets of jumps
and bind different locals. -/
structure Body.IsImmutable (b : Body) : Prop where
  stmts : ∀ s ∈ b.stmts, s.isImmutable
  identities : ∀ s ∈ b.stmts.drop b.prologue, s.identity? = none
  jumps : ∀ s ∈ b.stmts, ∀ t ∈ s.jumps, b.prologue ≤ t
  distinct : (b.identities.map Prod.fst).Nodup

instance (b : Body) : Decidable b.IsImmutable :=
  decidable_of_iff
    ((∀ s ∈ b.stmts, s.isImmutable) ∧ (∀ s ∈ b.stmts.drop b.prologue, s.identity? = none) ∧
      (∀ s ∈ b.stmts, ∀ t ∈ s.jumps, b.prologue ≤ t) ∧ (b.identities.map Prod.fst).Nodup)
    ⟨fun h => ⟨h.1, h.2.1, h.2.2.1, h.2.2.2⟩, fun h => ⟨h.1, h.2, h.3, h.4⟩⟩

/-- All bodies of the view are immutable. -/
def View.IsImmutable (v : View) : Prop := ∀ m ∈ v.methods, ∀ b ∈ m.body, b.IsImmutable

instance (v : View) : Decidable v.IsImmutable :=
  inferInstanceAs (Decidable (∀ m ∈ v.methods, ∀ b ∈ m.body, b.IsImmutable))

namespace View.IsImmutable

variable {v : View}

theorem body (h : v.IsImmutable) {m : MethodSig} {b : Body} (hb : v.body? m = some b) :
  b.IsImmutable
  := by
  obtain ⟨d, hd, _, hbody⟩ := View.exists_method_of_body? hb
  apply h d hd b hbody

theorem stmt (h : v.IsImmutable) {q : StmtId} {stmt : Stmt} (hstmt : v.stmt? q = some stmt) :
  stmt.isImmutable
  := by
  obtain ⟨b, hb, hget⟩ := View.stmt?_eq_some hstmt
  apply (h.body hb).stmts _ (List.mem_of_getElem? hget)

end View.IsImmutable

theorem Stmt.isImmutable_invoke {stmt : Stmt} (h : stmt.isImmutable) {i : Invoke}
    (hi : stmt.invoke? = some i) :
  i.isImmutable
  := by
  unfold invoke? at hi
  split at hi
  · obtain rfl := Option.some.inj hi
    apply h
  · obtain rfl := Option.some.inj hi
    apply (Bool.and_eq_true_iff.1 h).2
  · cases hi

/-! ### The identity statements -/

namespace Body

variable {b : Body}

theorem mem_identities {l : Local} {o : Origin} (h : .identity l o ∈ b.stmts) :
  (l, o) ∈ b.identities
  := by
  apply List.mem_filterMap.2
  use .identity l o, h
  rfl

/-- A local that is bound once has the origin it is bound to. -/
theorem IsImmutable.originOf? (hb : b.IsImmutable) {l : Local} {o : Origin}
    (h : .identity l o ∈ b.stmts) :
  b.originOf? l = some o
  := by
  have hmem := mem_identities h
  rw [Body.originOf?, Option.map_eq_some_iff]
  obtain ⟨e, he⟩ : ∃ e, b.identities.find? (fun e => e.1 = l) = some e := by
    rw [← Option.isSome_iff_exists, List.find?_isSome]
    use (l, o), hmem
    simp
  use e, he
  have hl : e.1 = l := by simpa using List.find?_some he
  have heq : e = (l, o) :=
    List.inj_on_of_nodup_map hb.distinct (List.mem_of_find?_eq_some he) hmem hl
  rw [heq]

/-- The identity statements are those of the prologue. -/
theorem IsImmutable.lt_prologue (hb : b.IsImmutable) {k : Nat} {stmt : Stmt}
    (h : b.stmts[k]? = some stmt) (hid : stmt.identity? ≠ none) :
  k < b.prologue
  := by
  by_contra hk
  apply hid
  apply hb.identities
  apply List.mem_of_getElem? (i := k - b.prologue)
  rw [List.getElem?_drop, Nat.add_sub_cancel' (Nat.le_of_not_lt hk), h]

theorem identity_of_lt_prologue {k : Nat} {stmt : Stmt} (h : b.stmts[k]? = some stmt)
    (hk : k < b.prologue) :
  stmt.identity? ≠ none
  := by
  have hget : (b.stmts.takeWhile (fun s => s.identity?.isSome))[k]? = some stmt := by
    rw [← h, ← List.getElem?_append_left hk, List.takeWhile_append_dropWhile]
  have hsome := List.mem_takeWhile_imp (List.mem_of_getElem? hget)
  apply Option.isSome_iff_ne_none.1 hsome

theorem mem_rawSuccessors {k next : Nat} {stmt : Stmt} (h : next ∈ rawSuccessors k stmt) :
  next = k + 1 ∨ next ∈ stmt.jumps
  := by
  unfold rawSuccessors at h
  split at h
  all_goals simp_all [Stmt.jumps]

/-- No statement behind the prologue leads back into it. -/
theorem IsImmutable.successors (hb : b.IsImmutable) {k next : Nat} {stmt : Stmt}
    (hstmt : b.stmts[k]? = some stmt) (hid : stmt.identity? = none)
    (hnext : next ∈ b.successors k) :
  b.prologue ≤ next
  := by
  rw [Body.successors, hstmt] at hnext
  have hraw := (List.mem_filter.1 (mem_of_mem_dropRepeats hnext)).1
  rcases mem_rawSuccessors hraw with rfl | hjump
  · have hk : ¬k < b.prologue := fun hk => identity_of_lt_prologue hstmt hk hid
    omega
  · apply hb.jumps stmt (List.mem_of_getElem? hstmt) next hjump

end Body

end ServiceFlow
