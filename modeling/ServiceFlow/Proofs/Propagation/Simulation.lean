import ServiceFlow.Proofs.Program.Reachability
import ServiceFlow.Proofs.Propagation.Description
import ServiceFlow.Proofs.Propagation.Run

/-!
# Soundness of constant propagation

The flows of constant propagation follow every step of the machine on immutable programs: for each
configuration that describes the machine there is a step to one that describes it afterwards.
Hence some fact that a run finds at a statement is true whenever the machine gets there.
-/

namespace ServiceFlow

/-! ### The locals of parameters -/

namespace Body

variable {b : Body} {l : Local}

theorem boundLocal?_eq_some {o : Origin} (h : b.boundLocal? o = some l) :
  .identity l o ∈ b.stmts
  := by
  obtain ⟨stmt, hmem, hstmt⟩ := List.exists_of_findSome?_eq_some h
  cases stmt with
  | identity k source =>
      obtain ⟨rfl, rfl⟩ : source = o ∧ k = l := by simpa using hstmt
      apply hmem
  | _ => cases hstmt

theorem parameterLocal?_eq_some {k : Nat} (h : b.parameterLocal? k = some l) :
  ∃ index : UInt64, index.toNat = k ∧ .identity l (.parameter index) ∈ b.stmts
  := by
  rw [parameterLocal?] at h
  split at h
  · next hk =>
    use UInt64.ofNat k
    constructor
    · apply UInt64.toNat_ofNat_of_lt' hk
    · apply boundLocal?_eq_some h
  · cases h

end Body

theorem View.frame_params {v : View} {m : MethodSig} {k : Nat} {p : Param}
    (h : (v.frame m).params[k]? = some (some p)) :
  ∃ b, v.body? m = some b ∧ b.parameterLocal? k = some p.var
  := by
  rw [frame] at h
  cases hb : v.body? m with
  | none =>
      rw [hb] at h
      cases h
  | some b =>
      rw [hb] at h
      use b, rfl
      obtain ⟨k', hk', hlocal⟩ := Option.map_eq_some_iff.1 (List.getElem?_map.symm.trans h)
      obtain ⟨l, hl, rfl⟩ := Option.map_eq_some_iff.1 hlocal
      obtain ⟨_, rfl⟩ := List.getElem?_eq_some_iff.1 hk'
      rw [List.getElem_range] at hl
      apply hl

/-! ### Calls -/

namespace Propagation

variable {g : Supergraph} {site : StmtId} {callee : MethodSig} {s : Store}

theorem getStatic_bindArgs (i : Invoke) (f : Frame) (t : Store) (h : FieldSig) :
  (bindArgs site callee s i f t).getStatic h = t.getStatic h
  := by
  rw [bindArgs]
  induction i.args.zip f.params generalizing t with
  | nil => rfl
  | cons e rest ih =>
      rw [List.foldl_cons, ih]
      split
      · apply Store.getStatic_setVar
      · rfl

/-- The locals of a called method are described if the arguments describe its parameters. -/
theorem describes_bindArgs {i : Invoke} {f : Frame} {t : Store} {locals : Local → Datum}
    (ht : ∀ l, (t.getVar callee l).Describes (locals l))
    (hargs : ∀ o p, (o, some p) ∈ i.args.zip f.params →
      (o.eval site.method s).Describes (locals p.var)) (l : Local) :
  ((bindArgs site callee s i f t).getVar callee l).Describes (locals l)
  := by
  rw [bindArgs]
  revert hargs
  generalize i.args.zip f.params = pairs
  intro hargs
  induction pairs generalizing t with
  | nil => apply ht
  | cons e rest ih =>
      obtain ⟨o, p⟩ := e
      rw [List.foldl_cons]
      apply ih
      · intro k
        cases p with
        | none => apply ht
        | some p =>
            rw [Store.getVar_setVar]
            split
            · next h =>
              rw [h.2]
              apply hargs o p List.mem_cons_self
            · apply ht
      · intro o p h
        apply hargs o p (List.mem_cons_of_mem _ h)

/-- What is known at the start of a called method describes the machine that entered it. -/
theorem describes_enterWith (hv : g.view.IsImmutable) {M : Machine} (hs : s.Describes M)
    {i : Invoke} (hreceiver : i.receiver = none) {args : List Datum}
    (hargs : List.Forall₂ (Operand.Yields M.top) i.args args) {a : Activation}
    (hbegins : a.Begins g callee)
    (hparams : ∀ index d, args[index.toNat]? = some d → a.origins (.parameter index) = d)
    (callers : List Activation) :
  (enterWith g M.top.point callee s i).Describes ⟨a, callers, M.statics⟩
  := by
  have hmethod : a.point.method = callee := by rw [Supergraph.mem_starts hbegins.start]
  simp only [enterWith, bindThis, hreceiver]
  constructor
  · intro l
    rw [hmethod]
    apply describes_bindArgs
    · intro k
      rw [Store.getVar_statics]
      trivial
    · intro o p hmem
      -- The argument at an index meets the local of the parameter with that index.
      obtain ⟨k, hk⟩ := List.mem_iff_getElem?.1 hmem
      obtain ⟨ho, hp⟩ := List.getElem?_zip_eq_some.1 hk
      obtain ⟨b, hb, hlocal⟩ := View.frame_params hp
      obtain ⟨index, rfl, hid⟩ := Body.parameterLocal?_eq_some hlocal
      obtain ⟨d, hd, hyields⟩ := exists_getElem?_of_forall₂ hargs ho
      rw [hbegins.bound b hb _ _ ((hv.body hb).originOf? hid), hparams index d hd]
      apply Operand.describes_eval hs.locals hyields
  · intro f
    rw [getStatic_bindArgs, Store.getStatic_statics]
    apply hs.statics

/-! ### Returns -/

@[simp] theorem getVar_resume (caller ended : Store) (m : MethodSig) (l : Local) :
  (resume caller ended).getVar m l = caller.getVar m l
  := by
  rw [resume, Store.foldl_setStatic_staticEntries, Store.getVar, Store.get_overlay,
    ← Store.getVar, ← Store.getVar, Store.getVar_statics, Store.getVar_locals]
  rfl

@[simp] theorem getStatic_resume (caller ended : Store) (f : FieldSig) :
  (resume caller ended).getStatic f = ended.getStatic f
  := by
  rw [resume, Store.foldl_setStatic_staticEntries, Store.getStatic, Store.get_overlay,
    ← Store.getStatic, ← Store.getStatic, Store.getStatic_statics, Store.getStatic_locals]
  split
  · rfl
  · next h => rw [Value.isKnown_eq_false h]

theorem describes_returned {M : Machine} (hs : s.Describes M) {exit : Stmt}
    (hexit : g.view.stmt? M.top.point = some exit) {d : Datum}
    (hvalue : ∀ o, exit = .ret o → o.Yields M.top d) :
  (returned g M.top.point.method M.top.point s).Describes d
  := by
  rw [returned, hexit]
  cases exit with
  | ret o => apply Operand.describes_eval hs.locals (hvalue o rfl)
  | _ => trivial

/-- Nothing that a call was handed is written back. -/
theorem returnObjects_eq_self {caller ended : Store} {a : Activation}
    (hlocals : ∀ l, (caller.getVar site.method l).Describes (a.locals l)) {stmt : Stmt}
    {i : Invoke} (hinvoke : stmt.invoke? = some i) (hi : i.isImmutable)
    (hop : LibraryCall.ofInvoke? i = none) (t : Store) :
  returnObjects g site callee caller ended stmt t = t
  := by
  have hreceiver := (Invoke.not_isBuilder_of_isImmutable hi hop).1
  rw [returnObjects, hinvoke]
  simp only [returnArgs, Invoke.mutableArgs_eq_nil hlocals hi hop, returnThis, hreceiver,
    List.foldl_nil]

/-- What is known behind a call describes the machine that came back from it. -/
theorem describes_returnWith {top a : Activation} {callers : List Activation}
    {statics : FieldSig → Datum} {caller ended : Store}
    (hlocals : ∀ l, (caller.getVar a.point.method l).Describes (a.locals l))
    (hended : ended.Describes ⟨top, a :: callers, statics⟩) {exit stmt : Stmt}
    (hexit : g.view.stmt? top.point = some exit) {d : Datum}
    (hvalue : ∀ o, exit = .ret o → o.Yields top d) {i : Invoke}
    (hinvoke : stmt.invoke? = some i) (himmutable : stmt.isImmutable)
    (hop : LibraryCall.ofInvoke? i = none) :
  (returnWith g a.point top.point.method top.point caller ended stmt).Describes
    (Machine.deliver ⟨a, callers, statics⟩ d stmt)
  := by
  have hresume : (resume caller ended).Describes ⟨a, callers, statics⟩ := by
    constructor
    · intro l
      rw [getVar_resume]
      apply hlocals
    · intro f
      rw [getStatic_resume]
      apply hended.statics
  have hd := describes_returned hended hexit hvalue
  rw [returnWith, returnObjects_eq_self hlocals hinvoke
    (Stmt.isImmutable_invoke himmutable hinvoke) hop]
  cases stmt with
  | assign place e => apply hresume.write hd (Bool.and_eq_true_iff.1 himmutable).1
  | _ => apply hresume

end Propagation

/-! ### The simulation -/

namespace Machine

@[simp] theorem callers_write (M : Machine) (d : Datum) (place : Place) :
  (M.write d place).callers = M.callers
  := by
  cases place with
  | _ => rfl

@[simp] theorem point_write (M : Machine) (d : Datum) (place : Place) :
  (M.write d place).top.point = M.top.point
  := by
  cases place with
  | _ => rfl

@[simp] theorem callers_deliver (M : Machine) (d : Datum) (stmt : Stmt) :
  (M.deliver d stmt).callers = M.callers
  := by
  cases stmt with
  | assign place e => apply callers_write
  | _ => rfl

@[simp] theorem point_deliver (M : Machine) (d : Datum) (stmt : Stmt) :
  (M.deliver d stmt).top.point = M.top.point
  := by
  cases stmt with
  | assign place e => apply point_write
  | _ => rfl

end Machine

/-- The activation waits at a call that is open in a configuration. -/
structure Activation.Waits (g : Supergraph) (a : Activation)
    (o : Tabulation.OpenCall MethodSig Store) : Prop where
  site : o.site = a.point
  entered : ∃ callee, callee ∈ g.callees a.point
  locals : ∀ l, (o.fact.getVar a.point.method l).Describes (a.locals l)

/-- The locals of the origins are untouched as long as identity statements are executed. -/
def Activation.IsBound (v : View) (a : Activation) : Prop :=
  ∀ b, v.body? a.point.method = some b → a.point.offset < b.prologue →
    ∀ l o, b.originOf? l = some o → a.locals l = a.origins o

/-- The configuration describes the machine. -/
structure Simulates (g : Supergraph) (M : Machine)
    (c : Tabulation.Config MethodSig Store) : Prop where
  point : c.point = M.top.point
  fact : c.fact.Describes M
  callers : List.Forall₂ (Activation.Waits g) M.callers c.stack
  bound : M.top.IsBound g.view

/-- Some step along the flows leads to a configuration that describes the machine. -/
def Follows (g : Supergraph) (entry : MethodSig) (seeds : Store)
    (c : Tabulation.Config MethodSig Store) (M : Machine) : Prop :=
  ∃ c', Tabulation.Step (Propagation.flowGraph g) (Propagation.problem g entry seeds) c c' ∧
    Simulates g M c'

section Simulation

variable {v : View} {entries : List MethodSig} {t : LoadTarget} {g : Supergraph}
  {entry : MethodSig} {seeds : Store}

theorem isBound_of_begins {m : MethodSig} {a : Activation} (h : a.Begins g m) :
  a.IsBound g.view
  := by
  intro b hb _
  apply h.bound b
  rw [Supergraph.mem_starts h.start] at hb
  apply hb

/-- Behind the identity statements nothing is asked of the locals any more. -/
theorem isBound_of_successor (hv : g.view.IsImmutable) {q : StmtId} {stmt : Stmt}
    (hstmt : g.view.stmt? q = some stmt) (hid : stmt.identity? = none) {a : Activation}
    (hnext : a.point ∈ g.successors q) :
  a.IsBound g.view
  := by
  intro b hb hlt
  obtain ⟨b', hb', hmethod, hoffset⟩ := Supergraph.mem_successors hnext
  obtain ⟨b'', hb'', hget⟩ := View.stmt?_eq_some hstmt
  rw [hmethod, hb'] at hb
  rw [hb'] at hb''
  obtain rfl := Option.some.inj hb
  obtain rfl := Option.some.inj hb''
  have hle := (hv.body hb').successors hget hid hoffset
  omega

/-- An identity statement binds its local to what it holds already. -/
theorem write_eq_self_of_identity (hv : g.view.IsImmutable) {M : Machine}
    (hbound : M.top.IsBound g.view) {l : Local} {o : Origin}
    (hstmt : g.view.stmt? M.top.point = some (.identity l o)) :
  M.write (M.top.origins o) (.var l) = M
  := by
  obtain ⟨b, hb, hget⟩ := View.stmt?_eq_some hstmt
  have hlt := (hv.body hb).lt_prologue hget nofun
  have horigin := (hv.body hb).originOf? (List.mem_of_getElem? hget)
  have hlocal := hbound b hb hlt l o horigin
  rw [Machine.write, ← hlocal, Function.update_eq_self]

/-- Where no method is entered, facts flow through the statement, be it a call or not. -/
theorem step_after {q next : StmtId} {s : Store}
    {stack : List (Tabulation.OpenCall MethodSig Store)} {stmt : Stmt}
    (hstmt : g.view.stmt? q = some stmt) (hreturn : stmt.isReturn = false)
    (hcallees : g.callees q = []) (hnext : next ∈ g.successors q) :
  Tabulation.Step (Propagation.flowGraph g) (Propagation.problem g entry seeds)
    ⟨q, s, stack⟩ ⟨next, stmt.apply g.view q.method s, stack⟩
  := by
  have hafter : Propagation.after g q s = stmt.apply g.view q.method s := by
    rw [Propagation.after, hstmt]
    rfl
  rw [← hafter]
  -- A call without callees is still a call: its facts pass it by.
  cases hcall : g.isCall q with
  | true =>
      have hpass : Propagation.mayReturn g q = false := by
        rw [Propagation.mayReturn, hcallees]
        rfl
      apply Tabulation.Step.pass hcall hnext
      simp [Propagation.problem, hpass]
  | false =>
      have hexit : g.isExit q = false := by
        rw [Supergraph.isExit, hstmt]
        apply hreturn
      apply Tabulation.Step.normal hcall hexit hnext
      apply List.mem_singleton_self

theorem isBound_moveTo_of_identity (hv : g.view.IsImmutable) {M : Machine}
    (hbound : M.top.IsBound g.view) {l : Local} {o : Origin}
    (hstmt : g.view.stmt? M.top.point = some (.identity l o)) {next : StmtId}
    (hnext : next ∈ g.successors M.top.point) :
  (M.moveTo next).top.IsBound g.view
  := by
  obtain ⟨b', hb', hget⟩ := View.stmt?_eq_some hstmt
  obtain ⟨_, _, hmethod, _⟩ := Supergraph.mem_successors hnext
  intro b hb _
  obtain rfl : b' = b := Option.some.inj (hb'.symm.trans (hmethod ▸ hb))
  apply hbound b' hb' ((hv.body hb').lt_prologue hget nofun)

theorem simulates_moveTo {M : Machine} {s : Store} (hs : s.Describes M) {q next : StmtId}
    (hq : M.top.point = q) (hnext : next ∈ g.successors q)
    {stack : List (Tabulation.OpenCall MethodSig Store)}
    (hcallers : List.Forall₂ (Activation.Waits g) M.callers stack)
    (hbound : (M.moveTo next).top.IsBound g.view) :
  Simulates g (M.moveTo next) ⟨next, s, stack⟩
  := by
  obtain ⟨_, _, hmethod, _⟩ := Supergraph.mem_successors hnext
  use rfl
  · apply hs.moveTo
    rw [hq, hmethod]
  · apply hcallers

variable (hg : Supergraph.build v entries t.skips = .ok g)

include hg

theorem callees_eq_nil_of_not_invoke {q : StmtId} {stmt : Stmt}
    (hstmt : g.view.stmt? q = some stmt) (hinvoke : stmt.invoke? = none) :
  g.callees q = []
  := by
  rw [Supergraph.view_build hg] at hstmt
  rw [List.eq_nil_iff_forall_not_mem]
  intro callee hcallee
  have hcall := (Supergraph.callees_build hg hcallee).1
  rw [Supergraph.isCall_build hg hstmt hinvoke] at hcall
  cases hcall

/-- No library call enters a method. -/
theorem invoke_of_entered {q : StmtId} {stmt : Stmt} (hstmt : g.view.stmt? q = some stmt)
    {callee : MethodSig} (hcallee : callee ∈ g.callees q) :
  ∃ i, stmt.invoke? = some i ∧ LibraryCall.ofInvoke? i = none
  := by
  obtain ⟨_, stmt', i, hstmt', hinvoke, hskip⟩ := Supergraph.callees_build hg hcallee
  rw [Supergraph.view_build hg, hstmt'] at hstmt
  obtain rfl := Option.some.inj hstmt
  use i, hinvoke
  rw [LoadTarget.skips, Bool.or_eq_false_iff] at hskip
  have hnone := Option.isSome_eq_false_iff.1 hskip.1
  apply Option.isNone_iff_eq_none.1 hnone

variable (hv : g.view.IsImmutable)

include hv

theorem follows_bind {M : Machine} {s : Store}
    {stack : List (Tabulation.OpenCall MethodSig Store)}
    (h : Simulates g M ⟨M.top.point, s, stack⟩) {l : Local} {o : Origin} {next : StmtId}
    (hstmt : g.view.stmt? M.top.point = some (.identity l o))
    (hnext : next ∈ g.successors M.top.point) :
  Follows g entry seeds ⟨M.top.point, s, stack⟩
    ((M.write (M.top.origins o) (.var l)).moveTo next)
  := by
  use ⟨next, s, stack⟩
  constructor
  · apply step_after hstmt rfl (callees_eq_nil_of_not_invoke hg hstmt rfl) hnext
  · -- The local was bound on entry, so that the machine only moves on.
    rw [write_eq_self_of_identity hv h.bound hstmt]
    apply simulates_moveTo h.fact rfl hnext h.callers
    apply isBound_moveTo_of_identity hv h.bound hstmt hnext

omit hg in
theorem follows_assign {M : Machine} {s : Store}
    {stack : List (Tabulation.OpenCall MethodSig Store)}
    (h : Simulates g M ⟨M.top.point, s, stack⟩) {place : Place} {e : Expr} {d : Datum}
    {next : StmtId} (hstmt : g.view.stmt? M.top.point = some (.assign place e))
    (hcallees : g.callees M.top.point = []) (hvalue : e.Yields M.top M.statics d)
    (hnext : next ∈ g.successors M.top.point) :
  Follows g entry seeds ⟨M.top.point, s, stack⟩ ((M.write d place).moveTo next)
  := by
  use ⟨next, (Stmt.assign place e).apply g.view M.top.point.method s, stack⟩
  constructor
  · apply step_after hstmt rfl hcallees hnext
  · apply simulates_moveTo (h.fact.assign g.view (hv.stmt hstmt) hvalue)
      (Machine.point_write M d place) hnext
    · rw [Machine.callers_write]
      apply h.callers
    · apply isBound_of_successor hv hstmt rfl hnext

omit hg in
theorem follows_skip {M : Machine} {s : Store}
    {stack : List (Tabulation.OpenCall MethodSig Store)}
    (h : Simulates g M ⟨M.top.point, s, stack⟩) {stmt : Stmt} {next : StmtId}
    (hstmt : g.view.stmt? M.top.point = some stmt) (hsilent : stmt.isSilent)
    (hcallees : g.callees M.top.point = []) (hnext : next ∈ g.successors M.top.point) :
  Follows g entry seeds ⟨M.top.point, s, stack⟩ (M.moveTo next)
  := by
  have hfact : s.Describes M := h.fact
  use ⟨next, stmt.apply g.view M.top.point.method s, stack⟩
  constructor
  · apply step_after hstmt _ hcallees hnext
    cases stmt with
    | ret value => cases hsilent
    | retVoid => cases hsilent
    | _ => rfl
  · rw [hfact.apply_of_isSilent g.view (hv.stmt hstmt) hsilent]
    apply simulates_moveTo hfact rfl hnext h.callers
    apply isBound_of_successor hv hstmt _ hnext
    cases stmt with
    | identity l o => cases hsilent
    | _ => rfl

theorem follows_call {M : Machine} {s : Store}
    {stack : List (Tabulation.OpenCall MethodSig Store)}
    (h : Simulates g M ⟨M.top.point, s, stack⟩) {stmt : Stmt} {i : Invoke} {callee : MethodSig}
    {args : List Datum} {a : Activation}
    (hstmt : g.view.stmt? M.top.point = some stmt) (hinvoke : stmt.invoke? = some i)
    (hcallee : callee ∈ g.callees M.top.point)
    (hargs : List.Forall₂ (Operand.Yields M.top) i.args args) (hbegins : a.Begins g callee)
    (hparams : ∀ index d, args[index.toNat]? = some d → a.origins (.parameter index) = d) :
  Follows g entry seeds ⟨M.top.point, s, stack⟩ ⟨a, M.top :: M.callers, M.statics⟩
  := by
  obtain ⟨hcall, _⟩ := Supergraph.callees_build hg hcallee
  obtain ⟨i', hinvoke', hop⟩ := invoke_of_entered hg hstmt hcallee
  obtain rfl : i = i' := Option.some.inj (hinvoke.symm.trans hinvoke')
  have hi := Stmt.isImmutable_invoke (hv.stmt hstmt) hinvoke
  have hreceiver := (Invoke.not_isBuilder_of_isImmutable hi hop).1
  use ⟨a.point, Propagation.enterWith g M.top.point callee s i, ⟨M.top.point, s⟩ :: stack⟩
  constructor
  · apply Tabulation.Step.call hcall hcallee _ hbegins.start
    simp [Propagation.problem, hstmt, hinvoke]
  · use rfl
    · apply Propagation.describes_enterWith hv h.fact hreceiver hargs hbegins hparams
    · apply List.Forall₂.cons ⟨rfl, ⟨callee, hcallee⟩, h.fact.locals⟩ h.callers
    · apply isBound_of_begins hbegins

theorem follows_ret {top a : Activation} {callers : List Activation}
    {statics : FieldSig → Datum} {s : Store} {site : StmtId} {fact : Store}
    {stack : List (Tabulation.OpenCall MethodSig Store)}
    (h : Simulates g ⟨top, a :: callers, statics⟩ ⟨top.point, s, ⟨site, fact⟩ :: stack⟩)
    {exit stmt : Stmt} {d : Datum} {next : StmtId}
    (hexit : g.view.stmt? top.point = some exit) (hreturn : exit.isReturn)
    (hvalue : ∀ o, exit = .ret o → o.Yields top d)
    (hstmt : g.view.stmt? a.point = some stmt) (hnext : next ∈ g.successors a.point) :
  Follows g entry seeds ⟨top.point, s, ⟨site, fact⟩ :: stack⟩
    ((Machine.deliver ⟨a, callers, statics⟩ d stmt).moveTo next)
  := by
  obtain ⟨hwaits, hcallers⟩ := List.forall₂_cons.1 h.callers
  obtain ⟨rfl, ⟨callee, hcallee⟩, hlocals⟩ := hwaits
  obtain ⟨i, hinvoke, hop⟩ := invoke_of_entered hg hstmt hcallee
  have hcall : g.isCall top.point = false := by
    apply Supergraph.isCall_build hg (Supergraph.view_build hg ▸ hexit)
    cases exit with
    | ret value => rfl
    | retVoid => rfl
    | _ => cases hreturn
  have hends : g.isExit top.point = true := by
    rw [Supergraph.isExit, hexit]
    apply hreturn
  use ⟨next, Propagation.returnWith g a.point top.point.method top.point fact s stmt, stack⟩
  constructor
  · apply Tabulation.Step.ret hcall hends hnext
    simp [Propagation.problem, hstmt]
  · apply simulates_moveTo _ (Machine.point_deliver _ d stmt) hnext
    · rw [Machine.callers_deliver]
      apply hcallers
    · apply isBound_of_successor hv hstmt _ hnext
      cases stmt with
      | identity l o => cases hinvoke
      | _ => rfl
    · apply Propagation.describes_returnWith hlocals h.fact hexit hvalue hinvoke
        (hv.stmt hstmt) hop

/-- Every step of the machine is followed by a step along the flows. -/
theorem Simulates.step {M M' : Machine} {c : Tabulation.Config MethodSig Store}
    (h : Simulates g M c) (hstep : Machine.Step g M M') :
  Follows g entry seeds c M'
  := by
  obtain ⟨q, s, stack⟩ := c
  obtain rfl : q = M.top.point := h.point
  cases hstep with
  | bind hstmt hnext => apply follows_bind hg hv h hstmt hnext
  | assign hstmt hcallees hvalue hnext => apply follows_assign hv h hstmt hcallees hvalue hnext
  | skip hstmt hsilent hcallees hnext => apply follows_skip hv h hstmt hsilent hcallees hnext
  | call hstmt hinvoke hcallee hargs hbegins hparams =>
      apply follows_call hg hv h hstmt hinvoke hcallee hargs hbegins hparams
  | ret hexit hreturn hvalue hstmt hnext =>
      cases stack with
      | nil => cases h.callers
      | cons o stack => apply follows_ret hg hv h hexit hreturn hvalue hstmt hnext

/-- Whatever the machine does, some configuration that is reached describes it. -/
theorem exists_simulates {M₀ M : Machine} (hbegins : M₀.top.Begins g entry)
    (hcallers : M₀.callers = []) (hseeds : seeds.Describes M₀) (hsteps : Machine.Steps g M₀ M) :
  ∃ c, Tabulation.Reachable (Propagation.flowGraph g) (Propagation.problem g entry seeds) c ∧
    Simulates g M c
  := by
  induction hsteps with
  | refl =>
      use ⟨M₀.top.point, seeds, []⟩
      constructor
      · apply Tabulation.Reachable.seed (e := (M₀.top.point, seeds))
        apply List.mem_map_of_mem hbegins.start
      · use rfl, hseeds
        · rw [hcallers]
          apply List.Forall₂.nil
        · apply isBound_of_begins hbegins
  | tail _ hstep ih =>
      obtain ⟨c, hreach, hsim⟩ := ih
      obtain ⟨c', hflow, hsim'⟩ := hsim.step hg hv hstep
      use c'
      constructor
      · apply hreach.steps (.single hflow)
      · apply hsim'

end Simulation

/-- Constant propagation is sound for immutable programs: if no bound cuts the run short, then
wherever the machine gets from a state that the seeds describe, some fact found there describes
it. -/
theorem Run.exists_fact_describes {v : View} (hv : v.IsImmutable) {entry : MethodSig}
    {seeds : Store} {t : LoadTarget} {l : Tabulation.Limits} {r : Run}
    (hrun : execute v entry seeds t l = .ok r) (hcut : r.state.truncated = false)
    {M₀ M : Machine} (hbegins : M₀.top.Begins r.graph entry) (hcallers : M₀.callers = [])
    (hseeds : seeds.Describes M₀) (hsteps : Machine.Steps r.graph M₀ M) :
  ∃ s ∈ r.factsAt M.top.point, s.Describes M
  := by
  have hg := (execute_eq_ok hrun).1
  have hview := Supergraph.view_build hg
  obtain ⟨⟨q, s, stack⟩, hreach, hsim⟩ :=
    exists_simulates hg (hview ▸ hv) hbegins hcallers hseeds hsteps
  use s
  constructor
  · rw [← hsim.point]
    apply mem_factsAt_of_reaches hrun hcut ⟨stack, hreach⟩
  · apply hsim.fact

namespace Choice

/-- The machine at the start of the program, with nothing set yet. -/
def started : Machine := ⟨⟨⟨main, 0⟩, fun _ => .null, fun _ => .null⟩, [], fun _ => .null⟩

theorem begins_started :
  started.top.Begins graph main
  := by
  constructor
  · apply List.mem_singleton_self
  · intro b hb l o ho
    rfl

/-- The machine inside the called method, with a value picked. -/
def picking (k : Nat) (d : Datum) : Machine :=
  ⟨⟨⟨pick, k⟩, Function.update (fun _ => .null) picked d, fun _ => .null⟩, [started.top],
    fun _ => .null⟩

theorem write_picking (k j : Nat) (d e : Datum) :
  ((picking k d).write e (.var picked)).moveTo ⟨pick, j⟩ = picking j e
  := by
  simp [picking, Machine.write, Machine.moveTo]

theorem step_call :
  Machine.Step graph started (picking 0 .null)
  := by
  have hbegins : (picking 0 .null).top.Begins graph pick := by
    constructor
    · apply List.mem_singleton_self
    · rintro _ ⟨⟩ _ _ ⟨⟩
  apply Machine.Step.call (i := ⟨.static, pick, none, []⟩) rfl rfl (List.mem_singleton_self _)
    List.Forall₂.nil hbegins
  rintro _ _ ⟨⟩

theorem step_assign {k : Nat} {e : Expr} {d d' : Datum}
    (hstmt : graph.view.stmt? ⟨pick, k⟩ = some (.assign (.var picked) e))
    (hvalue : e.Yields (picking k d).top (fun _ => .null) d')
    (hnext : ⟨pick, k + 1⟩ ∈ graph.successors ⟨pick, k⟩) :
  Machine.Step graph (picking k d) (picking (k + 1) d')
  := by
  rw [← write_picking k (k + 1) d d']
  apply Machine.Step.assign hstmt rfl hvalue hnext

theorem step_branch (d : Datum) :
  Machine.Step graph (picking 1 d) (picking 2 d)
  := Machine.Step.skip rfl rfl rfl List.mem_cons_self

/-- The machine back in the calling method. -/
def lost : Machine :=
  (Machine.deliver ⟨started.top, [], fun _ => .null⟩ (.other 7)
    (.assign (.var picked) (.invoke ⟨.static, pick, none, []⟩))).moveTo ⟨main, 1⟩

theorem step_return :
  Machine.Step graph (picking 3 (.other 7)) lost
  := by
  rw [picking, lost]
  apply Machine.Step.ret rfl rfl _ rfl (List.mem_singleton_self _)
  rintro o ⟨⟩
  simp [Operand.Yields]

/-- The class that was picked is lost on the way, and one of the facts allows for that. -/
theorem exists_fact_describes_lost :
  view.IsImmutable ∧ Run.execute view main .empty {} ⟨20, 2⟩ = .ok (run 2) ∧
  (run 2).state.truncated = false ∧ started.top.Begins (run 2).graph main ∧
  Store.empty.Describes started ∧ Machine.Steps (run 2).graph started lost ∧
  ∃ s ∈ (run 2).factsAt ⟨main, 1⟩, s.Describes lost
  := by
  have hview : view.IsImmutable := by decide
  have hseeds : Store.empty.Describes started := by
    constructor
    · intro l
      trivial
    · intro f
      trivial
  have hpick : Machine.Step graph (picking 0 .null) (picking 1 (.cls "a.Impl")) :=
    step_assign rfl rfl (List.mem_singleton_self _)
  have hlose : Machine.Step graph (picking 2 (.cls "a.Impl")) (picking 3 (.other 7)) :=
    step_assign rfl trivial (List.mem_singleton_self _)
  have hsteps : Machine.Steps (run 2).graph started lost :=
    .head step_call (.head hpick (.head (step_branch _) (.head hlose (.single step_return))))
  use hview, execute_eq_run 2, run_two.1, begins_started, hseeds, hsteps
  apply Run.exists_fact_describes hview (execute_eq_run 2) run_two.1 begins_started rfl hseeds
    hsteps

end Choice

end ServiceFlow
