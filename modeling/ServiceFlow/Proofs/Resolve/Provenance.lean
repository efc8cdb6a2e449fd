import ServiceFlow.Proofs.Resolve.Analysis

/-!
# Where entries come from

Every entry of an analysis that is no class literal has the values of a fact: of a run over the
class alone from the method of the call or one of its callers, or of a run from the method of the
call on an object that the outer class was seen to make.
-/

namespace ServiceFlow

/-! ### Sources of entries -/

namespace ClassDecl

/-- The view of a class on its own. -/
def alone (d : ClassDecl) : View := .ofList [d]

/-- What is known at the start of a method of the class that is called on an object: the given
constants, those that the static initializer leaves, and the object itself. -/
def seedsOn (d : ClassDecl) (config : Config) (statics : Store) (m : MethodSig) (object : Value) :
    Store :=
  let seeds := statics.overlay (config.initialStatics d.alone d)
  match ((d.method? m).bind Method.body).bind Body.thisLocal? with
  | some this => seeds.setVar m this object
  | none => seeds

/-- The statement of the class is a constructor call of the class `inner` on the local. -/
inductive Constructs (d : ClassDecl) (inner : ClassName) (site : StmtId) (base : Local) :
    Prop where
  | intro {m : Method} {b : Body} {i : Invoke} (declared : m ∈ d.methods)
      (signature : m.signature = site.method) (body : m.body = some b)
      (stmt : b.stmts[site.offset]? = some (.invoke i)) (kind : i.kind = .special)
      (isConstructor : i.method.isConstructor) (owner : i.method.owner = inner)
      (receiver : i.receiver = some base)

end ClassDecl

section Justification

variable (pool : ClassPool) (config : Config) (d : ClassDecl)

/-- The outer class, with constants in its static fields, makes an object of the class: the local of
a constructor call in the method `maker` holds it in a fact after the call. -/
inductive Makes : (statics : Store) → (maker : MethodSig) → (object : Value) → Prop where
  | intro {outer : ClassName} {v : View} {o : ClassDecl} {site : StmtId} {base : Local} {r : Run}
      {fact : Store} (nested : d.outer = some outer) (seen : pool.view [outer, d.name] = .ok v)
      (declared : v.class? outer = some o) (constructs : o.Constructs d.name site base)
      (ran : config.run v site.method (config.initialStatics v o) = .ok r)
      (holds : fact ∈ r.factsAfter site) (isObject : (fact.getVar site.method base).isObject) :
      Makes (config.initialStatics v o) site.method (fact.getVar site.method base)

/-- The entry has the values of a fact that holds at the call. -/
inductive Finding.Justified : Finding → Prop where
  | caller {call : LoadCall} {entry : MethodSig} {r : Run} {fact : Store}
      (declared : call ∈ d.loadCalls config.target)
      (climbs : entry = call.method ∨
        ∃ g path, CallGraph.build d.alone config.target.skips = .ok g ∧
          g.Chain (fun _ => True) call.method (entry :: path) ∧
          path.length ≤ config.maxBacktrackDepth.toNat)
      (ran : config.run d.alone entry (config.initialStatics d.alone d) = .ok r)
      (holds : fact ∈ r.factsAt call.site) :
      Finding.Justified ⟨entry, call.withValues fact⟩
  | receiver {call : LoadCall} {statics : Store} {maker : MethodSig} {object : Value} {r : Run}
      {fact : Store} (declared : call ∈ d.loadCalls config.target)
      (makes : Makes pool config d statics maker object)
      (ran : config.run d.alone call.method (d.seedsOn config statics call.method object) = .ok r)
      (holds : fact ∈ r.factsAt call.site) :
      Finding.Justified ⟨maker, call.withValues fact⟩

variable {pool config d}

/-! ### Objects from the outer class -/

theorem ClassDecl.constructed?_eq_some {inner : ClassName} {stmt : Stmt} {base : Local}
    (h : constructed? inner stmt = some base) :
  ∃ i, stmt = .invoke i ∧ i.kind = .special ∧ i.method.isConstructor ∧ i.method.owner = inner ∧
    i.receiver = some base
  := by
  unfold constructed? at h
  split at h
  · next i =>
    split at h
    · next hshape =>
      use i
      simp_all
    · cases h
  · cases h

theorem ClassDecl.constructs_of_mem {o : ClassDecl} {inner : ClassName} {k : Construction}
    (h : k ∈ o.constructions inner) :
  o.Constructs inner k.site k.object
  := by
  obtain ⟨m, hm, hk⟩ := List.mem_flatMap.1 h
  cases hbody : m.body with
  | none =>
      rw [hbody] at hk
      cases hk
  | some b =>
      rw [hbody] at hk
      obtain ⟨⟨stmt, offset⟩, hstmt, hk⟩ := List.mem_filterMap.1 hk
      obtain ⟨base, hbase, rfl⟩ := Option.map_eq_some_iff.1 hk
      obtain ⟨i, rfl, hkind, hconstructor, howner, hreceiver⟩ := constructed?_eq_some hbase
      apply Constructs.intro hm rfl hbody _ hkind hconstructor howner hreceiver
      apply List.mem_zipIdx_iff_getElem?.1 hstmt

theorem Receiver.mem_insert {l : List Receiver} {r x : Receiver} (h : x ∈ insert l r) :
  x ∈ l ∨ x = r
  := by
  unfold insert at h
  split at h
  · apply Or.inl h
  · simpa using h

namespace OuterContext

theorem mem_foldl_insert {l found : List Receiver} {x : Receiver}
    (h : x ∈ found.foldl Receiver.insert l) :
  x ∈ l ∨ x ∈ found
  := by
  induction found generalizing l with
  | nil => apply Or.inl h
  | cons r found ih =>
      rcases ih h with h | h
      · rcases Receiver.mem_insert h with h | rfl
        · apply Or.inl h
        · apply Or.inr List.mem_cons_self
      · apply Or.inr (List.mem_cons_of_mem _ h)

/-- The receivers of a context come from one of the results. -/
theorem settle_eq_ok {statics : Store} {results : List (Except ScopeError (List Receiver))}
    {ctx : OuterContext} (h : settle statics results = .ok ctx) :
  ctx.statics = statics ∧ ∀ x ∈ ctx.receivers, ∃ found, .ok found ∈ results ∧ x ∈ found
  := by
  have hctx : ctx =
      ⟨statics, (results.flatMap (fun r => r.toOption.getD [])).foldl Receiver.insert []⟩ := by
    unfold settle at h
    dsimp only at h
    split at h
    · cases h
    · apply (Except.ok.inj h).symm
  rw [hctx]
  use rfl
  intro x hx
  obtain ⟨result, hresult, hx⟩ :=
    List.mem_flatMap.1 ((mem_foldl_insert hx).resolve_left List.not_mem_nil)
  cases result with
  | error e => cases hx
  | ok found => use found, hresult, hx

theorem mem_receiversOf {v : View} {statics : Store} {k : Construction} {found : List Receiver}
    (h : receiversOf config v statics k = .ok found) {x : Receiver} (hx : x ∈ found) :
  ∃ r, config.run v k.site.method statics = .ok r ∧ ∃ fact ∈ r.factsAfter k.site,
    (fact.getVar k.site.method k.object).isObject ∧
      x = ⟨k.site.method, fact.getVar k.site.method k.object⟩
  := by
  cases hrun : config.run v k.site.method statics with
  | error e =>
      rw [receiversOf, hrun] at h
      cases h
  | ok r =>
      rw [receiversOf, hrun] at h
      obtain rfl := Except.ok.inj h
      obtain ⟨value, hvalue, hx⟩ := List.mem_filterMap.1 hx
      obtain ⟨fact, hfact, rfl⟩ := List.mem_map.1 hvalue
      split at hx
      · next hobject =>
        obtain rfl := Option.some.inj hx
        use r, rfl, fact
      · cases hx

/-- The receivers of a class are objects that its outer class makes. -/
theorem makes_of_mem_receivers {ctx : OuterContext} (h : ofClass pool config d = .ok ctx)
    {x : Receiver} (hx : x ∈ ctx.receivers) :
  Makes pool config d ctx.statics x.maker x.object
  := by
  unfold ofClass at h
  split at h
  · obtain rfl := Except.ok.inj h
    cases hx
  · next outer houter =>
    split at h
    · obtain ⟨v, hview, h⟩ := bind_eq_ok h
      unfold ofView at h
      split at h
      · obtain rfl := Except.ok.inj h
        cases hx
      · next o ho =>
        obtain ⟨hstatics, hreceivers⟩ := settle_eq_ok h
        obtain ⟨found, hfound, hx⟩ := hreceivers x hx
        obtain ⟨k, hk, hresult⟩ := List.mem_map.1 hfound
        obtain ⟨r, hrun, fact, hfact, hobject, rfl⟩ := mem_receiversOf hresult hx
        rw [hstatics]
        apply Makes.intro houter hview ho (ClassDecl.constructs_of_mem hk) hrun hfact hobject
    · obtain rfl := Except.ok.inj h
      cases hx

end OuterContext

/-! ### Justified entries -/

theorem Session.seedsWith_start (pool : ClassPool) (config : Config) (d : ClassDecl)
    (ctx : OuterContext) (m : MethodSig) (object : Value) :
  (Session.start pool config d).seedsWith ctx m object = d.seedsOn config ctx.statics m object
  := by
  unfold seedsWith ClassDecl.seedsOn
  change Option.elim (((d.method? m).bind Method.body).bind Body.thisLocal?) _ _ = _
  cases ((d.method? m).bind Method.body).bind Body.thisLocal? <;> rfl

theorem Session.justified_of_supports {call : LoadCall} (hcall : call ∈ d.loadCalls config.target)
    {x : Finding} (h : (Session.start pool config d).Supports call x) :
  x.Justified pool config d
  := by
  obtain ⟨entry, seeds, r, fact, hattempt, hrun, hfact, hx, _⟩ := h
  obtain ⟨attributed, c⟩ := x
  obtain rfl : c = call.withValues fact := hx
  cases hattempt with
  | own => apply Finding.Justified.caller hcall (.inl rfl) hrun hfact
  | caller built chain bounded =>
      apply Finding.Justified.caller hcall (.inr ⟨_, _, built, chain, bounded⟩) hrun hfact
  | receiver seen made =>
      rw [Session.seedsWith_start] at hrun
      have hmakes := OuterContext.makes_of_mem_receivers seen made
      apply Finding.Justified.receiver hcall hmakes hrun hfact

/-- No entry is invented: every entry that is no class literal is justified by a fact. -/
theorem ClassPool.justified_of_mem_findings {c : ClassName} {a : ClassAnalysis}
    (hd : pool.load c = .ok d) (ha : pool.analyze config c = .ok a) {x : Finding}
    (hx : x ∈ a.findings) (hliteral : x.call.isLiteral = false) :
  x.Justified pool config d
  := by
  rw [analyze_eq_account hd ha] at hx
  obtain ⟨call, hcall, hx⟩ := mem_findings_account hx
  cases hresolve : (Session.start pool config d).resolve call with
  | literal =>
      rw [hresolve] at hx
      rw [List.mem_singleton.1 hx, Session.resolve_eq_literal_iff.1 hresolve] at hliteral
      cases hliteral
  | searched f =>
      rw [hresolve] at hx
      apply Session.justified_of_supports hcall (Session.supports_resolve hresolve x hx)

end Justification

namespace Handed

/-! The class that a method loads is handed to it by its caller. -/

def owner : ClassName := ⟨"A"⟩
def install : MethodSig := ⟨owner, "install", [.cls], .void⟩
def setUp : MethodSig := ⟨owner, "setUp", [], .void⟩
def cls : Local := ⟨"c", .cls⟩

def load : Invoke := loadOf cls

def decl : ClassDecl := ⟨owner, none, [], none, [
  ⟨install, true, some ⟨[cls], [.identity cls (.parameter 0), .invoke load, .retVoid]⟩⟩,
  ⟨setUp, true, some ⟨[], [
    .invoke ⟨.static, install, none, [.const (.cls "a.Impl")]⟩,
    .retVoid]⟩⟩]⟩

def pool : ClassPool := .ofClasses [decl]
def config : Config := { Preset.balanced.config with solver := ⟨20, 2⟩ }
def session : Session := .start pool config decl
def call : LoadCall := .ofInvoke ⟨install, 1⟩ load
def known : Store := Store.empty.setVar install cls (.cls "a.Impl")

def own : Supergraph := ⟨decl.alone, [install], [⟨⟨install, 1⟩, []⟩]⟩
def full : Supergraph :=
  ⟨decl.alone, [setUp, install], [⟨⟨setUp, 0⟩, [install]⟩, ⟨⟨install, 1⟩, []⟩]⟩

def run (g : Supergraph) (entry : MethodSig) : Run :=
  ⟨g, Tabulation.solve (Propagation.flowGraph g) (Propagation.problem g entry .empty) ⟨20, 2⟩⟩

theorem factsAt_own :
  (run own install).factsAt ⟨install, 1⟩ = [.empty]
  := by
  simp only [run, Run.factsAt, Tabulation.factsAt_solve]
  decide +kernel

theorem factsAt_full :
  (run full setUp).factsAt ⟨install, 1⟩ = [known]
  := by
  simp only [run, Run.factsAt, Tabulation.factsAt_solve]
  decide +kernel

theorem outcome_install :
  session.outcome call install .empty = .ok ⟨[], 1, 1⟩
  := by
  change Except.ok ((run own install).outcome call) = _
  rw [Run.outcome, show call.site = ⟨install, 1⟩ from rfl, factsAt_own]
  rfl

theorem outcome_setUp :
  session.outcome call setUp .empty = .ok ⟨[call.withValues known], 1, 0⟩
  := by
  change Except.ok ((run full setUp).outcome call) = _
  rw [Run.outcome, show call.site = ⟨install, 1⟩ from rfl, factsAt_full]
  rfl

def graph : CallGraph := ⟨[install, setUp], [⟨⟨setUp, 0⟩, install⟩]⟩

theorem fromCallers_call :
  session.fromCallers call {} = ⟨[⟨setUp, call.withValues known⟩], none⟩
  := by
  have hwalk : session.fromCallers call {} =
      (CallerSearch.visitAll (fun m => session.outcome call m .empty) 512
        (CallerSearch.walk (fun m => session.outcome call m .empty) 512 graph 7) [setUp]
        ⟨[install], {}⟩).findings := rfl
  simp only [hwalk, CallerSearch.visitAll, outcome_setUp]
  rfl

/-- The method of the call leaves the class open, and its caller has it. -/
theorem resolve_call :
  session.resolve call = .searched ⟨[⟨setUp, call.withValues known⟩], none⟩
  := by
  have hresolve : session.resolve call =
      .searched (if Session.isSettled (session.outcome call install .empty)
        then Findings.note {} install (session.outcome call install .empty)
        else session.escalate call
          (Findings.note {} install (session.outcome call install .empty))) := rfl
  have hescalate : session.escalate call {} =
      (if 0 < (session.fromCallers call {}).found.length || false then session.fromCallers call {}
        else session.fromOuter call (session.fromCallers call {})) := rfl
  rw [hresolve, outcome_install]
  change Verdict.searched (session.escalate call {}) = _
  rw [hescalate, fromCallers_call]
  rfl

/-- The entry of the caller is justified. -/
theorem justified_setUp :
  pool.load owner = .ok decl ∧ pool.analyze config owner = .ok (decl.analyze pool config) ∧
  ⟨setUp, call.withValues known⟩ ∈ (decl.analyze pool config).findings ∧
  (call.withValues known).isLiteral = false ∧
  Finding.Justified pool config decl ⟨setUp, call.withValues known⟩
  := by
  have hload : pool.load owner = .ok decl := rfl
  have hanalyze : pool.analyze config owner = .ok (decl.analyze pool config) := rfl
  have hfinding : ⟨setUp, call.withValues known⟩ ∈ (decl.analyze pool config).findings := by
    rw [ClassPool.analyze_eq_account hload hanalyze]
    change _ ∈ (ClassAnalysis.add { cls := owner } call (session.resolve call)).findings
    rw [resolve_call]
    decide
  use hload, hanalyze, hfinding, rfl
  apply ClassPool.justified_of_mem_findings hload hanalyze hfinding rfl

end Handed

end ServiceFlow
