import ServiceFlow.Proofs.Resolve.Provenance
import ServiceFlow.Proofs.Value.Store

/-!
# Facts stay inside their method

A fact at a statement speaks about static fields and about the locals of the method that the
statement stands in.  A call hands over no local of the caller, and a return brings back the locals
that the caller had and writes to no others than these.  Hence no fact of a run mentions a local of
another method, if what the run starts with does not; and no run of an analysis starts with more.
-/

namespace ServiceFlow

/-! ### Stores inside a method -/

/-- The location can be named in the method: it is a static field or a local of the method. -/
def Location.IsIn (m : MethodSig) : Location → Prop
  | .var n _ => n = m
  | .static _ => True

/-- All entries of the store are static fields and locals of the method. -/
def Store.Within (s : Store) (m : MethodSig) : Prop := ∀ e ∈ s.entries, e.1.IsIn m

namespace Store

variable {s t : Store} {m : MethodSig}

theorem within_empty (m : MethodSig) :
  empty.Within m
  := nofun

theorem Within.set (h : s.Within m) {x : Location} (hx : x.IsIn m) (v : Value) :
  (s.set x v).Within m
  := by
  intro e he
  rw [Store.set] at he
  split at he
  · rcases Sorted.mem_insert he with rfl | he
    · apply hx
    · apply h e he
  · apply h e (Sorted.mem_of_mem_erase he)

theorem Within.setVar (h : s.Within m) (l : Local) (v : Value) :
  (s.setVar m l v).Within m
  := h.set (x := .var m l) rfl v

theorem Within.setStatic (h : s.Within m) (f : FieldSig) (v : Value) :
  (s.setStatic f v).Within m
  := h.set (x := .static f) trivial v

theorem Within.restrict (h : s.Within m) (p : Location → Bool) :
  (s.restrict p).Within m
  := by
  intro e he
  apply h e (List.mem_filter.1 he).1

/-- The static fields alone are inside every method. -/
theorem within_statics (s : Store) (m : MethodSig) :
  s.statics.Within m
  := by
  intro e he
  obtain ⟨x, v⟩ := e
  cases x with
  | var n l => cases (List.mem_filter.1 he).2
  | static f => trivial

theorem Within.foldl {α : Type} {f : Store → α → Store} {as : List α} (h : s.Within m)
    (hf : ∀ t, t.Within m → ∀ a ∈ as, (f t a).Within m) :
  (as.foldl f s).Within m
  := List.foldlRecOn (motive := fun t => t.Within m) as f h hf

theorem Within.overlay (hs : s.Within m) (ht : t.Within m) :
  (s.overlay t).Within m
  := by
  apply hs.foldl
  intro u hu e he
  apply hu.set (ht e he)

theorem Within.fillMissing (hs : s.Within m) (ht : t.Within m) :
  (s.fillMissing t).Within m
  := by
  apply hs.foldl
  intro u hu e he
  split
  · apply hu
  · apply hu.set (ht e he)

theorem within_constantStatics (s : Store) (m : MethodSig) :
  s.constantStatics.Within m
  := by
  apply (within_empty m).foldl
  intro u hu e he
  obtain ⟨f, _, rfl⟩ := List.mem_map.1 he
  apply hu.setStatic

end Store

/-! ### Statements -/

section

variable {m : MethodSig} {s : Store}

theorem Invoke.within_apply (i : Invoke) (h : s.Within m) :
  (i.apply m s).Within m
  := by
  have hforget : ∀ t : Store, t.Within m →
      (if (LibraryCall.ofInvoke? i).isSome then t
        else (i.mutableArgs m s).foldl (fun t a => t.setVar m a.2 .unknown) t).Within m := by
    intro t ht
    split
    · apply ht
    · apply ht.foldl
      intro t ht a _
      apply ht.setVar
  rw [Invoke.apply]
  apply hforget
  split
  · apply h.setVar
  · apply h

theorem Place.within_write (place : Place) (value : Value) (h : s.Within m) :
  (place.write m value s).Within m
  := by
  cases place with
  | var l => apply h.setVar
  | staticField f => apply h.setStatic
  | instanceField base f =>
      rw [Place.write]
      split
      · apply h.setVar
      · apply h
  | arrayElement base => apply h

theorem Stmt.within_apply (v : View) (stmt : Stmt) (h : s.Within m) :
  (stmt.apply v m s).Within m
  := by
  cases stmt with
  | assign place e =>
      apply Place.within_write
      cases e with
      | invoke i => apply i.within_apply h
      | _ => apply h
  | invoke i => apply i.within_apply h
  | _ => apply h

end

/-! ### Flows between methods -/

namespace Propagation

variable {g : Supergraph} {s : Store}

theorem within_after (q : StmtId) (h : s.Within q.method) :
  (after g q s).Within q.method
  := by
  rw [after]
  cases g.view.stmt? q with
  | none => apply h
  | some stmt => apply stmt.within_apply _ h

/-- Whatever is known at a call, the called method starts with its own locals only. -/
theorem within_enterWith (site : StmtId) (callee : MethodSig) (s : Store) (i : Invoke) :
  (enterWith g site callee s i).Within callee
  := by
  have hargs : (bindArgs site callee s i (g.view.frame callee) s.statics).Within callee := by
    apply (s.within_statics callee).foldl
    intro t ht a _
    split
    · apply ht.setVar
    · apply ht
  rw [enterWith, bindThis]
  split
  · apply hargs.setVar
  · apply hargs

section

variable {site : StmtId} {t : Store} (callee : MethodSig) (ended : Store)

theorem within_resume (h : t.Within site.method) :
  (resume t ended).Within site.method
  := by
  rw [resume, Store.foldl_setStatic_staticEntries]
  apply (h.restrict _).overlay (ended.within_statics _)

theorem within_returnThis (i : Invoke) (f : Frame) (h : t.Within site.method) :
  (returnThis site callee ended i f t).Within site.method
  := by
  rw [returnThis]
  split
  · dsimp only
    split
    · apply h.setVar
    · apply h
  · apply h

theorem within_returnObjects (caller : Store) (stmt : Stmt) (h : t.Within site.method) :
  (returnObjects g site callee caller ended stmt t).Within site.method
  := by
  rw [returnObjects]
  split
  · apply (within_returnThis callee ended _ _ h).foldl
    intro t ht a _
    split
    · apply ht.setVar
    · apply ht
  · apply h

/-- Whatever is known at the exit, the caller gets back its own locals only. -/
theorem within_returnWith (exit : StmtId) (stmt : Stmt) (h : t.Within site.method) :
  (returnWith g site callee exit t ended stmt).Within site.method
  := by
  have hobjects := within_returnObjects (g := g) callee ended t stmt (within_resume ended h)
  rw [returnWith, assignResult.eq_def]
  split
  · apply Place.within_write _ _ hobjects
  · apply hobjects

end

/-! ### Runs -/

/-- The fact of a configuration and those of its open calls are inside their methods. -/
def IsScoped (c : Tabulation.Config MethodSig Store) : Prop :=
  c.fact.Within c.point.method ∧ ∀ o ∈ c.stack, o.fact.Within o.site.method

theorem IsScoped.step {entry : MethodSig} {seeds : Store} {c c' : Tabulation.Config MethodSig Store}
    (hstep : Tabulation.Step (flowGraph g) (problem g entry seeds) c c') (h : IsScoped c) :
  IsScoped c'
  := by
  have hlocal := flowGraph_isLocal g
  obtain ⟨hfact, hstack⟩ := h
  cases hstep with
  | @normal q next d d' stack _ _ hnext hflow =>
      obtain rfl := List.mem_singleton.1 hflow
      use hlocal.successors _ _ hnext ▸ within_after q hfact
  | @pass q next d d' stack _ hnext hflow =>
      have hflow : d' ∈ if mayReturn g q then [] else [after g q d] := hflow
      split at hflow
      · cases hflow
      · obtain rfl := List.mem_singleton.1 hflow
        use hlocal.successors _ _ hnext ▸ within_after q hfact
  | @call q start callee d d' stack _ _ hflow hstart =>
      obtain ⟨i, _, rfl⟩ := Option.map_eq_some_iff.1 (Option.mem_toList.1 hflow)
      constructor
      · rw [hlocal.starts _ _ hstart]
        apply within_enterWith
      · intro o ho
        rcases List.mem_cons.1 ho with rfl | ho
        · apply hfact
        · apply hstack o ho
  | @ret exit next d d' top stack _ _ hnext hflow =>
      obtain ⟨stmt, _, rfl⟩ := Option.map_eq_some_iff.1 (Option.mem_toList.1 hflow)
      obtain ⟨htop, hstack⟩ := List.forall_mem_cons.1 hstack
      constructor
      · rw [hlocal.successors _ _ hnext]
        apply within_returnWith _ _ _ _ htop
      · apply hstack

theorem within_of_reaches {entry : MethodSig} {seeds : Store} (hseeds : seeds.Within entry)
    {q : StmtId} (h : Reaches g entry seeds q s) :
  s.Within q.method
  := by
  obtain ⟨stack, hreach⟩ := h
  have hscoped : IsScoped ⟨q, s, stack⟩ := by
    apply hreach.induct
    · intro e he
      obtain ⟨start, hstart, rfl⟩ := List.mem_map.1 he
      constructor
      · rw [Supergraph.mem_starts hstart]
        apply hseeds
      · nofun
    · intro c c' _ hstep hc
      apply hc.step hstep
  apply hscoped.1

end Propagation

/-! ### What runs start with -/

theorem Run.within_harvest (r : Run) (m n : MethodSig) :
  (r.harvest m).Within n
  := by
  apply (Store.within_empty n).foldl
  intro t ht fact _
  apply ht.fillMissing (fact.within_constantStatics n)

theorem Config.within_initialStatics (c : Config) (v : View) (d : ClassDecl) (m : MethodSig) :
  (c.initialStatics v d).Within m
  := by
  rw [initialStatics]
  split
  · split
    · split
      · apply Run.within_harvest
      · apply Store.within_empty
    · apply Store.within_empty
  · apply Store.within_empty

theorem OuterContext.within_statics {pool : ClassPool} {config : Config} {d : ClassDecl}
    {ctx : OuterContext} (h : ofClass pool config d = .ok ctx) (m : MethodSig) :
  ctx.statics.Within m
  := by
  unfold ofClass at h
  split at h
  · obtain rfl := Except.ok.inj h
    apply Store.within_empty
  · split at h
    · obtain ⟨v, _, h⟩ := bind_eq_ok h
      unfold ofView at h
      split at h
      · obtain rfl := Except.ok.inj h
        apply Store.within_empty
      · rw [(settle_eq_ok h).1]
        apply Config.within_initialStatics
    · obtain rfl := Except.ok.inj h
      apply Store.within_empty

section

variable (pool : ClassPool) (config : Config) (d : ClassDecl)

/-- The runs that the analysis of a class makes: the methods that they start from, and what is known
there. -/
inductive ClassDecl.Starts : (entry : MethodSig) → (seeds : Store) → Prop where
  /-- From a static initializer. -/
  | initializer (m : MethodSig) : Starts m .empty
  /-- From a method of the outer class, which may make objects. -/
  | construction (v : View) (outer : ClassDecl) (m : MethodSig) :
      Starts m (config.initialStatics v outer)
  /-- For a load call of the class. -/
  | call {call : LoadCall} {attributed entry : MethodSig} {seeds : Store}
      (attempt : (Session.start pool config d).Attempt call attributed entry seeds) :
      Starts entry seeds

variable {pool config d}

theorem Session.within_seedsWith {ctx : OuterContext}
    (h : OuterContext.ofClass pool config d = .ok ctx) (m : MethodSig) (object : Value) :
  ((Session.start pool config d).seedsWith ctx m object).Within m
  := by
  have hstatics :=
    (OuterContext.within_statics h m).overlay (config.within_initialStatics d.alone d m)
  rw [seedsWith_start, ClassDecl.seedsOn]
  split
  · apply hstatics.setVar
  · apply hstatics

theorem ClassDecl.Starts.within {entry : MethodSig} {seeds : Store}
    (h : d.Starts pool config entry seeds) :
  seeds.Within entry
  := by
  cases h with
  | initializer => apply Store.within_empty
  | construction v outer => apply config.within_initialStatics
  | call attempt =>
      cases attempt with
      | own => apply config.within_initialStatics
      | caller => apply config.within_initialStatics
      | receiver seen made => apply Session.within_seedsWith seen

end

/-- No fact leaks from one method to another.  If the seeds of a run are static fields and locals of
its entry, then every entry of a fact at a statement is a static field or a local of the statement's
method, and has a known value; and the runs of an analysis have such seeds. -/
theorem Run.factsAt_scoped :
  (∀ {v : View} {entry : MethodSig} {seeds : Store} {t : LoadTarget} {l : Tabulation.Limits}
      {r : Run}, execute v entry seeds t l = .ok r → seeds.Within entry →
    ∀ q, ∀ s ∈ r.factsAt q, ∀ e ∈ s.entries, e.1.IsIn q.method ∧ e.2 ≠ .unknown) ∧
  (∀ {pool : ClassPool} {config : Config} {d : ClassDecl} {entry : MethodSig} {seeds : Store},
    d.Starts pool config entry seeds → seeds.Within entry)
  := by
  constructor
  · intro v entry seeds t l r h hseeds q s hs e he
    constructor
    · apply Propagation.within_of_reaches hseeds (reaches_of_mem_factsAt h hs) e he
    · have hknown := s.known e he
      simpa [Value.isKnown] using hknown
  · intro pool config d entry seeds h
    apply h.within

/-- Caller and called method have a local of the same name, and each fact has that of its method. -/
theorem Choice.factsAt_main_scoped :
  Run.execute view main .empty {} ⟨20, 2⟩ = .ok (run 2) ∧ Store.empty.Within main ∧
  known main ∈ (run 2).factsAt ⟨main, 1⟩ ∧
  (∀ e ∈ (known main).entries, e.1.IsIn main ∧ e.2 ≠ .unknown) ∧
  Handed.decl.Starts Handed.pool Handed.config Handed.install Handed.session.seeds.get ∧
  Handed.session.seeds.get.Within Handed.install
  := by
  have hfact : known main ∈ (run 2).factsAt ⟨main, 1⟩ := by
    rw [run_two.2]
    apply List.mem_cons_self
  have hattempt : Handed.session.Attempt Handed.call Handed.install Handed.install
      Handed.session.seeds.get := .own
  have hstarts := ClassDecl.Starts.call hattempt
  refine ⟨execute_eq_run 2, Store.within_empty main, hfact, ?_, hstarts, ?_⟩
  · apply Run.factsAt_scoped.1 (execute_eq_run 2) (Store.within_empty main) _ _ hfact
  · apply Run.factsAt_scoped.2 hstarts

end ServiceFlow
