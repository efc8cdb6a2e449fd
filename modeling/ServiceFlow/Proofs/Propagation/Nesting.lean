import ServiceFlow.Proofs.Program.Nesting
import ServiceFlow.Proofs.Propagation.Completion
import ServiceFlow.Proofs.Propagation.Simulation
import ServiceFlow.Proofs.Value.Store

/-!
# Runs of a class and of its outer class

A run from a method of the outer class goes through the constructor and back: behind the call the
new object has the literal in its field.  A run of the inner class that starts with such an object
loads the literal, and one that starts with nothing leaves the call open.
-/

namespace ServiceFlow

namespace Nesting

open Passer (param)
open Propagation

variable (x : Nesting)

/-! ### Stores -/

/-- The object that is made with a literal. -/
def made (name : String) : Value := .object x.inner (some [(x.field, .cls name)])

/-- What is known at the start of the constructor. -/
def entered (name : String) : Store :=
  (Store.empty.setVar x.init param (.cls name)).setVar x.init x.this (.fresh x.inner)

/-- What is known when the constructor ends. -/
def ended (name : String) : Store := (x.entered name).setVar x.init x.this (x.made name)

/-- What is known when the constructor is called: there is a new object. -/
def waiting (i : Nat) : Store := Store.empty.setVar (x.setup i) x.object (.fresh x.inner)

/-- What is known when the object is made. -/
def built (i : Nat) (name : String) : Store := Store.empty.setVar (x.setup i) x.object (x.made name)

/-- What is known before each statement in a run from a method of the outer class. -/
def storeAt (i : Nat) (name : String) (q : StmtId) : Store :=
  if q.method = x.init then x.both.storeBefore (x.entered name) q
  else if q.method = x.setup i ∧ 2 ≤ q.offset then x.built i name
  else x.both.storeBefore .empty q

variable {x} {i : Nat} {name : String}

theorem storeAt_init (offset : Nat) :
  x.storeAt i name ⟨x.init, offset⟩ = x.both.storeBefore (x.entered name) ⟨x.init, offset⟩
  := if_pos rfl

theorem storeAt_setup (offset : Nat) :
  x.storeAt i name ⟨x.setup i, offset⟩ =
    if 2 ≤ offset then x.built i name else x.both.storeBefore .empty ⟨x.setup i, offset⟩
  := by
  have hne : x.setup i ≠ x.init := x.setup_ne_of_owner rfl i
  simp [storeAt, hne]

theorem storeBefore_site (hname : x.names[i]? = some name) :
  x.both.storeBefore .empty (x.site i) = x.waiting i
  := by
  have hcontains : x.both.contains x.inner := by
    apply View.contains_iff_exists.2
    simp [classes_both, innerDecl]
  rw [site, View.storeBefore_of_body? (body?_setup hname)]
  simp [setupBody, Stmt.apply, Place.write, Expr.eval, Expr.apply, x.plain, hcontains, waiting]

theorem frame_init (x : Nesting) :
  x.both.frame x.init = ⟨some x.this, [some ⟨param, false⟩]⟩
  := by
  rw [View.frame, body?_init]
  simp [Frame.ofBody, init, initBody, Body.thisLocal?, Body.parameterLocal?, Body.boundLocal?,
    Body.assigns, UInt64.size]

variable {g : Supergraph}

theorem enterWith_construct (hview : g.view = x.both) :
  enterWith g (x.site i) x.init (x.waiting i) (x.construct name) = x.entered name
  := by
  have hstatics : (x.waiting i).statics = .empty := rfl
  rw [enterWith, hview, frame_init, hstatics]
  change Store.setVar _ _ _ (Store.getVar _ _ _) = _
  rw [waiting, Store.getVar_setVar, if_pos ⟨rfl, rfl⟩]
  rfl

/-- The constructor keeps the class in the field of the object. -/
theorem storeBefore_exit (x : Nesting) (name : String) :
  x.both.storeBefore (x.entered name) ⟨x.init, 3⟩ = x.ended name
  := by
  have hthis : (x.entered name).getVar x.init x.this = .fresh x.inner := by
    rw [entered, Store.getVar_setVar, if_pos ⟨rfl, rfl⟩]
  have hparam : (x.entered name).getVar x.init param = .cls name := by
    have hne : param ≠ x.this := by simp [param, this]
    simp [entered, hne]
  rw [View.storeBefore_of_body? x.body?_init]
  simp only [initBody, List.take_succ_cons, List.take_zero, List.foldl_cons, List.foldl_nil,
    Stmt.apply, Place.write, Expr.apply, Expr.eval, Operand.eval, hthis, hparam]
  rfl

/-- Behind the call the object is as the constructor left it. -/
theorem returnWith_construct (hview : g.view = x.both) (exit : StmtId) :
  returnWith g (x.site i) x.init exit (x.waiting i) (x.ended name) (.invoke (x.construct name)) =
    x.built i name
  := by
  have hmade : (x.ended name).getVar x.init x.this = x.made name := by
    rw [ended, Store.getVar_setVar, if_pos ⟨rfl, rfl⟩]
  have hargs : ∀ s t, returnArgs (x.site i) x.init s (x.ended name) (x.construct name)
      (x.both.frame x.init) t = t := fun _ _ => rfl
  simp only [returnWith, assignResult, returnObjects, Stmt.invoke?, hview, hargs]
  rw [frame_init]
  simp only [returnThis, construct, hmade]
  apply Store.ext_vars
  · intro m l
    by_cases h : m = x.setup i ∧ l = x.object
    · simp [h, site, waiting, made, Value.isObject, built]
    · simp [h, site, waiting, made, Value.isObject, built]
  · intro f
    simp [made, Value.isObject, built, ended, entered]

/-! ### One store for each statement -/

theorem jumps_both {q : StmtId} {stmt : Stmt} (h : x.both.stmt? q = some stmt) :
  stmt.jumps = []
  := by
  obtain ⟨b, hb, hoffset⟩ := View.stmt?_eq_some h
  have hmem := List.mem_of_getElem? hoffset
  rcases exists_of_body? hb with ⟨_, _, _, _, rfl⟩ | ⟨_, rfl⟩ | ⟨_, rfl⟩
  · simp only [setupBody, List.mem_cons, List.not_mem_nil, or_false] at hmem
    rcases hmem with rfl | rfl | rfl <;> rfl
  · simp only [initBody, List.mem_cons, List.not_mem_nil, or_false] at hmem
    rcases hmem with rfl | rfl | rfl | rfl <;> rfl
  · simp only [startBody, List.mem_cons, List.not_mem_nil, or_false] at hmem
    rcases hmem with rfl | rfl | rfl | rfl <;> rfl

/-- Away from the call of the constructor each statement has its own effect. -/
theorem after_storeAt (hname : x.names[i]? = some name) (hview : g.view = x.both)
    {q next : StmtId} (hq : q ≠ x.site i) (hnext : next ∈ g.successors q) :
  after g q (x.storeAt i name q) = x.storeAt i name next
  := by
  obtain ⟨b, hb, _, hoffset⟩ := Supergraph.mem_successors hnext
  have hlength := Body.lt_of_mem_successors hoffset
  obtain rfl : next = ⟨q.method, q.offset + 1⟩ := by
    apply eq_succ_of_mem_successors _ hnext
    intro stmt hstmt
    rw [hview] at hstmt
    apply jumps_both hstmt
  have hafter : ∀ s, after g q (x.both.storeBefore s q) =
      x.both.storeBefore s ⟨q.method, q.offset + 1⟩ := by
    intro s
    rw [← hview, after_storeBefore]
  obtain ⟨m, offset⟩ := q
  by_cases hinit : m = x.init
  · subst hinit
    rw [storeAt_init, storeAt_init, hafter]
  · by_cases hsetup : m = x.setup i
    · subst hsetup
      rw [hview, body?_setup hname] at hb
      obtain rfl := Option.some.inj hb
      -- the call is at the second of three statements
      have hfirst : offset = 0 := by
        have hne : offset ≠ 1 := by
          rintro rfl
          apply hq rfl
        simp only [setupBody, List.length_cons, List.length_nil] at hlength
        omega
      subst hfirst
      rw [storeAt_setup, storeAt_setup, if_neg (by omega), if_neg (by simp), hafter]
    · have hother : ∀ o, x.storeAt i name ⟨m, o⟩ = x.both.storeBefore .empty ⟨m, o⟩ := by
        intro o
        simp [storeAt, hinit, hsetup]
      rw [hother, hother, hafter]

theorem successors_site (hname : x.names[i]? = some name) (hview : g.view = x.both) :
  g.successors (x.site i) = [⟨x.setup i, 2⟩]
  := by
  simp [Supergraph.successors, hview, site, body?_setup hname, setupBody, Body.successors,
    Body.rawSuccessors, dropRepeats]

theorem isCall_site (hname : x.names[i]? = some name)
    (hg : Supergraph.build x.both [x.setup i] skips = .ok g) :
  g.isCall (x.site i)
  := by
  apply (Supergraph.isCall_iff hg).2
  use .entry List.mem_cons_self, x.construct name
  rw [View.invokeAt?, stmt?_site hname]
  rfl

/-- The constructor returns. -/
theorem mayReturn_site (hname : x.names[i]? = some name)
    (hg : Supergraph.build x.both [x.setup i] skips = .ok g) :
  mayReturn g (x.site i)
  := by
  rw [mayReturn, callees_site hname hg, Supergraph.view_build hg]
  simp [body?_init, initBody, Stmt.isReturn]

theorem exit_of_isExit (hview : g.view = x.both) {exit : StmtId} (hmethod : exit.method = x.init)
    (hexit : g.isExit exit) :
  exit = ⟨x.init, 3⟩
  := by
  obtain ⟨m, offset⟩ := exit
  obtain rfl : m = x.init := hmethod
  rw [Supergraph.isExit, hview, View.stmt?, body?_init] at hexit
  rcases offset with _ | _ | _ | _ | offset
  · cases hexit
  · cases hexit
  · cases hexit
  · rfl
  · simp [initBody] at hexit

theorem respects_storeAt (hname : x.names[i]? = some name)
    (hg : Supergraph.build x.both [x.setup i] skips = .ok g) :
  (problem g (x.setup i) .empty).Respects (flowGraph g) (x.storeAt i name)
  := by
  have hview := Supergraph.view_build hg
  have hsite : x.storeAt i name (x.site i) = x.waiting i := by
    rw [← storeBefore_site hname, site, storeAt_setup, if_neg (by decide)]
  constructor
  · intro e he
    obtain ⟨s, hs, rfl⟩ := List.mem_map.1 he
    rw [Supergraph.mem_starts hs, storeAt_setup, if_neg (by decide), View.storeBefore_start]
  · intro q next hnext hcall _ d hd
    have hq : q ≠ x.site i := by
      rintro rfl
      have htrue : (flowGraph g).isCall (x.site i) = true := isCall_site hname hg
      rw [hcall] at htrue
      cases htrue
    rw [← after_storeAt hname hview hq hnext]
    apply List.mem_singleton.1 hd
  · intro q next hnext _ d hd
    simp only [problem] at hd
    split at hd
    · cases hd
    · next hreturns =>
      have hq : q ≠ x.site i := by
        rintro rfl
        apply hreturns (mayReturn_site hname hg)
      rw [← after_storeAt hname hview hq hnext]
      apply List.mem_singleton.1 hd
  · intro q callee hcallee start hstart d hd
    obtain ⟨rfl, rfl⟩ := eq_of_mem_callees hg hcallee
    rw [Supergraph.mem_starts hstart, storeAt_init, View.storeBefore_start,
      ← enterWith_construct (i := i) hview, ← hsite]
    simp only [problem, hview, stmt?_site hname, Option.bind_some, Stmt.invoke?, Option.map_some,
      Option.toList_some, List.mem_singleton] at hd
    apply hd
  · intro q next hnext exit hcallee hexit d hd
    obtain ⟨rfl, hmethod⟩ := eq_of_mem_callees hg hcallee
    obtain rfl := exit_of_isExit hview hmethod hexit
    obtain rfl : next = ⟨x.setup i, 2⟩ := by
      apply eq_succ_of_mem_successors _ hnext
      intro stmt hstmt
      rw [hview] at hstmt
      apply jumps_both hstmt
    rw [hsite, storeAt_init, storeBefore_exit] at hd
    rw [storeAt_setup, if_pos (by decide), ← returnWith_construct hview ⟨x.init, 3⟩]
    simp only [problem, hview, stmt?_site hname, Option.map_some, Option.toList_some,
      List.mem_singleton] at hd
    apply hd

/-! ### Runs from the outer class -/

section

variable (hname : x.names[i]? = some name)
  (hg : Supergraph.build x.both [x.setup i] skips = .ok g)
include hname hg

theorem steps_to_site :
  Tabulation.Steps (flowGraph g) (problem g (x.setup i) .empty) ⟨⟨x.setup i, 0⟩, .empty, []⟩
    ⟨x.site i, x.waiting i, []⟩
  := by
  have hoffset : 1 < (x.setupBody name).stmts.length := by simp [setupBody]
  have hbefore : ∀ stmt ∈ (x.setupBody name).stmts.take 1,
      stmt.fallsThrough ∧ ∀ i, stmt.invoke? = some i → skips i := by
    simp [setupBody, Stmt.fallsThrough, Stmt.invoke?]
  rw [← storeBefore_site hname]
  apply steps_of_skipped hg (x.setup i) .empty (body?_setup hname) hoffset hbefore

theorem step_into_init :
  Tabulation.Step (flowGraph g) (problem g (x.setup i) .empty) ⟨x.site i, x.waiting i, []⟩
    ⟨⟨x.init, 0⟩, x.entered name, [⟨x.site i, x.waiting i⟩]⟩
  := by
  have hview := Supergraph.view_build hg
  have hcallee : x.init ∈ (flowGraph g).callees (x.site i) := by
    simp [flowGraph, callees_site hname hg]
  apply Tabulation.Step.call (isCall_site hname hg) hcallee
  · simp [problem, hview, stmt?_site hname, Stmt.invoke?, enterWith_construct hview]
  · simp [flowGraph, Supergraph.starts, hview, body?_init, initBody]

omit hname in
theorem steps_through_init (stack : List (Tabulation.OpenCall MethodSig Store)) :
  Tabulation.Steps (flowGraph g) (problem g (x.setup i) .empty)
    ⟨⟨x.init, 0⟩, x.entered name, stack⟩ ⟨⟨x.init, 3⟩, x.ended name, stack⟩
  := by
  have hoffset : 3 < x.initBody.stmts.length := by simp [initBody]
  have hbefore : ∀ stmt ∈ x.initBody.stmts.take 3,
      stmt.fallsThrough ∧ ∀ i, stmt.invoke? = some i → skips i := by
    simp [initBody, Stmt.fallsThrough, Stmt.invoke?]
  rw [← storeBefore_exit]
  apply steps_of_skipped hg (x.setup i) .empty x.body?_init hoffset hbefore

theorem step_back :
  Tabulation.Step (flowGraph g) (problem g (x.setup i) .empty)
    ⟨⟨x.init, 3⟩, x.ended name, [⟨x.site i, x.waiting i⟩]⟩ ⟨⟨x.setup i, 2⟩, x.built i name, []⟩
  := by
  have hview := Supergraph.view_build hg
  apply Tabulation.Step.ret
  · have hnone : x.both.invokeAt? ⟨x.init, 3⟩ = none := by
      simp [View.invokeAt?, View.stmt?, body?_init, initBody, Stmt.invoke?]
    apply Bool.eq_false_iff.2
    intro hcall
    obtain ⟨_, invoke, hinvoke⟩ := (Supergraph.isCall_iff hg).1 hcall
    rw [hnone] at hinvoke
    cases hinvoke
  · simp [flowGraph, Supergraph.isExit, hview, View.stmt?, body?_init, initBody, Stmt.isReturn]
  · simp [flowGraph, successors_site hname hview]
  · simp [problem, hview, stmt?_site hname, returnWith_construct hview]

/-- Control goes through the constructor and comes back with the object. -/
theorem reachable_built :
  Tabulation.Reachable (flowGraph g) (problem g (x.setup i) .empty)
    ⟨⟨x.setup i, 2⟩, x.built i name, []⟩
  := by
  have hseed : (⟨x.setup i, 0⟩, Store.empty) ∈ (problem g (x.setup i) .empty).seeds := by
    simp [problem, Supergraph.starts, Supergraph.view_build hg, body?_setup hname, setupBody]
  apply (Tabulation.Reachable.seed hseed).steps
  apply Relation.ReflTransGen.tail _ (step_back hname hg)
  apply ((steps_to_site hname hg).tail (step_into_init hname hg)).trans
  apply steps_through_init hg

end

variable {config : Config}

/-- The run from a method of the outer class finds the object that it makes. -/
theorem receiversOf_site (htarget : config.target = {}) (hname : x.names[i]? = some name)
    (hcompletes : config.Completes x.both (x.setup i) .empty) :
  OuterContext.receiversOf config x.both .empty ⟨x.site i, x.object⟩ =
    .ok [⟨x.setup i, x.made name⟩]
  := by
  obtain ⟨g, hg⟩ := exists_supergraph hname
  have hrun := Config.run_of_build htarget hg .empty
  have hfacts : (config.runOn g (x.setup i) .empty).factsAt ⟨x.setup i, 2⟩ = [x.built i name] := by
    rw [Config.factsAt_runOn (respects_storeAt hname hg) (hcompletes _ hrun)
      ⟨[], reachable_built hname hg⟩, storeAt_setup, if_pos (Nat.le_refl 2)]
  have hafter : (config.runOn g (x.setup i) .empty).factsAfter (x.site i) = [x.built i name] := by
    have hnext : (flowGraph g).successors (x.site i) = [⟨x.setup i, 2⟩] :=
      successors_site hname (Supergraph.view_build hg)
    change (Distinct.ofList (((flowGraph g).successors (x.site i)).flatMap
      (config.runOn g (x.setup i) .empty).factsAt)).toList = _
    rw [hnext, List.flatMap_singleton, hfacts]
    simp [Distinct.ofList, Distinct.toList_insert]
  rw [OuterContext.receiversOf]
  change (config.run x.both (x.setup i) .empty).map _ = _
  rw [hrun, Except.map, hafter]
  simp [built, made, Value.isObject, site]

/-- A run from a method of the outer class ends when each statement of the method and of the
constructor was processed once. -/
theorem completes_setup (htarget : config.target = {}) (hname : x.names[i]? = some name)
    (hfacts : 1 ≤ config.solver.maxFactsPerStmt.toNat)
    (hiterations : 7 ≤ config.solver.maxIterations.toNat) :
  config.Completes x.both (x.setup i) .empty
  := by
  obtain ⟨g, hg⟩ := exists_supergraph hname
  apply Config.completes_of_respects htarget hg (respects_storeAt hname hg)
    ((List.range 3).map (fun o => ⟨x.setup i, o⟩) ++ (List.range 4).map (fun o => ⟨x.init, o⟩)) _
    hfacts
  · simpa using hiterations
  · rintro ⟨m, o⟩ hs
    obtain ⟨hmethod, hsome⟩ := Supergraph.mem_statements.1 hs
    obtain ⟨stmt, hstmt⟩ := Option.isSome_iff_exists.1 hsome
    rw [Supergraph.view_build hg] at hstmt
    obtain ⟨b, hb, hoffset⟩ := View.stmt?_eq_some hstmt
    have hlt := (List.getElem?_eq_some_iff.1 hoffset).1
    rw [List.mem_append, List.mem_map, List.mem_map]
    rcases eq_of_reached ((Supergraph.mem_methods_iff hg).1 hmethod) with rfl | rfl
    · rw [body?_setup hname] at hb
      obtain rfl := Option.some.inj hb
      exact .inl ⟨o, List.mem_range.2 hlt, rfl⟩
    · rw [body?_init] at hb
      obtain rfl := Option.some.inj hb
      exact .inr ⟨o, List.mem_range.2 hlt, rfl⟩

/-! ### Runs of the inner class -/

section

variable (x)

/-- What is known at the start if the receiver is the given object. -/
def holding (object : Value) : Store := Store.empty.setVar x.start x.this object

theorem isStraight_alone :
  x.alone.IsStraight skips
  := by
  have hstmts : ∀ q stmt, x.alone.stmt? q = some stmt →
      stmt.jumps = [] ∧ ∀ i, stmt.invoke? = some i → i = loadOf cls := by
    intro q stmt hstmt
    obtain ⟨b, hb, hoffset⟩ := View.stmt?_eq_some hstmt
    have hmem := List.mem_of_getElem? hoffset
    rcases mem_inner_of_body? hb with ⟨_, rfl⟩ | ⟨_, rfl⟩
    · simp only [initBody, List.mem_cons, List.not_mem_nil, or_false] at hmem
      rcases hmem with rfl | rfl | rfl | rfl <;> simp [Stmt.jumps, Stmt.invoke?]
    · simp only [startBody, List.mem_cons, List.not_mem_nil, or_false] at hmem
      rcases hmem with rfl | rfl | rfl | rfl <;> simp [Stmt.jumps, Stmt.invoke?]
  constructor
  · intro q stmt hstmt
    apply (hstmts q stmt hstmt).1
  · intro q i hi
    obtain ⟨stmt, hstmt, hinvoke⟩ := Option.bind_eq_some_iff.1 hi
    rw [(hstmts q stmt hstmt).2 i hinvoke]
    apply skips_loadOf

/-- Before the class is loaded it is read from the field of the receiver. -/
theorem getVar_cls (object : Value) :
  (x.alone.storeBefore (x.holding object) ⟨x.start, 2⟩).getVar x.start cls = object.field x.field
  := by
  rw [View.storeBefore_of_body? x.body?_start]
  simp [startBody, Stmt.apply, Place.write, Expr.apply, Expr.eval, holding]

end

theorem fallsThrough_start :
  ∀ stmt ∈ x.startBody.stmts.take 2, stmt.fallsThrough
  := by
  simp [startBody, Stmt.fallsThrough]

/-- A run with a receiver resolves the call if the receiver has the field, and leaves it open
otherwise. -/
theorem outcome_start (htarget : config.target = {}) (object : Value)
    (hcompletes : config.Completes x.alone x.start (x.holding object)) :
  (config.run x.alone x.start (x.holding object)).map (fun r => r.outcome x.loadSite.call) =
    .ok (if (object.field x.field).isKnown then
      ⟨[x.loadSite.callWith (object.field x.field)], 1, 0⟩
    else ⟨[], 1, 1⟩)
  := by
  obtain ⟨g, _, hrun⟩ := Run.execute_of_isStraight (l := config.solver.limits) x.isStraight_alone
    x.body?_start (x.holding object)
  rw [← htarget] at hrun
  have hcut := hcompletes _ hrun
  rw [htarget] at hrun
  have hoffset : 2 < x.startBody.stmts.length := by simp [startBody]
  have hfacts := Run.factsAt_of_isStraight x.isStraight_alone x.body?_start (x.holding object)
    hoffset hrun hcut fallsThrough_start
  rw [Config.run, htarget, hrun]
  change Except.ok (Run.outcome _ x.loadSite.call) = _
  rw [x.loadSite.outcome_of_factsAt hfacts (x.getVar_cls object)]

theorem completes_start (htarget : config.target = {}) (object : Value)
    (hfacts : 1 ≤ config.solver.maxFactsPerStmt.toNat)
    (hiterations : 4 ≤ config.solver.maxIterations.toNat) :
  config.Completes x.alone x.start (x.holding object)
  := by
  intro r hr
  rw [Config.run, htarget] at hr
  have hoffset : 0 < x.startBody.stmts.length := by simp [startBody]
  apply Run.truncated_of_isStraight x.isStraight_alone x.body?_start (x.holding object) hoffset hr
    hfacts hiterations

end Nesting

end ServiceFlow
