import ServiceFlow.Proofs.Program.Insertion
import ServiceFlow.Proofs.Propagation.Nesting
import ServiceFlow.Proofs.Resolve.SingleCall

/-!
# Receivers that the outer class makes

Nothing is known of the field of an inner class when a method of it is looked at alone.  The outer
class shows which objects there are: one for each method that makes one.  With these objects as
receivers the call is resolved once for each literal, and the finding is credited to the first
method that has it.
-/

namespace ServiceFlow

/-! ### Receivers -/

namespace OuterContext

/-- Of the objects that are found, those that are equal count once. -/
theorem settle_of_ok (statics : Store) (found : List (List Receiver)) :
  settle statics (found.map Except.ok) = .ok ⟨statics, found.flatten.foldl Receiver.insert []⟩
  := by
  have hreceivers : (found.map Except.ok).flatMap
      (fun r : Except ScopeError (List Receiver) => r.toOption.getD []) = found.flatten := by
    rw [List.flatMap_map]
    apply List.flatMap_id
  rw [settle, hreceivers]
  split
  · next e _ herror =>
    obtain ⟨r, hr, he⟩ := List.mem_filterMap.1 (List.mem_of_getLast? herror)
    obtain ⟨l, _, rfl⟩ := List.mem_map.1 hr
    cases he
  · rfl

end OuterContext

/-- Without callers the search ends at once. -/
theorem CallerSearch.walk_of_callers_eq_nil (run : MethodSig → Except ScopeError Outcome)
    (maxVisited : Nat) {g : CallGraph} {m : MethodSig} (h : g.callers m = []) (depth : Nat)
    (s : State) :
  walk run maxVisited g depth m s = s
  := by
  cases depth with
  | zero => rfl
  | succ depth =>
      rw [walk, h]
      rfl

/-- Runs that each find one value add their findings. -/
theorem Findings.foldl_note {α : Type} {l : List α} (finding : α → Finding)
    {run : α → Except ScopeError Outcome}
    (h : ∀ a ∈ l, run a = .ok ⟨[(finding a).call], 1, 0⟩) (f : Findings) :
  l.foldl (fun f a => f.note (finding a).entry (run a)) f =
    ⟨(l.map finding).foldl Finding.insert f.found, f.failure⟩
  := by
  induction l generalizing f with
  | nil => rfl
  | cons a l ih =>
      obtain ⟨ha, hl⟩ := List.forall_mem_cons.1 h
      rw [List.foldl_cons, ha, ih hl]
      rfl

/-- If neither the method of a call nor its callers say anything, the outer class decides. -/
theorem Session.resolve_of_uncalled {s : Session} {call : LoadCall} {o : Outcome}
    (hliteral : call.isLiteral = false)
    (hown : s.outcome call call.method s.seeds.get = .ok o) (ho : o.isConclusive = false)
    (hnone : o.resolved = []) (hcallers : s.fromCallers call {} = {}) :
  s.resolve call =
    .searched (if s.config.outerClassThreading then s.fromOuter call {} else {})
  := by
  have hnote : Findings.note {} call.method (.ok o) = {} := by
    simp [Findings.note, Findings.add, hnone]
  rw [resolve, hliteral, hown]
  simp only [Bool.false_eq_true, if_false, hnote, isSettled, ho, escalate, hcallers, ite_self]
  cases s.config.outerClassThreading <;> rfl

namespace Nesting

open Propagation

variable {x : Nesting} {config : Config} {pool : ClassPool}

/-! ### What the outer class says -/

theorem staticInitializer?_outer (x : Nesting) :
  x.outerDecl.staticInitializer? = none
  := by
  apply List.find?_eq_none.2
  intro m hm hinitializer
  obtain ⟨name, i, _, rfl⟩ := x.mem_setups.1 hm
  have hname : numbered "setup" i = "<clinit>" := of_decide_eq_true hinitializer
  have hhead : (numbered "setup" i).toList.head? = some 's' := head?_numbered rfl i
  rw [hname] at hhead
  cases hhead

/-- Each method of the outer class has one construction. -/
theorem constructions_outer (x : Nesting) :
  x.outerDecl.constructions x.inner = x.names.zipIdx.map (fun e => ⟨x.site e.2, x.object⟩)
  := by
  have hconstruct : ∀ name, ClassDecl.constructed? x.inner (.invoke (x.construct name)) =
      some x.object := by
    intro name
    have hinit : x.init.isConstructor := rfl
    have howner : x.init.owner = x.inner := rfl
    simp [ClassDecl.constructed?, construct, hinit, howner]
  have hnew : ClassDecl.constructed? x.inner (.assign (.var x.object) (.new x.inner)) = none := rfl
  have hreturn : ClassDecl.constructed? x.inner .retVoid = none := rfl
  rw [ClassDecl.constructions, outerDecl, List.flatMap_map, List.map_eq_flatMap]
  apply List.flatMap_congr
  intro e _
  simp [setupMethod, setupBody, hnew, hconstruct, hreturn, site]

variable (x config) in
/-- No run for the inner class is cut short: those of its own methods, without a receiver and with
each of those that are made, and those from the methods of the outer class. -/
structure Completes : Prop where
  own : config.Completes x.alone x.start .empty
  setups : ∀ i name, x.names[i]? = some name → config.Completes x.both (x.setup i) .empty
  receivers : ∀ name ∈ x.names, config.Completes x.alone x.start (x.holding (x.made name))

/-- The largest of the runs processes the statements of a method of the outer class and of the
constructor. -/
theorem completes_of_limits (htarget : config.target = {})
    (hfacts : 1 ≤ config.solver.maxFactsPerStmt.toNat)
    (hiterations : 7 ≤ config.solver.maxIterations.toNat) :
  x.Completes config
  := by
  have hstart : 4 ≤ config.solver.maxIterations.toNat := by omega
  constructor
  · apply completes_start htarget .unknown hfacts hstart
  · intro i name hname
    apply completes_setup htarget hname hfacts hiterations
  · intro name _
    apply completes_start htarget (x.made name) hfacts hstart

/-- The object for each name, with the first method that makes it. -/
def receivers (x : Nesting) : List Receiver :=
  x.names.eraseDups.map (fun name => ⟨x.setup (x.names.idxOf name), x.made name⟩)

/-- The finding for each name, credited to the first method that makes its object. -/
def credited (x : Nesting) : List Finding :=
  x.names.eraseDups.map (fun name => ⟨x.setup (x.names.idxOf name), x.loadSite.loaded name⟩)

theorem made_injective (x : Nesting) :
  Function.Injective x.made
  := by
  intro a b h
  simpa [made] using h

theorem nodup_credited (x : Nesting) :
  (x.credited.map Finding.call).Nodup
  := by
  rw [credited, List.map_map]
  apply (nodup_eraseDups x.names).map x.loadSite.loaded_injective

theorem ofClass_inner (houter : pool.load x.outer = .ok x.outerDecl)
    (hinner : pool.load x.inner = .ok x.innerDecl) (htarget : config.target = {})
    (hcompletes : x.Completes config) :
  OuterContext.ofClass pool config x.innerDecl = .ok ⟨.empty, x.receivers⟩
  := by
  have hcontains : pool.contains x.outer := by
    rw [ClassPool.contains_iff_load, houter]
    intro h
    cases h
  have hview : pool.view [x.outer, x.inner] = .ok x.both := by
    simp only [ClassPool.view, List.mapM_cons, List.mapM_nil, houter, hinner]
    rfl
  have hclass : x.both.class? x.outer = some x.outerDecl := by
    apply View.class?_eq_some_iff.2
    simp [classes_both, outerDecl]
  have hstatics : config.initialStatics x.both x.outerDecl = .empty := by
    rw [Config.initialStatics, staticInitializer?_outer]
  have hfound : (x.outerDecl.constructions x.inner).map
      (OuterContext.receiversOf config x.both .empty) =
      (x.names.zipIdx.map (fun e => [(⟨x.setup e.2, x.made e.1⟩ : Receiver)])).map Except.ok := by
    rw [constructions_outer, List.map_map, List.map_map]
    apply List.map_congr_left
    intro e he
    have hname := List.mem_zipIdx_iff_getElem?.1 he
    apply receiversOf_site htarget hname (hcompletes.setups _ _ hname)
  have hofView : OuterContext.ofView config x.both x.outer x.inner = .ok ⟨.empty, x.receivers⟩ := by
    rw [OuterContext.ofView, hclass]
    change OuterContext.settle (config.initialStatics x.both x.outerDecl) _ = _
    rw [hstatics, hfound, OuterContext.settle_of_ok, ← List.flatMap_def, ← List.map_eq_flatMap]
    apply congrArg (fun l => Except.ok (OuterContext.mk .empty l))
    apply foldl_new_zipIdx (fun name i => (⟨x.setup i, x.made name⟩ : Receiver)) x.made_injective
    intro _ _
    rfl
  rw [OuterContext.ofClass]
  change (if pool.contains x.outer then pool.view [x.outer, x.inner] >>= _ else _) = _
  rw [if_pos hcontains, hview]
  apply hofView

/-! ### The analysis of the inner class -/

theorem staticInitializer?_inner (x : Nesting) :
  x.innerDecl.staticInitializer? = none
  := rfl

/-- No method of the inner class is called by another one. -/
theorem exists_callGraph (x : Nesting) :
  ∃ g, CallGraph.build x.alone skips = .ok g ∧ ∀ m, g.callers m = []
  := ⟨_, rfl, fun _ => rfl⟩

theorem seedsWith_receiver (pool : ClassPool) (config : Config) (receivers : List Receiver)
    (object : Value) :
  (Session.start pool config x.innerDecl).seedsWith ⟨.empty, receivers⟩ x.start object =
    x.holding object
  := by
  have hmethod : x.innerDecl.method? x.start = some ⟨x.start, false, some x.startBody⟩ := by
    simp [ClassDecl.method?, innerDecl, init, start]
  have hthis : (Session.start pool config x.innerDecl).this? x.start = some x.this := by
    change ((x.innerDecl.method? x.start).bind Method.body).bind Body.thisLocal? = _
    rw [hmethod]
    rfl
  rw [Session.seedsWith, hthis, Session.seeds_start pool config x.staticInitializer?_inner]
  rfl

/-- With the receivers of the outer class the call is resolved by the field of each of them. -/
theorem fromOuter_start (houter : pool.load x.outer = .ok x.outerDecl)
    (hinner : pool.load x.inner = .ok x.innerDecl) (htarget : config.target = {})
    (hcompletes : x.Completes config) :
  (Session.start pool config x.innerDecl).fromOuter x.loadSite.call {} =
    ⟨x.credited, none⟩
  := by
  have houterGet : (Session.start pool config x.innerDecl).outer.get =
      .ok ⟨.empty, x.receivers⟩ := ofClass_inner houter hinner htarget hcompletes
  have hinnerClass : (Session.start pool config x.innerDecl).cls.isInner := rfl
  have houtcome : ∀ name ∈ x.names.eraseDups,
      (Session.start pool config x.innerDecl).outcome x.loadSite.call x.start
        (x.holding (x.made name)) = .ok ⟨[x.loadSite.loaded name], 1, 0⟩ := by
    intro name hname
    have hfield : (x.made name).field x.field = .cls name := by
      simp [made, Value.field, Sorted.lookup]
    have hrun := outcome_start htarget (x.made name)
      (hcompletes.receivers name (List.mem_eraseDups.1 hname))
    rw [hfield] at hrun
    apply hrun
  rw [Session.fromOuter, if_pos hinnerClass, houterGet]
  change List.foldl _ _ x.receivers = _
  rw [receivers, List.foldl_map]
  refine (Findings.foldl_note
    (fun name => ⟨x.setup (x.names.idxOf name), x.loadSite.loaded name⟩) ?_ _).trans ?_
  · intro name hname
    change (Session.start pool config x.innerDecl).outcome _ x.start
      ((Session.start pool config x.innerDecl).seedsWith _ x.start (x.made name)) = _
    rw [seedsWith_receiver, houtcome name hname]
  · change (⟨Finding.collect x.credited, none⟩ : Findings) = _
    rw [Finding.collect_of_nodup x.nodup_credited]

/-- The load call is the only one of the inner class, and nothing is known of it at first. -/
theorem loadCalls_inner (x : Nesting) :
  x.innerDecl.loadCalls {} = [x.loadSite.call]
  := rfl

/-- The analysis of an inner class finds all literals that its outer class makes objects with, each
with the first method that has it.  It finds nothing if it may not look at the outer class. -/
theorem analyze_inner (x : Nesting) (houter : pool.load x.outer = .ok x.outerDecl)
    (hinner : pool.load x.inner = .ok x.innerDecl) (htarget : config.target = {})
    (hcompletes : x.Completes config) :
  pool.analyze config x.inner = .ok (.ofSearch x.inner x.loadSite.call
    (if config.outerClassThreading then
      x.names.eraseDups.map (fun name => ⟨x.setup (x.names.idxOf name), x.loadSite.loaded name⟩)
    else []))
  := by
  have hseeds := Session.seeds_start pool config x.staticInitializer?_inner
  have hown : (Session.start pool config x.innerDecl).outcome x.loadSite.call x.start .empty =
      .ok ⟨[], 1, 1⟩ := outcome_start htarget .unknown hcompletes.own
  rw [← hseeds] at hown
  obtain ⟨g, hg, hnone⟩ := x.exists_callGraph
  have hcallers : (Session.start pool config x.innerDecl).fromCallers x.loadSite.call {} =
      {} := by
    have hgraph : (Session.start pool config x.innerDecl).graph.get = .ok g := by
      change CallGraph.build x.alone config.target.skips = _
      rw [htarget, hg]
    rw [Session.fromCallers, hgraph]
    simp only [CallerSearch.walk_of_callers_eq_nil _ _ (hnone _)]
  have hresolve : (Session.start pool config x.innerDecl).resolve x.loadSite.call =
      .searched (if config.outerClassThreading then
        (Session.start pool config x.innerDecl).fromOuter x.loadSite.call {} else {}) :=
    Session.resolve_of_uncalled rfl hown rfl rfl hcallers
  rw [fromOuter_start houter hinner htarget hcompletes] at hresolve
  have hcalls : x.innerDecl.loadCalls config.target = [x.loadSite.call] := by
    rw [htarget, loadCalls_inner]
  cases hthreading : config.outerClassThreading with
  | false =>
      rw [hthreading] at hresolve
      apply ClassPool.analyze_of_single hinner hcalls hresolve rfl List.nodup_nil
  | true =>
      rw [hthreading] at hresolve
      apply ClassPool.analyze_of_single hinner hcalls hresolve rfl x.nodup_credited

/-- Three methods, of which two have the same literal. -/
def threeSetups : Nesting where
  outer := ⟨"a.Outer"⟩
  inner := ⟨"a.Outer$Inner"⟩
  names := ["a.A", "b.B", "a.A"]
  distinct := by decide
  plain := by decide

/-- Two literals are found with the outer class, and none without it or without methods in it. -/
theorem analyze_threeSetups :
  let pool := ClassPool.ofClasses [threeSetups.outerDecl, threeSetups.innerDecl]
  let bare : Nesting := { threeSetups with names := [] }
  pool.load threeSetups.outer = .ok threeSetups.outerDecl ∧
  pool.load threeSetups.inner = .ok threeSetups.innerDecl ∧
  pool.analyze Preset.balanced.config threeSetups.inner = .ok {
    cls := threeSetups.inner
    resolutions := [⟨threeSetups.start,
      [⟨threeSetups.setup 0, threeSetups.loadSite.loaded "a.A"⟩,
        ⟨threeSetups.setup 1, threeSetups.loadSite.loaded "b.B"⟩]⟩]
    counters := { dataflow := 1 } } ∧
  pool.analyze { Preset.balanced.config with outerClassThreading := false } threeSetups.inner =
    .ok {
      cls := threeSetups.inner
      diagnostics := [.unresolved threeSetups.inner threeSetups.loadSite.call]
      counters := { unresolved := 1 } } ∧
  (ClassPool.ofClasses [bare.outerDecl, bare.innerDecl]).analyze Preset.balanced.config bare.inner =
    .ok {
      cls := bare.inner
      diagnostics := [.unresolved bare.inner bare.loadSite.call]
      counters := { unresolved := 1 } }
  := by
  intro pool bare
  have hcompletes : ∀ (x : Nesting) (config : Config), config.target = {} →
      config.solver = Preset.balanced.solver → x.Completes config := by
    intro x config htarget hsolver
    apply completes_of_limits htarget
    · rw [hsolver]
      decide
    · rw [hsolver]
      decide
  refine ⟨rfl, rfl, ?_, ?_, ?_⟩
  · apply analyze_inner threeSetups rfl rfl rfl (hcompletes _ _ rfl rfl)
  · apply analyze_inner threeSetups rfl rfl rfl (hcompletes _ _ rfl rfl)
  · apply analyze_inner bare rfl rfl rfl (hcompletes _ _ rfl rfl)

end Nesting

end ServiceFlow
