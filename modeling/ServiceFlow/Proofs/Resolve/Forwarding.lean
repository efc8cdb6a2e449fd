import ServiceFlow.Proofs.Propagation.Forwarding
import ServiceFlow.Proofs.Resolve.SingleCall

/-!
# The analysis of a class that forwards

Nothing is known of a parameter: the run from the method that loads the class leaves its call open.
What the analysis reports is what the search among the callers finds.
-/

namespace ServiceFlow

/-- The load calls of a body are among its invocations. -/
theorem LoadTarget.callsIn_eq_invokes (t : LoadTarget) (m : MethodSig) (b : Body) :
  t.callsIn m b =
    (b.invokes m).filterMap (fun s => if t.accepts s.2 then some (.ofInvoke s.1 s.2) else none)
  := by
  rw [Body.invokes, List.filterMap_filterMap, callsIn]
  congr
  funext s
  cases s.1.invoke? <;> rfl

namespace ForwardingClass

open Passer

variable (x : ForwardingClass)

/-- What a run from a method says about the load call. -/
def outcome (config : Config) (m : MethodSig) : Except ScopeError Outcome :=
  (config.run x.view m .empty).map (fun r => r.outcome x.loadSite.call)

/-- What the search among the callers finds. -/
def search (config : Config) (g : CallGraph) : Findings :=
  (CallerSearch.walk (x.outcome config) config.maxVisitedMethods.toNat g
    config.maxBacktrackDepth.toNat (x.loader.sig x.owner) ⟨[x.loader.sig x.owner], {}⟩).findings

theorem callsIn_body {p : Passer} (hp : p ∈ x.passers) :
  ({} : LoadTarget).callsIn (p.sig x.owner) (p.body x.owner) =
    if p.name = x.loader.name then [x.loadSite.call] else []
  := by
  obtain ⟨hloader, _, hgoal⟩ := x.loads
  have hname : p.name = x.loader.name ↔ p.goal = none := by
    constructor
    · intro h
      rw [eq_of_name hp hloader h, hgoal]
    · intro h
      rw [x.only p hp h]
  have haccepts : ({} : LoadTarget).accepts (p.invoke x.owner) = p.goal.isNone := by
    have hskips := skips_invoke hp
    simpa [LoadTarget.skips, ofInvoke?_invoke hp] using hskips
  have hcalls : ({} : LoadTarget).callsIn (p.sig x.owner) (p.body x.owner) =
      if p.goal = none then [.ofInvoke (p.site x.owner) (p.invoke x.owner)] else [] := by
    rw [LoadTarget.callsIn_eq_invokes, invokes_body, List.filterMap_cons, haccepts, site]
    cases p.goal <;> rfl
  rw [hcalls]
  split
  · next hnone =>
    obtain rfl := x.only p hp hnone
    rw [if_pos rfl, invoke_loader, ← x.loadSite.ofInvoke_loadOf]
    rfl
  · next hsome => rw [if_neg (mt hname.1 hsome)]

theorem loadCalls_decl :
  x.decl.loadCalls {} = [x.loadSite.call]
  := by
  have hloader := x.loads.1
  have hfind : x.passers.find? (fun p => p.name = x.loader.name) = some x.loader := by
    apply find?_of_key hloader
    intro p hp hname
    apply eq_of_name hp hloader hname
  have hcalls : x.decl.loadCalls {} =
      x.passers.flatMap (fun p => if p.name = x.loader.name then [x.loadSite.call] else []) := by
    rw [ClassDecl.loadCalls, decl, List.flatMap_map]
    apply List.flatMap_congr
    intro p hp
    apply x.callsIn_body hp
  rw [hcalls, flatMap_if_key x.distinct, hfind]
  rfl

theorem staticInitializer?_decl :
  x.decl.staticInitializer? = none
  := by
  apply List.find?_eq_none.2
  intro d hd
  obtain ⟨p, hp, rfl⟩ := List.mem_map.1 hd
  apply Bool.eq_false_iff.1 (isStaticInitializer_sig hp)

/-- The analysis reports what the search among the callers finds. -/
theorem analyze_of_search {pool : ClassPool} (hload : pool.load x.owner = .ok x.decl)
    {config : Config} (htarget : config.target = {}) (hcallers : config.callerBacktracking = true)
    (hcompletes : config.Completes x.view (x.loader.sig x.owner) .empty) {g : CallGraph}
    (hg : CallGraph.build x.view skips = .ok g) (hfailure : (x.search config g).failure = none)
    (hfound : ((x.search config g).found.map Finding.call).Nodup) :
  pool.analyze config x.owner = .ok (.ofSearch x.owner x.loadSite.call (x.search config g).found)
  := by
  have hseeds := Session.seeds_start pool config x.staticInitializer?_decl
  have hown : (Session.start pool config x.decl).outcome x.loadSite.call (x.loader.sig x.owner)
      .empty = .ok ⟨[], 1, 1⟩ := by
    have houtcome := outcome_of_completes htarget x.loads.1 hcompletes (.entry List.mem_cons_self)
    rw [x.loads.2.1] at houtcome
    apply houtcome
  have hsearch : (Session.start pool config x.decl).fromCallers x.loadSite.call {} =
      x.search config g := by
    have hgraph : (Session.start pool config x.decl).graph.get = .ok g := by
      change CallGraph.build x.view config.target.skips = _
      rw [htarget, hg]
    rw [Session.fromCallers, hgraph, hseeds]
    rfl
  rw [← hseeds] at hown
  have hresolve := Session.resolve_of_open rfl hown rfl rfl hcallers rfl
  rw [hsearch] at hresolve
  have hcalls : x.decl.loadCalls config.target = [x.loadSite.call] := by
    rw [htarget, loadCalls_decl]
  apply ClassPool.analyze_of_single hload hcalls hresolve hfailure hfound

end ForwardingClass

end ServiceFlow
