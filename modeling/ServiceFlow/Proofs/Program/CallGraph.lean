import Mathlib.Data.List.Sigma
import ServiceFlow.Program.CallGraph
import ServiceFlow.Proofs.Program.Supergraph

/-!
# Call graphs and supergraphs

The call graph of a view walks over all methods, a supergraph over those that can be reached from
some entries.  Both collect the call sites of a method from its body.  Where every method is
declared in its own class and no signature twice, the two have the same calls: what the one finds
along its edges is what the other finds in its call sites.
-/

namespace ServiceFlow

/-! ### The call sites of a method -/

/-- The sites of different statements stand apart. -/
theorem Body.nodup_invokes (b : Body) (m : MethodSig) :
  ((b.invokes m).map Prod.fst).Nodup
  := by
  apply List.pairwise_map.2
  apply List.pairwise_filterMap.2
  apply (List.pairwise_map.1 (List.nodup_zipIdx_map_snd b.stmts)).imp
  intro s s' hne x hx y hy
  obtain ⟨i, _, rfl⟩ := Option.map_eq_some_iff.1 hx
  obtain ⟨j, _, rfl⟩ := Option.map_eq_some_iff.1 hy
  simpa using hne

namespace View

variable {v : View} {skip : Invoke → Bool} {m : MethodSig}

/-- The call sites of a method; none if some invocation cannot be resolved. -/
def sitesOf (v : View) (skip : Invoke → Bool) (m : MethodSig) : List CallSite :=
  (v.callSites skip m).toOption.getD []

theorem sitesOf_eq {sites : List CallSite} (h : v.callSites skip m = .ok sites) :
  v.sitesOf skip m = sites
  := by
  rw [sitesOf, h]
  rfl

theorem sitesOf_eq_nil (h : v.hasBody m = false) :
  v.sitesOf skip m = []
  := by
  have hbody : v.body? m = none := by simpa [hasBody] using h
  rw [sitesOf, callSites, hbody]
  rfl

/-- A body has a call site for each of its invocations. -/
theorem map_point_callSitesOf {b : Body} {sites : List CallSite}
    (h : v.callSitesOf skip m b = .ok sites) :
  sites.map CallSite.point = (b.invokes m).map Prod.fst
  := by
  apply map_eq_map_of_mapM h
  intro s _ site hsite
  obtain ⟨ts, _, rfl⟩ := map_eq_ok hsite
  rfl

theorem nodup_map_point {sites : List CallSite} (h : v.callSites skip m = .ok sites) :
  (sites.map CallSite.point).Nodup
  := by
  rw [callSites] at h
  split at h
  · next b _ =>
    rw [map_point_callSitesOf h]
    apply b.nodup_invokes
  · obtain rfl : [] = sites := Except.ok.inj h
    apply List.nodup_nil

theorem method_of_mem_sitesOf {s : CallSite} (hs : s ∈ v.sitesOf skip m) :
  s.point.method = m
  := by
  cases h : v.callSites skip m with
  | error e =>
      rw [sitesOf, h] at hs
      cases hs
  | ok sites =>
      rw [sitesOf_eq h] at hs
      apply ((mem_callSites_iff h).1 hs).1

/-- The methods that a method calls are the targets of its call sites. -/
theorem calledMethods_eq {sites : List CallSite} (h : v.callSites skip m = .ok sites) :
  v.calledMethods skip m = sites.flatMap CallSite.targets
  := by
  rw [callSites_eq_mapM] at h
  have htargets : sites.map CallSite.targets =
      (v.invokes m).map (fun s => v.targetsOf skip s.2) := by
    apply map_eq_map_of_mapM h
    intro s _ site hsite
    obtain ⟨ts, hts, rfl⟩ := map_eq_ok hsite
    apply (targetsOf_eq hts).symm
  rw [calledMethods_eq_flatMap, List.flatMap_def, ← htargets, ← List.flatMap_def]

/-- Every method is declared in the class that its signature names, and no signature twice. -/
structure IsRegular (v : View) : Prop where
  owners : ∀ d ∈ v.classes, ∀ m ∈ d.methods, m.signature.owner = d.name
  signatures : (v.methods.map Method.signature).Nodup

/-- In a regular view every method is found under its signature. -/
theorem IsRegular.body? (hv : v.IsRegular) {d : Method} (hd : d ∈ v.methods) :
  v.body? d.signature = d.body
  := by
  obtain ⟨c, hc, hdc⟩ := List.mem_flatMap.1 hd
  have hclass : v.class? d.signature.owner = some c := by
    apply View.class?_eq_some_iff.2 ⟨hc, (hv.owners c hc d hdc).symm⟩
  have hmethod : c.method? d.signature = some d := by
    apply find?_of_key hdc
    intro e he hsignature
    have hmem : e ∈ v.methods := List.mem_flatMap.2 ⟨c, hc, he⟩
    apply List.inj_on_of_nodup_map hv.signatures hmem hd hsignature
  rw [View.body?, method?, hclass, Option.bind_some, hmethod, Option.bind_some]

end View

/-! ### The edges of a call graph -/

namespace CallSite

theorem site_of_mem_edges {s : CallSite} {e : CallEdge} (h : e ∈ s.edges) :
  e.site = s.point
  := by
  obtain ⟨m, _, rfl⟩ := List.mem_map.1 h
  rfl

theorem map_callee_edges (s : CallSite) :
  s.edges.map CallEdge.callee = s.targets
  := by
  simp [edges, Function.comp_def]

theorem map_callee_filter_edges (s : CallSite) (q : StmtId) :
  (s.edges.filter (fun e => e.site = q)).map CallEdge.callee = if s.point = q then s.targets else []
  := by
  split
  · next hpoint =>
    have hall : s.edges.filter (fun e => e.site = q) = s.edges := by
      apply List.filter_eq_self.2
      intro e he
      simpa [site_of_mem_edges he] using hpoint
    rw [hall, map_callee_edges]
  · next hpoint =>
    have hnone : s.edges.filter (fun e => e.site = q) = [] := by
      apply List.filter_eq_nil_iff.2
      intro e he
      simpa [site_of_mem_edges he] using hpoint
    rw [hnone]
    rfl

end CallSite

namespace View

/-- The calls of a method in the order of its statements. -/
def edgesOf (v : View) (skip : Invoke → Bool) (d : Method) : List CallEdge :=
  (d.body.elim [] (fun b => b.invokes d.signature)).flatMap
    (fun s => (v.targetsOf skip s.2).map (fun t => ⟨s.1, t⟩))

theorem edgesOf_eq {v : View} {skip : Invoke → Bool} {d : Method} {b : Body} (hb : d.body = some b)
    {sites : List CallSite} (h : v.callSitesOf skip d.signature b = .ok sites) :
  v.edgesOf skip d = sites.flatMap CallSite.edges
  := by
  have hedges : sites.map CallSite.edges = (b.invokes d.signature).map
      (fun s => (v.targetsOf skip s.2).map (fun t => ⟨s.1, t⟩)) := by
    apply map_eq_map_of_mapM h
    intro s _ site hsite
    obtain ⟨ts, hts, rfl⟩ := map_eq_ok hsite
    rw [targetsOf_eq hts]
    rfl
  rw [edgesOf, hb, Option.elim_some, List.flatMap_def, ← hedges, ← List.flatMap_def]

end View

namespace CallGraph

variable {v : View} {skip : Invoke → Bool} {g : CallGraph}

theorem build_eq_ok (h : build v skip = .ok g) :
  ∃ rows, v.methods.mapM (rowOf v skip) = .ok rows ∧
    g.edges = (rows.filterMap id).flatMap (fun r => r.2.flatMap CallSite.edges)
  := by
  obtain ⟨rows, hrows, hg⟩ := bind_eq_ok h
  obtain rfl := Except.ok.inj hg
  use rows, hrows

/-- If the graph was built, the invocations of every method can be resolved. -/
theorem exists_callSites (h : build v skip = .ok g) (m : MethodSig) :
  ∃ sites, v.callSites skip m = .ok sites
  := by
  obtain ⟨rows, hrows, _⟩ := build_eq_ok h
  rw [View.callSites]
  cases hb : v.body? m with
  | none => use []
  | some b =>
      obtain ⟨d, hd, rfl, hbody⟩ := View.exists_method_of_body? hb
      obtain ⟨row, hrow⟩ := exists_mapM_eq_ok.1 ⟨rows, hrows⟩ d hd
      rw [rowOf, hbody] at hrow
      obtain ⟨sites, hsites, _⟩ := map_eq_ok hrow
      use sites, hsites

/-- The edges are those of the invocations, method by method. -/
theorem edges_eq (h : build v skip = .ok g) :
  g.edges = v.methods.flatMap (v.edgesOf skip)
  := by
  obtain ⟨rows, hrows, hedges⟩ := build_eq_ok h
  have hkeys : rows.map (fun row => row.elim [] (fun r => r.2.flatMap CallSite.edges)) =
      v.methods.map (v.edgesOf skip) := by
    apply map_eq_map_of_mapM hrows
    intro d _ row hrow
    cases hb : d.body with
    | none =>
        rw [rowOf, hb] at hrow
        obtain rfl := Except.ok.inj hrow
        rw [View.edgesOf, hb]
        rfl
    | some b =>
        rw [rowOf, hb] at hrow
        obtain ⟨sites, hsites, rfl⟩ := map_eq_ok hrow
        apply (View.edgesOf_eq hb hsites).symm
  rw [hedges, flatMap_filterMap_id, List.flatMap_def, hkeys, ← List.flatMap_def]

/-- In a regular view the edges are those of the call sites, method by method. -/
theorem edges_build (hv : v.IsRegular) (h : build v skip = .ok g) :
  g.edges = (v.methods.map Method.signature).flatMap
    (fun m => (v.sitesOf skip m).flatMap CallSite.edges)
  := by
  rw [edges_eq h, List.flatMap_map]
  apply List.flatMap_congr
  intro d hd
  obtain ⟨sites, hsites⟩ := exists_callSites h d.signature
  rw [View.sitesOf_eq hsites]
  rw [View.callSites, hv.body? hd] at hsites
  cases hb : d.body with
  | none =>
      rw [hb] at hsites
      obtain rfl : [] = sites := Except.ok.inj hsites
      rw [View.edgesOf, hb]
      rfl
  | some b =>
      rw [hb] at hsites
      apply View.edgesOf_eq hb hsites

theorem site_method_of_mem_edges {m : MethodSig} {e : CallEdge}
    (h : e ∈ (v.sitesOf skip m).flatMap CallSite.edges) :
  e.site.method = m
  := by
  obtain ⟨s, hs, he⟩ := List.mem_flatMap.1 h
  rw [CallSite.site_of_mem_edges he, View.method_of_mem_sitesOf hs]

/-- The edges out of a method are those of its call sites. -/
theorem filter_edges_method (hv : v.IsRegular) (h : build v skip = .ok g) (m : MethodSig) :
  g.edges.filter (fun e => e.site.method = m) = (v.sitesOf skip m).flatMap CallSite.edges
  := by
  rw [edges_build hv h, filter_flatMap_of_key (fun e => e.site.method)
    (fun _ _ he => site_method_of_mem_edges he) hv.signatures m]
  split
  · rfl
  · next hm =>
    have hbody : v.hasBody m = false := by
      rw [Bool.eq_false_iff]
      intro hbody
      apply hm (v.mem_signatures_of_hasBody hbody)
    rw [View.sitesOf_eq_nil hbody]
    rfl

theorem mem_callees (hv : v.IsRegular) (h : build v skip = .ok g) {m callee : MethodSig} :
  callee ∈ g.callees m ↔ callee ∈ v.calledMethods skip m
  := by
  obtain ⟨sites, hsites⟩ := exists_callSites h m
  rw [callees, filter_edges_method hv h, List.mem_eraseDups, View.sitesOf_eq hsites,
    View.calledMethods_eq hsites, List.map_flatMap]
  simp only [CallSite.map_callee_edges]

/-- A method that calls another one has a body. -/
theorem hasBody_of_mem_callers (hv : v.IsRegular) (h : build v skip = .ok g) {m caller : MethodSig}
    (hcaller : caller ∈ g.callers m) :
  v.hasBody caller
  := by
  obtain ⟨q, hq, rfl⟩ := List.mem_map.1 (List.mem_eraseDups.1 hcaller)
  obtain ⟨e, he, rfl⟩ := List.mem_map.1 hq
  by_contra hbody
  have hout : e ∈ g.edges.filter (fun e' => e'.site.method = e.site.method) :=
    List.mem_filter.2 ⟨(List.mem_filter.1 he).1, decide_eq_true rfl⟩
  rw [filter_edges_method hv h, View.sitesOf_eq_nil (Bool.eq_false_iff.2 hbody)] at hout
  cases hout

/-- The targets of the edges of a statement are those of its call site. -/
theorem map_callee_filter_edges (hv : v.IsRegular) (h : build v skip = .ok g) (q : StmtId) :
  (g.edges.filter (fun e => e.site = q)).map CallEdge.callee =
    ((v.sitesOf skip q.method).find? (fun s => s.point = q)).elim [] CallSite.targets
  := by
  obtain ⟨sites, hsites⟩ := exists_callSites h q.method
  have himp : ∀ e : CallEdge, decide (e.site = q) → decide (e.site.method = q.method) := by
    intro e he
    rw [of_decide_eq_true he]
    apply decide_eq_true rfl
  rw [← filter_filter_of_imp himp, filter_edges_method hv h, List.filter_flatMap, List.map_flatMap]
  simp only [CallSite.map_callee_filter_edges]
  rw [View.sitesOf_eq hsites]
  apply flatMap_if_key (View.nodup_map_point hsites)

end CallGraph

/-! ### Agreement -/

namespace Supergraph

variable {v : View} {entries : List MethodSig} {skip : Invoke → Bool} {g : Supergraph}

theorem sites_build (h : build v entries skip = .ok g) :
  g.sites = g.methods.flatMap (v.sitesOf skip)
  := by
  obtain ⟨rows, hrows, rfl⟩ := build_eq_ok h
  have hkeys : rows.map id = (v.reachableMethods skip entries).map (v.sitesOf skip) := by
    apply map_eq_map_of_mapM hrows
    intro m _ sites hsites
    apply (View.sitesOf_eq hsites).symm
  rw [List.flatMap_def, ← hkeys, List.map_id]

/-- The methods entered from a statement of the graph are the targets of its call site. -/
theorem callees_eq (h : build v entries skip = .ok g) {q : StmtId} (hq : q.method ∈ g.methods) :
  g.callees q =
    ((v.sitesOf skip q.method).find? (fun s => s.point = q)).elim [] CallSite.targets
  := by
  have himp : ∀ s : CallSite, decide (s.point = q) → decide (s.point.method = q.method) := by
    intro s hs
    rw [of_decide_eq_true hs]
    apply decide_eq_true rfl
  rw [callees, site?, ← List.head?_filter, ← filter_filter_of_imp himp, sites_build h,
    filter_flatMap_of_key (fun s => s.point.method) (fun _ _ hs => View.method_of_mem_sitesOf hs)
      (nodup_methods h), if_pos hq, List.head?_filter]

end Supergraph

end ServiceFlow

