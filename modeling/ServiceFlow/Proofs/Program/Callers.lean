import Mathlib.Data.List.Forall2
import ServiceFlow.Proofs.Ir.Order
import ServiceFlow.Proofs.Program.CallGraph
import ServiceFlow.Proofs.Program.Reachability
import ServiceFlow.Proofs.Program.Reordering

/-!
# Callers and callees

A supergraph and a call graph answer both who calls a method and whom a method calls.  The two
answers agree, and both come from the program: a call graph has the calls that are met when the
methods of the view are read one after another, from the first statement to the last.  Each call is
met at a point of its own, and the points put the callers of a method in order.
-/

namespace ServiceFlow

/-! ### The calls of a program -/

/-- Invocations come in the order of their statements. -/
theorem Body.pairwise_invokes (b : Body) (m : MethodSig) :
  (b.invokes m).Pairwise (fun s s' => s.1.offset < s'.1.offset)
  := by
  apply List.pairwise_filterMap.2
  apply (pairwise_zipIdx b.stmts).imp
  intro s s' hlt x hx y hy
  obtain ⟨i, _, rfl⟩ := Option.map_eq_some_iff.1 hx
  obtain ⟨j, _, rfl⟩ := Option.map_eq_some_iff.1 hy
  apply hlt

namespace View

variable {v : View} {skip : Invoke → Bool}

/-- A call that is met when the methods of a view are read one after another.  It is met at a point:
the place of the method among those of the view, and the offset of the statement. -/
inductive CallAt (v : View) (skip : Invoke → Bool) : Point Nat → MethodSig → MethodSig → Prop where
  | intro {p : Point Nat} {d : Method} {b : Body} {stmt : Stmt} {i : Invoke} {ts : List MethodSig}
      {callee : MethodSig} (hd : v.methods[p.method]? = some d) (hb : d.body = some b)
      (hstmt : b.stmts[p.offset]? = some stmt) (hi : stmt.invoke? = some i) (hskip : skip i = false)
      (hts : v.resolve i = .ok ts) (hcallee : callee ∈ ts) (hbody : v.hasBody callee) :
      CallAt v skip p d.signature callee

theorem nodup_of_resolve {i : Invoke} {ts : List MethodSig} (h : v.resolve i = .ok ts) :
  ts.Nodup
  := by
  rw [resolve] at h
  split at h
  · obtain rfl := Except.ok.inj h
    apply List.nodup_nil
  · obtain ⟨found, _, hfound⟩ := bind_eq_ok h
    obtain rfl := Except.ok.inj hfound
    apply nodup_eraseDups

theorem nodup_targetsOf (v : View) (skip : Invoke → Bool) (i : Invoke) :
  (v.targetsOf skip i).Nodup
  := by
  cases hts : v.targets skip i with
  | error e =>
      rw [targetsOf, hts]
      apply List.nodup_nil
  | ok ts =>
      rw [targetsOf_eq hts]
      rw [targets] at hts
      split at hts
      · obtain rfl := Except.ok.inj hts
        apply List.nodup_nil
      · obtain ⟨found, hfound, rfl⟩ := map_eq_ok hts
        apply (nodup_of_resolve hfound).filter

theorem mem_edgesOf_iff {d : Method} {e : CallEdge} :
  e ∈ v.edgesOf skip d ↔ e.site.method = d.signature ∧ ∃ b stmt i, d.body = some b ∧
    b.stmts[e.site.offset]? = some stmt ∧ stmt.invoke? = some i ∧ e.callee ∈ v.targetsOf skip i
  := by
  rw [edgesOf, List.mem_flatMap]
  constructor
  · rintro ⟨⟨q, i⟩, hq, he⟩
    obtain ⟨t, ht, rfl⟩ := List.mem_map.1 he
    cases hb : d.body with
    | none =>
        rw [hb] at hq
        cases hq
    | some b =>
        rw [hb] at hq
        obtain ⟨hmethod, stmt, hstmt, hi⟩ := Body.mem_invokes_iff.1 hq
        use hmethod, b, stmt, i
  · rintro ⟨hmethod, b, stmt, i, hb, hstmt, hi, ht⟩
    use (e.site, i)
    constructor
    · rw [hb]
      apply Body.mem_invokes_iff.2 ⟨hmethod, stmt, hstmt, hi⟩
    · apply List.mem_map.2 ⟨e.callee, ht, rfl⟩

/-- A method calls another one from a statement only once. -/
theorem pairwise_edgesOf (v : View) (skip : Invoke → Bool) (d : Method) :
  (v.edgesOf skip d).Pairwise (fun e e' => e.callee = e'.callee → e.site.offset < e'.site.offset)
  := by
  rw [edgesOf, List.pairwise_flatMap]
  constructor
  · intro s _
    apply List.pairwise_map.2
    apply (v.nodup_targetsOf skip s.2).imp
    intro t t' hne heq
    contradiction
  · cases d.body with
    | none => apply List.Pairwise.nil
    | some b =>
        apply (b.pairwise_invokes d.signature).imp
        intro s s' hlt e he e' he' _
        obtain ⟨_, _, rfl⟩ := List.mem_map.1 he
        obtain ⟨_, _, rfl⟩ := List.mem_map.1 he'
        apply hlt

/-- All calls with the points where they are met. -/
def callLog (v : View) (skip : Invoke → Bool) : List (Point Nat × CallEdge) :=
  v.methods.zipIdx.flatMap
    (fun d => (v.edgesOf skip d.1).map (fun e => (⟨d.2, e.site.offset⟩, e)))

theorem mem_callLog_iff {p : Point Nat} {e : CallEdge} :
  (p, e) ∈ v.callLog skip ↔ e.site.offset = p.offset ∧ v.CallAt skip p e.site.method e.callee
  := by
  rw [callLog, List.mem_flatMap]
  constructor
  · rintro ⟨⟨d, place⟩, hd, he⟩
    obtain ⟨e, hedge, heq⟩ := List.mem_map.1 he
    cases heq
    obtain ⟨hmethod, b, stmt, i, hb, hstmt, hi, ht⟩ := mem_edgesOf_iff.1 hedge
    obtain ⟨hskip, ts, hts, hcallee, hbody⟩ := mem_targetsOf_iff.1 ht
    rw [hmethod]
    exact ⟨rfl, .intro (List.mem_zipIdx_iff_getElem?.1 hd) hb hstmt hi hskip hts hcallee hbody⟩
  · obtain ⟨place, offset⟩ := p
    obtain ⟨⟨m, offset'⟩, callee⟩ := e
    rintro ⟨rfl, hcall⟩
    cases hcall with
    | @intro d b stmt i ts _ hd hb hstmt hi hskip hts hcallee hbody =>
        have hedge : ⟨⟨d.signature, offset'⟩, callee⟩ ∈ v.edgesOf skip d := by
          apply mem_edgesOf_iff.2 ⟨rfl, b, stmt, i, hb, hstmt, hi, _⟩
          apply mem_targetsOf_iff.2 ⟨hskip, ts, hts, hcallee, hbody⟩
        use (d, place), List.mem_zipIdx_iff_getElem?.2 hd
        apply List.mem_map.2 ⟨_, hedge, rfl⟩

/-- The calls of a method are met one after another. -/
theorem pairwise_callLog (v : View) (skip : Invoke → Bool) :
  (v.callLog skip).Pairwise (fun x y => x.2.callee = y.2.callee → x.1.Before (· < ·) y.1)
  := by
  rw [callLog, List.pairwise_flatMap]
  constructor
  · rintro ⟨d, place⟩ _
    apply List.pairwise_map.2
    apply (v.pairwise_edgesOf skip d).imp
    intro e e' hlt heq
    apply Prod.Lex.right _ (hlt heq)
  · apply (pairwise_zipIdx v.methods).imp
    intro d d' hlt x hx y hy _
    obtain ⟨_, _, rfl⟩ := List.mem_map.1 hx
    obtain ⟨_, _, rfl⟩ := List.mem_map.1 hy
    apply Prod.Lex.left _ _ hlt

/-- The calls that enter a method, with the points where they are met. -/
def callsTo (v : View) (skip : Invoke → Bool) (b : MethodSig) : List (Point Nat × CallEdge) :=
  (v.callLog skip).filter (fun x => x.2.callee = b)

theorem mem_callsTo_iff {p : Point Nat} {e : CallEdge} {b : MethodSig} :
  (p, e) ∈ v.callsTo skip b ↔
    e.site.offset = p.offset ∧ e.callee = b ∧ v.CallAt skip p e.site.method b
  := by
  rw [callsTo, List.mem_filter, mem_callLog_iff, decide_eq_true_eq]
  constructor
  · rintro ⟨⟨hoffset, hcall⟩, rfl⟩
    use hoffset, rfl
  · rintro ⟨hoffset, rfl, hcall⟩
    exact ⟨⟨hoffset, hcall⟩, rfl⟩

theorem mem_callsTo_of_callAt {p : Point Nat} {a b : MethodSig} (h : v.CallAt skip p a b) :
  (p, ⟨⟨a, p.offset⟩, b⟩) ∈ v.callsTo skip b
  := mem_callsTo_iff.2 ⟨rfl, rfl, h⟩

theorem pairwise_callsTo (v : View) (skip : Invoke → Bool) (b : MethodSig) :
  (v.callsTo skip b).Pairwise (fun x y => x.1.Before (· < ·) y.1)
  := by
  apply List.Pairwise.imp_of_mem _ ((v.pairwise_callLog skip).filter _)
  intro x y hx hy hbefore
  apply hbefore
  rw [(mem_callsTo_iff.1 hx).2.1, (mem_callsTo_iff.1 hy).2.1]

end View

/-! ### Call graphs -/

namespace CallGraph

variable {v : View} {skip : Invoke → Bool} {g : CallGraph}

/-- The calls of a graph are those that are met, in this order. -/
theorem map_snd_callLog (h : build v skip = .ok g) :
  (v.callLog skip).map Prod.snd = g.edges
  := by
  have hlog : (v.callLog skip).map Prod.snd =
      (v.methods.zipIdx.map Prod.fst).flatMap (v.edgesOf skip) := by
    rw [View.callLog, List.map_flatMap, List.flatMap_map]
    simp [Function.comp_def]
  rw [hlog, List.zipIdx_map_fst, edges_eq h]

theorem callSites_eq (h : build v skip = .ok g) (b : MethodSig) :
  g.callSites b = (v.callsTo skip b).map (fun x => x.2.site)
  := by
  rw [callSites, ← map_snd_callLog h, List.filter_map, List.map_map]
  rfl

/-- A method is a caller of another one if some call of it is met. -/
theorem mem_callers_iff_callAt (h : build v skip = .ok g) {a b : MethodSig} :
  a ∈ g.callers b ↔ ∃ p, v.CallAt skip p a b
  := by
  rw [callers, List.mem_eraseDups, callSites_eq h, List.map_map]
  constructor
  · intro ha
    obtain ⟨⟨p, e⟩, hx, rfl⟩ := List.mem_map.1 ha
    use p, (View.mem_callsTo_iff.1 hx).2.2
  · rintro ⟨p, hcall⟩
    apply List.mem_map.2 ⟨_, View.mem_callsTo_of_callAt hcall, rfl⟩

/-- Callers stand in the order in which they are first met. -/
theorem pairwise_callers (h : build v skip = .ok g) (b : MethodSig) :
  (g.callers b).Pairwise (fun a a' => ∃ p, v.CallAt skip p a b ∧
    ∀ q, v.CallAt skip q a' b → p.Before (· < ·) q)
  := by
  rw [callers, callSites_eq h, List.map_map]
  apply (pairwise_eraseDups_map _ (v.pairwise_callsTo skip b)).imp
  rintro a a' ⟨⟨p, e⟩, hx, rfl, hfirst⟩
  use p, (View.mem_callsTo_iff.1 hx).2.2
  intro q hq
  apply hfirst _ (View.mem_callsTo_of_callAt hq) rfl

/-- The call sites of a method stand in the order of the points where its calls are met. -/
theorem exists_points_callSites (h : build v skip = .ok g) (b : MethodSig) :
  ∃ ps : List (Point Nat), ps.Pairwise (Point.Before (· < ·)) ∧
    (∀ p, p ∈ ps ↔ ∃ a, v.CallAt skip p a b) ∧
    List.Forall₂ (fun p s => s.offset = p.offset ∧ v.CallAt skip p s.method b) ps (g.callSites b)
  := by
  use (v.callsTo skip b).map Prod.fst
  refine ⟨List.pairwise_map.2 (v.pairwise_callsTo skip b), ?_, ?_⟩
  · intro p
    constructor
    · intro hp
      obtain ⟨⟨p, e⟩, hx, rfl⟩ := List.mem_map.1 hp
      use e.site.method, (View.mem_callsTo_iff.1 hx).2.2
    · rintro ⟨a, hcall⟩
      apply List.mem_map.2 ⟨_, View.mem_callsTo_of_callAt hcall, rfl⟩
  · rw [callSites_eq h, List.forall₂_map_left_iff, List.forall₂_map_right_iff, List.forall₂_same]
    rintro ⟨p, e⟩ hx
    use (View.mem_callsTo_iff.1 hx).1, (View.mem_callsTo_iff.1 hx).2.2

end CallGraph

/-! ### Supergraphs -/

namespace Supergraph

variable {v : View} {entries : List MethodSig} {skip : Invoke → Bool} {g : Supergraph}

/-- Different call sites stand at different statements. -/
theorem nodup_map_point (h : build v entries skip = .ok g) :
  (g.sites.map CallSite.point).Nodup
  := by
  rw [sites_build h, List.map_flatMap, List.Nodup, List.pairwise_flatMap]
  constructor
  · intro m hm
    obtain ⟨row, hrow, _⟩ := exists_callSites_of_mem h hm
    rw [View.sitesOf_eq hrow]
    apply View.nodup_map_point hrow
  · apply (nodup_methods h).imp
    rintro m n hne p hp q hq rfl
    obtain ⟨s, hs, rfl⟩ := List.mem_map.1 hp
    obtain ⟨t, ht, heq⟩ := List.mem_map.1 hq
    apply hne
    rw [← View.method_of_mem_sitesOf hs, ← View.method_of_mem_sitesOf ht, heq]

theorem mem_callers_iff_mem_callees (h : build v entries skip = .ok g) {p : StmtId}
    {m : MethodSig} :
  p ∈ g.callers m ↔ m ∈ g.callees p
  := by
  rw [callers, List.mem_mergeSort, callees]
  constructor
  · intro hp
    obtain ⟨s, hs, rfl⟩ := List.mem_map.1 hp
    obtain ⟨hmem, hm⟩ := List.mem_filter.1 hs
    rw [(site?_eq_some_iff h).2 ⟨hmem, rfl⟩]
    simpa using hm
  · intro hm
    cases hs : g.site? p with
    | none =>
        rw [hs] at hm
        cases hm
    | some s =>
        rw [hs] at hm
        obtain ⟨hmem, rfl⟩ := (site?_eq_some_iff h).1 hs
        apply List.mem_map.2 ⟨s, _, rfl⟩
        apply List.mem_filter.2 ⟨hmem, _⟩
        simpa using hm

/-- Call sites are listed in ascending order, each once. -/
theorem pairwise_callers (h : build v entries skip = .ok g) (m : MethodSig) :
  (g.callers m).Pairwise (fun p q => compare p q = .lt)
  := by
  have hnodup : (g.callers m).Nodup := by
    apply (List.mergeSort_perm _ _).nodup_iff.2
    apply (nodup_map_point h).sublist (List.filter_sublist.map _)
  have hsorted : (g.callers m).Pairwise (fun p q => (compare p q).isLE) := by
    apply List.pairwise_mergeSort StmtId.linear.trans
    intro p q
    apply Bool.or_eq_true_iff.2 (StmtId.linear.total p q)
  apply (hsorted.and hnodup).imp
  rintro p q ⟨hle, hne⟩
  rcases Ordering.isLE_iff_eq_lt_or_eq_eq.1 hle with hlt | heq
  · apply hlt
  · cases hne ((StmtId.linear.eq_iff p q).1 heq)

/-- A statement enters what an invocation that is not skipped is resolved to. -/
theorem mem_callees_iff (h : build v entries skip = .ok g) {p : StmtId} {m : MethodSig} :
  m ∈ g.callees p ↔
    ∃ i ts, v.Follows skip entries p i ∧ v.resolve i = .ok ts ∧ m ∈ ts ∧ v.hasBody m
  := by
  constructor
  · apply exists_follows_of_mem_callees h
  · rintro ⟨i, ts, hp, hts, hm, hbody⟩
    obtain ⟨ts', hts', hcallees⟩ := callees_of_follows h hp
    obtain rfl : ts = ts' := Except.ok.inj (hts.symm.trans hts')
    rw [hcallees]
    apply List.mem_filter.2 ⟨hm, hbody⟩

end Supergraph

/-! ### Both directions -/

/-- Who calls a method and whom a method calls are inverse relations, and both are read off the
program.  A supergraph lists the call sites of a method in ascending order, each once.  A call graph
lists callers and callees once, callers in the order of their first calls, and call sites in the
order in which the calls are met, one for each call. -/
theorem View.callers_callees_inverse (v : View) (skip : Invoke → Bool) :
  (∀ entries g, Supergraph.build v entries skip = .ok g → ∀ m,
    (g.callers m).Pairwise (fun p q => compare p q = .lt) ∧
    ∀ p, (p ∈ g.callers m ↔ m ∈ g.callees p) ∧ (m ∈ g.callees p ↔
      ∃ i ts, v.Follows skip entries p i ∧ v.resolve i = .ok ts ∧ m ∈ ts ∧ v.hasBody m)) ∧
  (∀ g, CallGraph.build v skip = .ok g → ∀ b,
    (∀ a, (a ∈ g.callers b ↔ b ∈ g.callees a) ∧
      (b ∈ g.callees a ↔ ∃ p, v.CallAt skip p a b)) ∧
    (g.callers b).Nodup ∧ (g.callees b).Nodup ∧
    (g.callers b).Pairwise (fun a a' => ∃ p, v.CallAt skip p a b ∧
      ∀ q, v.CallAt skip q a' b → p.Before (· < ·) q) ∧
    ∃ ps : List (Point Nat), ps.Pairwise (Point.Before (· < ·)) ∧
      (∀ p, p ∈ ps ↔ ∃ a, v.CallAt skip p a b) ∧
      List.Forall₂ (fun p s => s.offset = p.offset ∧ v.CallAt skip p s.method b) ps
        (g.callSites b))
  := by
  constructor
  · intro entries g hg m
    use Supergraph.pairwise_callers hg m
    intro p
    exact ⟨Supergraph.mem_callers_iff_mem_callees hg, Supergraph.mem_callees_iff hg⟩
  · intro g hg b
    refine ⟨?_, nodup_eraseDups _, nodup_eraseDups _,
      CallGraph.pairwise_callers hg b, CallGraph.exists_points_callSites hg b⟩
    intro a
    use CallGraph.mem_callers_iff_mem_callees
    rw [← CallGraph.mem_callers_iff_mem_callees, CallGraph.mem_callers_iff_callAt hg]

namespace Callers

def owner : ClassName := ⟨"A"⟩

def foo : MethodSig := ⟨owner, "foo", [], .void⟩
def baz : MethodSig := ⟨owner, "baz", [], .void⟩
def bar : MethodSig := ⟨owner, "bar", [], .void⟩

def calling (m : MethodSig) (targets : List MethodSig) : Method :=
  ⟨m, true, some ⟨[], targets.map (fun t => .invoke ⟨.static, t, none, []⟩) ++ [.retVoid]⟩⟩

def view : View := .ofList
  [⟨owner, none, [], none, [calling foo [bar, foo, bar], calling baz [bar], calling bar [baz]]⟩]

def skip (_ : Invoke) : Bool := false

def supergraph : Supergraph := ⟨view, [foo, bar, baz],
  [⟨⟨foo, 0⟩, [bar]⟩, ⟨⟨foo, 1⟩, [foo]⟩, ⟨⟨foo, 2⟩, [bar]⟩, ⟨⟨bar, 0⟩, [baz]⟩, ⟨⟨baz, 0⟩, [bar]⟩]⟩

def callGraph : CallGraph := ⟨[foo, bar, baz],
  [⟨⟨foo, 0⟩, bar⟩, ⟨⟨foo, 1⟩, foo⟩, ⟨⟨foo, 2⟩, bar⟩, ⟨⟨baz, 0⟩, bar⟩, ⟨⟨bar, 0⟩, baz⟩]⟩

/-- `foo` calls `bar` twice and itself in between, and `bar` and `baz` call each other. -/
theorem callers_of_bar :
  Supergraph.build view [foo] skip = .ok supergraph ∧
  (supergraph.callers bar).Pairwise (fun p q => compare p q = .lt) ∧
  ⟨foo, 2⟩ ∈ supergraph.callers bar ∧ ⟨foo, 1⟩ ∉ supergraph.callers bar ∧
  CallGraph.build view skip = .ok callGraph ∧
  callGraph.callSites bar = [⟨foo, 0⟩, ⟨foo, 2⟩, ⟨baz, 0⟩] ∧
  callGraph.callers bar = [foo, baz] ∧ foo ∈ callGraph.callers foo ∧
  ∃ p, view.CallAt skip p foo bar ∧ ∀ q, view.CallAt skip q baz bar → p.Before (· < ·) q
  := by
  have hsuper : Supergraph.build view [foo] skip = .ok supergraph := rfl
  have hgraph : CallGraph.build view skip = .ok callGraph := rfl
  have hcallers : callGraph.callers bar = [foo, baz] := by decide
  obtain ⟨hsupergraphs, hgraphs⟩ := view.callers_callees_inverse skip
  obtain ⟨hascending, hsites⟩ := hsupergraphs [foo] supergraph hsuper bar
  obtain ⟨_, _, _, hordered, _⟩ := hgraphs callGraph hgraph bar
  obtain ⟨hinverse, _⟩ := hgraphs callGraph hgraph foo
  refine ⟨hsuper, hascending, (hsites ⟨foo, 2⟩).1.2 (by decide), ?_, hgraph, by decide, hcallers,
    (hinverse foo).1.2 (by decide), ?_⟩
  · rw [(hsites ⟨foo, 1⟩).1]
    decide
  · rw [hcallers] at hordered
    apply (List.pairwise_cons.1 hordered).1 baz List.mem_cons_self

end Callers

end ServiceFlow
