import ServiceFlow.Proofs.Program.CallGraph
import ServiceFlow.Proofs.Propagation.Run
import ServiceFlow.Proofs.Resolve.CallerSearch

/-!
# Runs from callers

The search among callers climbs in the call graph of a view, and each of its runs builds the
supergraph of a caller.  The two agree about calls, and what it takes to build a supergraph was
checked when the call graph was built.  Hence no run of the search fails.
-/

namespace ServiceFlow

/-! ### Supergraphs from a call graph -/

namespace CallGraph

variable {v : View} {skip : Invoke → Bool} {g : CallGraph}

/-- If the call graph was built, so is the supergraph of every method with a body. -/
theorem exists_build (h : build v skip = .ok g) {m : MethodSig} (hm : v.hasBody m) :
  ∃ s, Supergraph.build v [m] skip = .ok s
  := by
  obtain ⟨rows, hrows⟩ : ∃ rows, (v.reachableMethods skip [m]).mapM (v.callSites skip) = .ok rows :=
    exists_mapM_eq_ok.2 (fun n _ => exists_callSites h n)
  use ⟨v, v.reachableMethods skip [m], rows.flatten⟩
  rw [Supergraph.build_of_bodies (by simpa using hm), hrows]
  rfl

/-- The methods of the supergraph are those that the call graph leads to. -/
theorem mem_methods_build (hv : v.IsRegular) (h : build v skip = .ok g) {m n : MethodSig}
    {s : Supergraph} (hs : Supergraph.build v [m] skip = .ok s) :
  n ∈ s.methods ↔ Relation.ReflTransGen (fun a b => b ∈ g.callees a) m n
  := by
  have hcallees : (fun a b => b ∈ g.callees a) = fun a b => b ∈ v.calledMethods skip a := by
    funext a b
    rw [mem_callees hv h]
  obtain ⟨rows, _, rfl⟩ := Supergraph.build_eq_ok hs
  rw [(v.explores_reachableMethods skip [m]).mem_iff, Closure.Reaches, hcallees]
  simp

end CallGraph

/-! ### Searches -/

namespace CallerSearch.Search

variable {p : Search} {f : Findings}

/-- What a search runs is a caller of some method. -/
theorem exists_callee_of_mem_ran {m : MethodSig} (h : m ∈ p.ran f) :
  ∃ c, m ∈ p.graph.callers c
  := by
  obtain ⟨trail, hexplores, _⟩ := p.exists_trails f
  obtain ⟨hvisited, hne, _⟩ := mem_ran.1 h
  have hchain := hexplores.trails.chain m hvisited
  generalize trail m = path at hchain
  cases hchain with
  | start => contradiction
  | climb _ _ calls => exact ⟨_, calls⟩

/-- A search whose runs succeed adds no failure. -/
theorem failure_result (h : ∀ m ∈ p.ran f, ∃ o, p.run m = .ok o) :
  (p.result f).findings.failure = f.failure
  := by
  rw [findings_result]
  generalize p.ran f = ran at h
  induction ran with
  | nil => rfl
  | cons m ran ih =>
      obtain ⟨⟨o, ho⟩, hran⟩ := List.forall_mem_cons.1 h
      rw [List.foldr_cons, ho]
      apply ih hran

end CallerSearch.Search

/-- The call graph and the supergraphs of a regular view have the same calls.  If the call graph can
be built, then so can the supergraph of every method with a body; it has the methods that the call
graph leads to, and at each statement the targets of the edges of that statement.  Hence the runs of
a search among callers all succeed. -/
theorem CallGraph.agrees_supergraph {v : View} (hv : v.IsRegular) {skip : Invoke → Bool}
    {g : CallGraph} (h : CallGraph.build v skip = .ok g) :
  (∀ m, v.hasBody m → ∃ s, Supergraph.build v [m] skip = .ok s ∧ s.methods.Nodup ∧
    (∀ n, n ∈ s.methods ↔ Relation.ReflTransGen (fun a b => b ∈ g.callees a) m n) ∧
    ∀ q, q.method ∈ s.methods →
      s.callees q = (g.edges.filter (fun e => e.site = q)).map CallEdge.callee) ∧
  (∀ (t : LoadTarget) (l : Tabulation.Limits) (seeds : Store) (call : LoadCall)
      (p : CallerSearch.Search) (f : Findings), skip = t.skips → p.graph = g →
    p.run = (fun m => (Run.execute v m seeds t l).map (fun r => r.outcome call)) →
    (∀ m ∈ p.ran f, ∃ o, p.run m = .ok o) ∧ (p.result f).findings.failure = f.failure)
  := by
  constructor
  · intro m hm
    obtain ⟨s, hs⟩ := exists_build h hm
    refine ⟨s, hs, ?_, fun n => mem_methods_build hv h hs, ?_⟩
    · obtain ⟨rows, _, rfl⟩ := Supergraph.build_eq_ok hs
      apply (v.explores_reachableMethods skip [m]).nodup
    · intro q hq
      rw [Supergraph.callees_eq hs hq, map_callee_filter_edges hv h]
  · rintro t l seeds call p f rfl rfl hrun
    have hran : ∀ m ∈ p.ran f, ∃ o, p.run m = .ok o := by
      intro m hm
      obtain ⟨c, hcalls⟩ := CallerSearch.Search.exists_callee_of_mem_ran hm
      obtain ⟨s, hs⟩ := exists_build h (hasBody_of_mem_callers hv h hcalls)
      simp only [hrun, Run.execute, hs]
      exact ⟨_, rfl⟩
    use hran
    apply CallerSearch.Search.failure_result hran

/-! ### Methods that call each other -/

namespace Cycle

def owner : ClassName := ⟨"A"⟩
def ping : MethodSig := ⟨owner, "ping", [], .void⟩
def pong : MethodSig := ⟨owner, "pong", [], .void⟩
def top : MethodSig := ⟨owner, "top", [], .void⟩

def calling (m : MethodSig) : Body := ⟨[], [.invoke ⟨.static, m, none, []⟩, .retVoid]⟩

def view : View := .ofList [⟨owner, none, [], none, [
  ⟨ping, true, some (calling pong)⟩,
  ⟨pong, true, some (calling ping)⟩,
  ⟨top, true, some (calling ping)⟩]⟩]

def target : LoadTarget := {}

def graph : CallGraph :=
  ⟨[ping, pong, top], [⟨⟨ping, 0⟩, pong⟩, ⟨⟨pong, 0⟩, ping⟩, ⟨⟨top, 0⟩, ping⟩]⟩

/-- Runs for a call that stands in the second method. -/
def search : CallerSearch.Search where
  run m := (Run.execute view m .empty target ⟨20, 2⟩).map
    (fun r => r.outcome (.ofInvoke ⟨pong, 0⟩ ⟨.static, ping, none, []⟩))
  maxVisited := 10
  graph := graph
  maxDepth := 3
  start := pong

theorem ping_reaches_pong :
  Relation.ReflTransGen (fun a b => b ∈ graph.callees a) ping pong
  := .single (by decide)

/-- From the first method both are reached, and the search from the second one does not fail. -/
theorem supergraph_of_ping :
  view.IsRegular ∧ CallGraph.build view target.skips = .ok graph ∧ view.hasBody ping ∧
  (∃ s, Supergraph.build view [ping] target.skips = .ok s ∧ pong ∈ s.methods ∧
    s.callees ⟨pong, 0⟩ = [ping]) ∧
  (search.result {}).findings.failure = none
  := by
  have hregular : view.IsRegular := ⟨by decide, by decide⟩
  have hbuild : CallGraph.build view target.skips = .ok graph := rfl
  have hbody : view.hasBody ping := rfl
  obtain ⟨hgraphs, hruns⟩ := CallGraph.agrees_supergraph hregular hbuild
  refine ⟨hregular, hbuild, hbody, ?_, ?_⟩
  · obtain ⟨s, hs, _, hmethods, hcallees⟩ := hgraphs ping hbody
    have hpong : pong ∈ s.methods := (hmethods pong).2 ping_reaches_pong
    use s, hs, hpong
    rw [hcallees ⟨pong, 0⟩ hpong]
    decide
  · apply (hruns target ⟨20, 2⟩ .empty _ search {} rfl rfl rfl).2

end Cycle

end ServiceFlow
