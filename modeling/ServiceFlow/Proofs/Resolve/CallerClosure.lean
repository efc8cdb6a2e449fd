import Mathlib.Data.List.Nodup
import Mathlib.Data.List.Perm.Subperm
import ServiceFlow.Proofs.Resolve.CallerSearch

/-!
# Searches within their bounds

A search meets no method twice.  If there are fewer methods than its bounds allow, then no chain of
callers is too long and there is room for every method: the search runs all methods that a chain
through open methods leads to, in whatever order the callers are listed.
-/

namespace ServiceFlow.CallerSearch

/-! ### No method is met twice -/

section

variable {run : MethodSig → Except ScopeError Outcome} {maxVisited : Nat}

theorem nodup_visit {climb : MethodSig → State → State}
    (hclimb : ∀ m s, s.visited.Nodup → (climb m s).visited.Nodup) {s : State}
    (hs : s.visited.Nodup) (m : MethodSig) :
  (visit run maxVisited climb s m).visited.Nodup
  := by
  unfold visit
  split
  · apply hs
  · next hvisit =>
    have hmeet : (meet run m s).visited.Nodup :=
      List.nodup_cons.2 ⟨fun hm => hvisit (.inr hm), hs⟩
    split
    · apply hclimb m _ hmeet
    · apply hmeet

theorem nodup_walk (g : CallGraph) (depth : Nat) (m : MethodSig) {s : State}
    (hs : s.visited.Nodup) :
  (walk run maxVisited g depth m s).visited.Nodup
  := by
  induction depth generalizing m s with
  | zero => apply hs
  | succ depth ih =>
      rw [walk, visitAll_eq_foldl]
      generalize g.callers m = callers
      induction callers generalizing s with
      | nil => apply hs
      | cons c callers ihs =>
          apply ihs
          apply nodup_visit _ hs
          intro m s hs
          apply ih m hs

end

/-! ### Searches among few methods -/

namespace Search

variable {p q : Search} {f : Findings}

theorem nodup_visited_result (p : Search) (f : Findings) :
  (p.result f).visited.Nodup
  := nodup_walk p.graph p.maxDepth p.start (List.nodup_singleton p.start)

/-- The methods of a chain are the first one and callers. -/
theorem Chain.subset {methods path : List MethodSig} (hpath : p.Chain path)
    (hstart : p.start ∈ methods) (hcallers : ∀ c m, m ∈ p.graph.callers c → m ∈ methods) :
  path ⊆ methods
  := by
  induction hpath with
  | start => simpa using hstart
  | climb _ _ calls ih =>
      rw [List.cons_subset]
      exact ⟨hcallers _ _ calls, ih⟩

/-- The bounds of the search exceed the number of methods that it can meet. -/
structure Unbounded (p : Search) (methods : List MethodSig) : Prop where
  start : p.start ∈ methods
  callers : ∀ c m, m ∈ p.graph.callers c → m ∈ methods
  visited : methods.length < p.maxVisited
  depth : methods.length < p.maxDepth

/-- A search whose bounds do not matter runs the methods that chains lead to. -/
theorem mem_ran_iff_chain {methods : List MethodSig} (hp : p.Unbounded methods) {m : MethodSig} :
  m ∈ p.ran f ↔ m ≠ p.start ∧ m.isStaticInitializer = false ∧ ∃ path, p.Chain (m :: path)
  := by
  obtain ⟨trail, hexplores, hclimbed⟩ := p.exists_trails f
  have htrails := hexplores.trails
  constructor
  · intro hm
    obtain ⟨hvisited, hne, hinit⟩ := mem_ran.1 hm
    exact ⟨hne, hinit, trail m, htrails.chain m hvisited⟩
  · rintro ⟨hne, hinit, path, hchain⟩
    have hroom : (p.result f).visited.length < p.maxVisited := by
      have hsubset : (p.result f).visited ⊆ methods := by
        intro c hc
        apply Chain.subset (htrails.chain c hc) hp.start hp.callers List.mem_cons_self
      have hlength := (List.subperm_of_subset (p.nodup_visited_result f) hsubset).length_le
      have hbound := hp.visited
      omega
    apply mem_ran_of_chain hroom hchain hne hinit
    intro c _ way hway hnodup
    have hsubset := Chain.subset hway hp.start hp.callers
    have hlength := (List.subperm_of_subset hnodup hsubset).length_le
    have hbound := hp.depth
    rw [List.length_cons] at hlength
    omega

/-- Chains depend on what callers there are, not on their order. -/
theorem chain_congr (hrun : p.run = q.run) (hstart : p.start = q.start)
    (hcallers : ∀ m c, m ∈ p.graph.callers c → m ∈ q.graph.callers c) {path : List MethodSig}
    (h : p.Chain path) :
  q.Chain path
  := by
  induction h with
  | start =>
      rw [hstart]
      apply CallGraph.Chain.start
  | climb _ passes calls ih =>
      apply CallGraph.Chain.climb ih _ (hcallers _ _ calls)
      rw [← hrun]
      apply passes

/-- Two searches whose bounds do not matter run the same methods. -/
theorem mem_ran_congr {methods methods' : List MethodSig} (hp : p.Unbounded methods)
    (hq : q.Unbounded methods') (hrun : p.run = q.run) (hstart : p.start = q.start)
    (hcallers : ∀ m c, m ∈ p.graph.callers c ↔ m ∈ q.graph.callers c) {g : Findings}
    {m : MethodSig} :
  m ∈ p.ran f ↔ m ∈ q.ran g
  := by
  have hchains : (∃ path, p.Chain (m :: path)) ↔ ∃ path, q.Chain (m :: path) := by
    apply exists_congr
    intro path
    constructor
    · apply chain_congr hrun hstart fun m c => (hcallers m c).1
    · apply chain_congr hrun.symm hstart.symm fun m c => (hcallers m c).2
  rw [mem_ran_iff_chain hp, mem_ran_iff_chain hq, hstart, hchains]

end Search

end ServiceFlow.CallerSearch
