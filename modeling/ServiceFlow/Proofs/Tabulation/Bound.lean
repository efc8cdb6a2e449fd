import Mathlib.Algebra.Order.BigOperators.Group.Finset
import Mathlib.Data.Finset.Prod
import ServiceFlow.Proofs.Tabulation.Lockstep

/-!
# How many path edges there are

The limit on facts is a limit for each statement, and says nothing about the sources of path edges.
But a source is kept as a fact too: at the statement with which its method starts.  If control stays
among finitely many statements, there are only so many path edges, whatever the flows yield, and
with as many iterations a run comes to its end.
-/

namespace ServiceFlow.Tabulation

variable {μ φ σ : Type} [DecidableEq μ] [Hashable μ] [DecidableEq φ] [Hashable φ]

/-- Control does not leave the points, and a method entered from them starts at one of them only. -/
structure Graph.Encloses (g : Graph μ) (start : μ → Point μ) (points : Finset (Point μ)) :
    Prop where
  successors : ∀ q ∈ points, ∀ next ∈ g.successors q, next ∈ points ∧ next.method = q.method
  starts : ∀ q ∈ points, ∀ callee ∈ g.callees q, ∀ r ∈ g.starts callee,
    r ∈ points ∧ r = start r.method

/-- Every path edge lies at one of the points, and both its fact and its source are kept: the one
there, the other at the start of the method. -/
structure Rooted (start : μ → Point μ) (points : Finset (Point μ)) (l : Limits) (s : State μ φ) :
    Prop where
  point : ∀ e ∈ s.edges, e.point ∈ points
  fact : ∀ e ∈ s.edges, e.fact ∈ s.facts.row e.point
  source : ∀ e ∈ s.edges, e.source ∈ s.facts.row (start e.point.method)
  context : ∀ k, ∀ c ∈ s.contexts.row k, ⟨c.source, c.site, c.fact⟩ ∈ s.edges
  size : ∀ q, (s.facts.row q).size ≤ l.factsPerPoint

namespace Rooted

variable {g : Graph μ} {seeds : List (Point μ × φ)} {start : μ → Point μ}
variable {points : Finset (Point μ)} {l : Limits} {s t : State μ φ} {e : PathEdge μ φ}

theorem empty :
  Rooted start points l ({} : State μ φ)
  := by
  constructor
  · intro e he
    cases Distinct.not_mem_empty he
  · intro e he
    cases Distinct.not_mem_empty he
  · intro e he
    cases Distinct.not_mem_empty he
  · intro k c hc
    rw [Table.row_empty] at hc
    cases Distinct.not_mem_empty hc
  · intro q
    rw [Table.row_empty]
    apply Nat.zero_le

/-- A source comes from a path edge that is there already, or is the fact with which a method
starts. -/
theorem source_of_admitted (hg : g.Encloses start points)
    (hseeds : ∀ e ∈ seeds, e.1 ∈ points ∧ e.1 = start e.1.method) (hs : Rooted start points l s)
    (h : Admitted g seeds s e) :
  e.point ∈ points ∧ (e.source ∈ s.facts.row (start e.point.method) ∨
    e.source = e.fact ∧ e.point = start e.point.method)
  := by
  cases h with
  | seed hseed =>
      obtain ⟨hpoint, hstart⟩ := hseeds _ hseed
      use hpoint, .inr ⟨rfl, hstart⟩
  | @along e q d hedge hnext =>
      obtain ⟨hpoint, hmethod⟩ := hg.successors _ (hs.point _ hedge) _ hnext
      use hpoint
      rw [hmethod]
      apply Or.inl (hs.source _ hedge)
  | @start e callee q d hedge hcallee hstart =>
      obtain ⟨hpoint, hstart⟩ := hg.starts _ (hs.point _ hedge) _ hcallee _ hstart
      use hpoint, .inr ⟨rfl, hstart⟩
  | @back k c q d hcontext hnext =>
      have hedge := hs.context _ _ hcontext
      obtain ⟨hpoint, hmethod⟩ := hg.successors _ (hs.point _ hedge) _ hnext
      use hpoint
      rw [hmethod]
      apply Or.inl (hs.source _ hedge)

theorem insert_edge (hs : Rooted start points l s) (hpoint : e.point ∈ points)
    (hfact : e.fact ∈ s.facts.row e.point)
    (hsource : e.source ∈ s.facts.row (start e.point.method)) :
  Rooted start points l { s with edges := s.edges.insert e }
  := by
  constructor
  · intro e' he'
    rcases Distinct.mem_insert.1 he' with rfl | he'
    · apply hpoint
    · apply hs.point e' he'
  · intro e' he'
    rcases Distinct.mem_insert.1 he' with rfl | he'
    · apply hfact
    · apply hs.fact e' he'
  · intro e' he'
    rcases Distinct.mem_insert.1 he' with rfl | he'
    · apply hsource
    · apply hs.source e' he'
  · intro k c hc
    apply Distinct.mem_insert.2 (.inr (hs.context k c hc))
  · apply hs.size

theorem add_fact (hs : Rooted start points l s) {q : Point μ} (d : φ)
    (hroom : (s.facts.row q).size < l.factsPerPoint) :
  Rooted start points l { s with facts := s.facts.add q d }
  := by
  constructor
  · apply hs.point
  · intro e he
    apply Table.mem_row_add.2 (.inr (hs.fact e he))
  · intro e he
    apply Table.mem_row_add.2 (.inr (hs.source e he))
  · apply hs.context
  · apply Table.size_row_add_le hs.size hroom

theorem propagate (hs : Rooted start points l s) (hpoint : e.point ∈ points)
    (hsource : e.source ∈ s.facts.row (start e.point.method) ∨
      e.source = e.fact ∧ e.point = start e.point.method) :
  Rooted start points l (s.propagate l e)
  := by
  rw [State.propagate]
  split
  · apply hs
  · split
    · next hfact =>
      apply hs.insert_edge hpoint hfact
      rcases hsource with hsource | ⟨hsource, hstart⟩
      · apply hsource
      · rw [hsource, ← hstart]
        apply hfact
    · split
      · exact { hs with }
      · next hroom =>
        -- The fact is recorded first, so that it is known when it is its own source.
        have hfact : e.fact ∈ (s.facts.add e.point e.fact).row e.point :=
          Table.mem_row_add.2 (.inl ⟨rfl, rfl⟩)
        apply (hs.add_fact e.fact (Nat.lt_of_not_le hroom)).insert_edge hpoint hfact
        rcases hsource with hsource | ⟨hsource, hstart⟩
        · apply Table.mem_row_add.2 (.inr hsource)
        · rw [hsource, ← hstart]
          apply hfact

theorem move (hg : g.Encloses start points)
    (hseeds : ∀ e ∈ seeds, e.1 ∈ points ∧ e.1 = start e.1.method) (h : Move g seeds l s t)
    (hs : Rooted start points l s) :
  Rooted start points l t
  := by
  cases h with
  | edge h =>
      obtain ⟨hpoint, hsource⟩ := hs.source_of_admitted hg hseeds h
      apply hs.propagate hpoint hsource
  | @context e k _ hedge =>
      refine { hs with context := ?_ }
      intro k' c hc
      rcases Table.mem_row_add.1 hc with ⟨_, rfl⟩ | hc
      · apply hedge
      · apply hs.context k' c hc
  | ending _ _ _ => exact { hs with }
  | latest _ => exact { hs with }

/-! ### Counting -/

theorem card_row (hs : Rooted start points l s) (q : Point μ) :
  (s.facts.row q).toList.toFinset.card ≤ l.factsPerPoint
  := by
  apply (List.toFinset_card_le _).trans
  rw [← Distinct.size_eq_length]
  apply hs.size

/-- At one point the path edges differ in their source or in their fact. -/
theorem card_edges_at (hs : Rooted start points l s) (q : Point μ) :
  (s.edges.toList.toFinset.filter (fun e => e.point = q)).card ≤
    l.factsPerPoint * l.factsPerPoint
  := by
  calc
    (s.edges.toList.toFinset.filter (fun e => e.point = q)).card
      ≤ ((s.facts.row (start q.method)).toList.toFinset ×ˢ
          (s.facts.row q).toList.toFinset).card := by
        apply Finset.card_le_card_of_injOn (fun e => (e.source, e.fact))
        · intro e he
          obtain ⟨hedge, rfl⟩ := Finset.mem_filter.1 he
          rw [List.mem_toFinset, Distinct.mem_toList] at hedge
          simpa using ⟨hs.source e hedge, hs.fact e hedge⟩
        · rintro ⟨source, point, fact⟩ he ⟨source', point', fact'⟩ he' heq
          obtain rfl : point = q := (Finset.mem_filter.1 he).2
          obtain rfl : point' = point := (Finset.mem_filter.1 he').2
          cases heq
          rfl
    _ = (s.facts.row (start q.method)).toList.toFinset.card *
          (s.facts.row q).toList.toFinset.card := Finset.card_product _ _
    _ ≤ l.factsPerPoint * l.factsPerPoint := Nat.mul_le_mul (hs.card_row _) (hs.card_row _)

theorem size_edges (hs : Rooted start points l s) :
  s.edges.size ≤ points.card * l.factsPerPoint * l.factsPerPoint
  := by
  calc
    s.edges.size = s.edges.toList.toFinset.card := by
        rw [Distinct.size_eq_length]
        exact (List.toFinset_card_of_nodup s.edges.nodup).symm
    _ ≤ l.factsPerPoint * l.factsPerPoint * points.card := by
        apply Finset.card_le_mul_card_image_of_maps_to
        · intro e he
          rw [List.mem_toFinset, Distinct.mem_toList] at he
          apply hs.point e he
        · intro q _
          apply hs.card_edges_at q
    _ = points.card * l.factsPerPoint * l.factsPerPoint := by
        rw [Nat.mul_comm, Nat.mul_assoc]

end Rooted

namespace Stateful

variable {g : Graph μ} {start : μ → Point μ} {points : Finset (Point μ)} {l : Limits}
variable {p : Stateful μ φ σ} {m : σ}

theorem rooted_solve (hg : g.Encloses start points)
    (hseeds : ∀ e ∈ (p.seeds.run m).1, e.1 ∈ points ∧ e.1 = start e.1.method) :
  Rooted start points l ((solve g p l).run m).1
  := by
  apply solve_keeps
  · apply Rooted.empty
  · intro s t hmove hs
    apply hs.move hg hseeds hmove
  · intro s _ hs
    exact { hs with }

/-- With as many iterations as there are path edges nothing is left to take up. -/
theorem taken_solve (h : ((solve g p l).run m).1.edges.size ≤ l.iterations) :
  ((solve g p l).run m).1.taken = ((solve g p l).run m).1.edges.size
  := by
  apply Nat.le_antisymm (taken_le_solve m)
  rcases taken_run (g := g) (p := p) (l := l) l.iterations ((seeded p l).run m).1
    ((seeded p l).run m).2 with hdone | htaken
  · apply hdone
  · have hseeds : ((seeded p l).run m).1.taken = 0 := (moves_seeded (g := g) m).taken
    rw [hseeds, Nat.zero_add] at htaken
    rw [← htaken] at h
    apply h

end Stateful

end ServiceFlow.Tabulation
