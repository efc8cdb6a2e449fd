import Mathlib.Data.List.Nodup
import ServiceFlow.Proofs.Tabulation.Bound
import ServiceFlow.Proofs.Tabulation.Exactness
import ServiceFlow.Proofs.Tabulation.Stateful

/-!
# One fact for each statement

A fact may be assigned to each statement in such a way that the flows lead from the assigned facts
to assigned facts only.  Then no statement is reached with any other fact.  A run drops nothing as
long as a statement may hold one fact, and has no more path edges than there are statements: it is
not cut short if it may process as many.
-/

namespace ServiceFlow.Tabulation

variable {μ φ : Type} {g : Graph μ} {p : Problem μ φ} {fact : Point μ → φ}

/-! ### Facts assigned to statements -/

/-- The flows lead from the facts assigned to statements to assigned facts. -/
structure Problem.Respects (p : Problem μ φ) (g : Graph μ) (fact : Point μ → φ) : Prop where
  seeds : ∀ e ∈ p.seeds, e.2 = fact e.1
  normal : ∀ q, ∀ next ∈ g.successors q, g.isCall q = false → g.isExit q = false →
    ∀ d ∈ p.normal q next (fact q), d = fact next
  pass : ∀ q, ∀ next ∈ g.successors q, g.isCall q = true →
    ∀ d ∈ p.pass q next (fact q), d = fact next
  call : ∀ q, ∀ callee ∈ g.callees q, ∀ start ∈ g.starts callee,
    ∀ d ∈ p.call q callee (fact q), d = fact start
  ret : ∀ q, ∀ next ∈ g.successors q, ∀ exit, exit.method ∈ g.callees q → g.isExit exit = true →
    ∀ d ∈ p.ret q exit.method exit next (fact q) (fact exit), d = fact next

/-- Whatever is reached has the fact assigned to its statement. -/
def Determined (g : Graph μ) (p : Problem μ φ) (fact : Point μ → φ) : Prop :=
  ∀ c, Reachable g p c → c.fact = fact c.point

/-- Every open call enters the method inside it, and has the fact assigned to its statement. -/
def Nested (g : Graph μ) (fact : Point μ → φ) : μ → List (OpenCall μ φ) → Prop
  | _, [] => True
  | m, top :: stack =>
      m ∈ g.callees top.site ∧ top.fact = fact top.site ∧ Nested g fact top.site.method stack

theorem Problem.Respects.step (h : p.Respects g fact) (hlocal : g.IsLocal) {c c' : Config μ φ}
    (hstep : Step g p c c') (hfact : c.fact = fact c.point)
    (hstack : Nested g fact c.point.method c.stack) :
  c'.fact = fact c'.point ∧ Nested g fact c'.point.method c'.stack
  := by
  cases hstep with
  | @normal q next d d' stack hcall hexit hnext hflow =>
      obtain rfl : d = fact q := hfact
      rw [hlocal.successors q next hnext]
      use h.normal q next hnext hcall hexit d' hflow
  | @pass q next d d' stack hcall hnext hflow =>
      obtain rfl : d = fact q := hfact
      rw [hlocal.successors q next hnext]
      use h.pass q next hnext hcall d' hflow
  | @call q start callee d d' stack hcall hcallee hflow hstart =>
      obtain rfl : d = fact q := hfact
      rw [hlocal.starts callee start hstart]
      use h.call q callee hcallee start hstart d' hflow, hcallee, rfl
  | @ret exit next d d' top stack hcall hexit hnext hflow =>
      obtain ⟨hcallee, htop, hstack⟩ := hstack
      obtain rfl : d = fact exit := hfact
      rw [htop] at hflow
      rw [hlocal.successors top.site next hnext]
      use h.ret top.site next hnext exit hcallee hexit d' hflow

theorem Problem.Respects.determined (h : p.Respects g fact) (hlocal : g.IsLocal) :
  Determined g p fact
  := by
  intro c hc
  have hinvariant : c.fact = fact c.point ∧ Nested g fact c.point.method c.stack := by
    apply hc.induct
    · intro e he
      use h.seeds e he
      trivial
    · intro c c' _ hstep ⟨hfact, hstack⟩
      apply h.step hlocal hstep hfact hstack
  apply hinvariant.1

/-! ### Runs -/

variable [DecidableEq μ] [Hashable μ] [DecidableEq φ] [Hashable φ]
variable {l : Limits} {s : State μ φ}

/-- There is room for a path edge that may be propagated: whatever its statement holds already is
its own fact. -/
theorem Determined.dropped_propagate (h : Determined g p fact) (hlocal : g.IsLocal)
    (hseeds : p.SeededAtStarts g) (hroom : 1 ≤ l.factsPerPoint) (hs : s.Sound g p)
    (hagrees : s.Agrees) {e : PathEdge μ φ} (he : Licensed g p s e) :
  (s.propagate l e).dropped = s.dropped
  := by
  rw [State.propagate]
  split
  · rfl
  · split
    · rfl
    · next hnew =>
      split
      · next hfull =>
        rw [Distinct.size_eq_length] at hfull
        obtain ⟨d, hd⟩ := List.length_pos_iff_exists_mem.1 (Nat.lt_of_lt_of_le hroom hfull)
        rw [Distinct.mem_toList] at hd
        obtain ⟨source, hedge⟩ := (hagrees e.point d).1 hd
        obtain ⟨stack, hreach⟩ := (hs.edges _ hedge).reachable
        obtain ⟨stack', hreach'⟩ := (hs.justified_of_licensed hlocal hseeds he).reachable
        have hsame : d = e.fact := (h _ hreach).trans (h _ hreach').symm
        rw [hsame] at hd
        exact absurd hd hnew
      · rfl

theorem Determined.dropped_solve (h : Determined g p fact) (hlocal : g.IsLocal)
    (hseeds : p.SeededAtStarts g) (hroom : 1 ≤ l.factsPerPoint) :
  (solve g p l).dropped = 0
  := by
  have hinvariant : (solve g p l).Sound g p ∧ (solve g p l).Agrees ∧ (solve g p l).dropped = 0 := by
    apply solve_induct (P := fun s => s.Sound g p ∧ s.Agrees ∧ s.dropped = 0)
    · use State.Sound.empty
      constructor
      · intro q d
        simp
      · rfl
    · intro s t hact ⟨hs, hagrees, hdropped⟩
      use hact.sound hlocal hseeds hs, hact.agrees hagrees
      cases hact with
      | edge he => rw [h.dropped_propagate hlocal hseeds hroom hs hagrees he, hdropped]
      | context _ _ => apply hdropped
      | ending _ _ => apply hdropped
      | latest _ => apply hdropped
    · intro s _ ⟨hs, hagrees, hdropped⟩
      refine ⟨⟨hs.edges, ?_, ?_⟩, hagrees, hdropped⟩
      · intro callee d c hc
        apply s.extends_take.enters (hs.contexts callee d c hc)
      · intro m d x hx
        apply s.extends_take.ends (hs.endings m d x hx)
  apply hinvariant.2.2

theorem Determined.eq_of_mem_factsAt (h : Determined g p fact) (hlocal : g.IsLocal)
    (hseeds : p.SeededAtStarts g) {q : Point μ} {d : φ} (hd : d ∈ (solve g p l).factsAt q) :
  d = fact q
  := by
  obtain ⟨stack, hreach⟩ := reachable_of_mem_factsAt hlocal hseeds hd
  apply h _ hreach

/-- A statement that is reached by a run that was not cut short holds its fact and no other. -/
theorem Determined.factsAt_solve (h : Determined g p fact) (hlocal : g.IsLocal)
    (hseeds : p.SeededAtStarts g) (hcut : (solve g p l).truncated = false) {c : Config μ φ}
    (hc : Reachable g p c) :
  (solve g p l).factsAt c.point = [fact c.point]
  := by
  have hmem := mem_factsAt_of_reachable hlocal hcut hc
  rw [h c hc] at hmem
  have hnodup : ((solve g p l).factsAt c.point).Nodup := Distinct.nodup _
  apply List.perm_singleton.1
  apply (List.perm_ext_iff_of_nodup hnodup (List.nodup_singleton _)).2
  intro d
  rw [List.mem_singleton]
  constructor
  · apply h.eq_of_mem_factsAt hlocal hseeds
  · rintro rfl
    apply hmem

theorem rooted_solve {start : μ → Point μ} {points : Finset (Point μ)}
    (hg : g.Encloses start points)
    (hseeds : ∀ e ∈ p.seeds, e.1 ∈ points ∧ e.1 = start e.1.method) :
  Rooted start points l (solve g p l)
  := by
  rw [← (Stateful.matches_counted p).yields_solve (g := g) (l := l) {}]
  apply Stateful.rooted_solve hg hseeds

theorem taken_solve (h : (solve g p l).edges.size ≤ l.iterations) :
  (solve g p l).taken = (solve g p l).edges.size
  := by
  have hcounted := (Stateful.matches_counted p).yields_solve (g := g) (l := l) {}
  rw [← hcounted] at h ⊢
  apply Stateful.taken_solve h

section Length

variable {start : μ → Point μ} {points : Finset (Point μ)}

/-- Path edges to the same statement are equal: their facts and their sources are determined. -/
theorem Determined.size_edges_solve (h : Determined g p fact) (hlocal : g.IsLocal)
    (hseeds : p.SeededAtStarts g) (hg : g.Encloses start points)
    (hstarts : ∀ e ∈ p.seeds, e.1 ∈ points ∧ e.1 = start e.1.method) :
  (solve g p l).edges.size ≤ points.card
  := by
  have hrooted := rooted_solve (l := l) hg hstarts
  have hfact : ∀ q, ∀ d ∈ (solve g p l).facts.row q, d = fact q := by
    intro q d hd
    apply h.eq_of_mem_factsAt hlocal hseeds
    rw [State.factsAt, Distinct.mem_toList]
    apply hd
  have hnodup : (solve g p l).edges.toList.Nodup := Distinct.nodup _
  rw [Distinct.size_eq_length, ← List.toFinset_card_of_nodup hnodup]
  apply Finset.card_le_card_of_injOn PathEdge.point
  · intro e he
    rw [Finset.mem_coe, List.mem_toFinset, Distinct.mem_toList] at he
    apply hrooted.point e he
  · intro e he e' he' hpoint
    rw [Finset.mem_coe, List.mem_toFinset, Distinct.mem_toList] at he he'
    have hsource := (hfact _ _ (hrooted.source e he)).trans
      (hpoint ▸ (hfact _ _ (hrooted.source e' he')).symm)
    have hfacts := (hfact _ _ (hrooted.fact e he)).trans
      (hpoint ▸ (hfact _ _ (hrooted.fact e' he')).symm)
    cases e
    cases e'
    simp_all

/-- A run is not cut short if it may process as many path edges as there are statements. -/
theorem Determined.truncated_solve (h : Determined g p fact) (hlocal : g.IsLocal)
    (hseeds : p.SeededAtStarts g) (hg : g.Encloses start points)
    (hstarts : ∀ e ∈ p.seeds, e.1 ∈ points ∧ e.1 = start e.1.method)
    (hroom : 1 ≤ l.factsPerPoint) (henough : points.card ≤ l.iterations) :
  (solve g p l).truncated = false
  := by
  have hsize := h.size_edges_solve (l := l) hlocal hseeds hg hstarts
  rw [State.truncated_eq_false]
  use h.dropped_solve hlocal hseeds hroom
  rw [taken_solve (hsize.trans henough)]

end Length

end ServiceFlow.Tabulation
