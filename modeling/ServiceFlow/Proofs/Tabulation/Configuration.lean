import Mathlib.Logic.Relation
import ServiceFlow.Tabulation.Solver
import ServiceFlow.Tabulation.Tabular

/-!
# Configurations

Facts flow along paths on which every return goes back to the call it belongs to.  A configuration
is a statement with a fact that holds there and the calls that are still open, each with the fact
that held at it; the flows of a problem are the steps between configurations.  What is reached
from the seeds is what tabulation has to find.
-/

namespace ServiceFlow.Tabulation

variable {μ φ : Type}

/-- A call that is still open, with the fact that held at it. -/
structure OpenCall (μ φ : Type) where
  site : Point μ
  fact : φ
deriving DecidableEq

/-- A statement, a fact that holds there, and the open calls, the innermost first. -/
structure Config (μ φ : Type) where
  point : Point μ
  fact : φ
  stack : List (OpenCall μ φ)
deriving DecidableEq

/-- One step along a flow. -/
inductive Step (g : Graph μ) (p : Problem μ φ) : Config μ φ → Config μ φ → Prop where
  /-- From a statement that is neither call nor exit to a successor. -/
  | normal {q next : Point μ} {d d' : φ} {stack : List (OpenCall μ φ)}
      (hcall : g.isCall q = false) (hexit : g.isExit q = false) (hnext : next ∈ g.successors q)
      (hflow : d' ∈ p.normal q next d) :
      Step g p ⟨q, d, stack⟩ ⟨next, d', stack⟩
  /-- From a call past the called methods to a successor. -/
  | pass {q next : Point μ} {d d' : φ} {stack : List (OpenCall μ φ)}
      (hcall : g.isCall q = true) (hnext : next ∈ g.successors q) (hflow : d' ∈ p.pass q next d) :
      Step g p ⟨q, d, stack⟩ ⟨next, d', stack⟩
  /-- From a call to a start of a called method; the call stays open. -/
  | call {q start : Point μ} {callee : μ} {d d' : φ} {stack : List (OpenCall μ φ)}
      (hcall : g.isCall q = true) (hcallee : callee ∈ g.callees q)
      (hflow : d' ∈ p.call q callee d) (hstart : start ∈ g.starts callee) :
      Step g p ⟨q, d, stack⟩ ⟨start, d', ⟨q, d⟩ :: stack⟩
  /-- From an exit to a successor of the innermost open call. -/
  | ret {exit next : Point μ} {d d' : φ} {top : OpenCall μ φ} {stack : List (OpenCall μ φ)}
      (hcall : g.isCall exit = false) (hexit : g.isExit exit = true)
      (hnext : next ∈ g.successors top.site)
      (hflow : d' ∈ p.ret top.site exit.method exit next top.fact d) :
      Step g p ⟨exit, d, top :: stack⟩ ⟨next, d', stack⟩

/-- Any number of steps. -/
abbrev Steps (g : Graph μ) (p : Problem μ φ) : Config μ φ → Config μ φ → Prop :=
  Relation.ReflTransGen (Step g p)

/-- What the steps reach from the seeds. -/
def Reachable (g : Graph μ) (p : Problem μ φ) (c : Config μ φ) : Prop :=
  ∃ e ∈ p.seeds, Steps g p ⟨e.1, e.2, []⟩ c

/-- Control stays inside a method except for calls and returns. -/
structure Graph.IsLocal (g : Graph μ) : Prop where
  successors : ∀ q, ∀ next ∈ g.successors q, next.method = q.method
  starts : ∀ m, ∀ q ∈ g.starts m, q.method = m

/-- The seeds lie at starts of methods. -/
def Problem.SeededAtStarts (g : Graph μ) (p : Problem μ φ) : Prop :=
  ∀ e ∈ p.seeds, e.1 ∈ g.starts e.1.method

instance [DecidableEq μ] (g : Graph μ) (p : Problem μ φ) : Decidable (p.SeededAtStarts g) :=
  inferInstanceAs (Decidable (∀ e ∈ p.seeds, e.1 ∈ g.starts e.1.method))

variable {g : Graph μ} {p : Problem μ φ}

theorem Reachable.seed {e : Point μ × φ} (he : e ∈ p.seeds) :
  Reachable g p ⟨e.1, e.2, []⟩
  := ⟨e, he, .refl⟩

theorem Reachable.steps {c c' : Config μ φ} (h : Reachable g p c) (hs : Steps g p c c') :
  Reachable g p c'
  := by
  obtain ⟨e, he, hc⟩ := h
  use e, he
  apply hc.trans hs

/-- What holds of the seeds and is kept by every step holds of all that is reached. -/
theorem Reachable.induct
    {P : Config μ φ → Prop} (seed : ∀ e ∈ p.seeds, P ⟨e.1, e.2, []⟩)
    (step : ∀ c c', Reachable g p c → Step g p c c' → P c → P c')
    {c : Config μ φ} (h : Reachable g p c) :
  P c
  := by
  obtain ⟨e, he, hs⟩ := h
  induction hs with
  | refl => apply seed e he
  | tail hs hstep ih => apply step _ _ ⟨e, he, hs⟩ hstep ih

/-- Control stays inside the methods of a problem given by tables. -/
theorem Tabular.graph_isLocal (t : Tabular) :
  t.graph.IsLocal
  := by
  constructor
  · intro q next hnext
    simp only [graph] at hnext
    split at hnext
    · obtain ⟨o, _, rfl⟩ := List.mem_map.1 hnext
      rfl
    · cases hnext
  · intro m q hq
    simp only [graph] at hq
    split at hq
    · split at hq
      · cases hq
      · obtain rfl := List.mem_singleton.1 hq
        rfl
    · cases hq

end ServiceFlow.Tabulation
