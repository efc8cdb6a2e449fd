import ServiceFlow.Propagation.Flow
import ServiceFlow.Proofs.Program.Reachability
import ServiceFlow.Proofs.Tabulation.Bound

/-!
# Runs on a supergraph end

Control does not leave the statements of a built supergraph, and each of its methods starts at its
first statement.  So the limit on facts for each statement bounds what a run on the supergraph has
to do, even if the flows yield new facts without end.
-/

namespace ServiceFlow

/-- Control does not leave a body. -/
theorem Body.lt_of_mem_successors {b : Body} {offset next : Nat} (h : next ∈ b.successors offset) :
  next < b.stmts.length
  := by
  rw [successors] at h
  split at h
  · cases h
  · apply of_decide_eq_true (List.mem_filter.1 (mem_of_mem_dropRepeats h)).2

namespace Supergraph

/-- The statements of the methods of the graph. -/
def statements (g : Supergraph) : Finset StmtId :=
  (g.methods.flatMap (fun m => (g.view.body? m).elim []
    (fun b => (List.range b.stmts.length).map (fun o => ⟨m, o⟩)))).toFinset

theorem mem_statements {g : Supergraph} {q : StmtId} :
  q ∈ g.statements ↔ q.method ∈ g.methods ∧ (g.view.stmt? q).isSome
  := by
  rw [statements, List.mem_toFinset, List.mem_flatMap]
  constructor
  · rintro ⟨m, hm, hq⟩
    cases hb : g.view.body? m with
    | none =>
        rw [hb] at hq
        cases hq
    | some b =>
        rw [hb] at hq
        obtain ⟨o, ho, rfl⟩ := List.mem_map.1 hq
        use hm
        rw [View.stmt?, hb]
        simpa using List.mem_range.1 ho
  · rintro ⟨hm, hq⟩
    obtain ⟨stmt, hstmt⟩ := Option.isSome_iff_exists.1 hq
    obtain ⟨b, hb, ho⟩ := View.stmt?_eq_some hstmt
    use q.method, hm
    rw [hb]
    apply List.mem_map.2
    obtain ⟨ho, _⟩ := List.getElem?_eq_some_iff.1 ho
    use q.offset, List.mem_range.2 ho

variable {v : View} {entries : List MethodSig} {skip : Invoke → Bool} {g : Supergraph}

theorem mem_statements_of_mem_starts {m : MethodSig} (hm : m ∈ g.methods) {q : StmtId}
    (hq : q ∈ g.starts m) :
  q ∈ g.statements
  := by
  rw [starts] at hq
  split at hq
  · next b hb =>
    split at hq
    · cases hq
    · next hne =>
      obtain rfl := List.mem_singleton.1 hq
      apply mem_statements.2
      use hm
      rw [View.stmt?, hb]
      simpa [List.length_pos_iff] using hne
  · cases hq

theorem mem_statements_of_mem_successors {q next : StmtId} (hq : q ∈ g.statements)
    (hnext : next ∈ g.successors q) :
  next ∈ g.statements
  := by
  obtain ⟨b, hb, hmethod, hoffset⟩ := mem_successors hnext
  apply mem_statements.2
  rw [hmethod, View.stmt?, hmethod, hb]
  use (mem_statements.1 hq).1
  simpa using Body.lt_of_mem_successors hoffset

theorem flowGraph_encloses (h : build v entries skip = .ok g) :
  (Propagation.flowGraph g).Encloses (⟨·, 0⟩) g.statements
  := by
  constructor
  · intro q hq next hnext
    use mem_statements_of_mem_successors hq hnext
    obtain ⟨_, _, hmethod, _⟩ := mem_successors hnext
    apply hmethod
  · intro q _ callee hcallee r hr
    use mem_statements_of_mem_starts (mem_methods_of_mem_callees h hcallee) hr
    rw [mem_starts hr]

/-- From starts of methods of a built supergraph, there are no more path edges than statements times
the square of the limit on facts, and with as many iterations all of them are processed. -/
theorem pathEdges_bounded {φ σ : Type} [DecidableEq φ] [Hashable φ]
    (h : build v entries skip = .ok g) (p : Tabulation.Stateful MethodSig φ σ) (m : σ)
    (hseeds : ∀ e ∈ (p.seeds.run m).1, ∃ n ∈ g.methods, e.1 ∈ g.starts n)
    (l : Tabulation.Limits) :
  ((Tabulation.Stateful.solve (Propagation.flowGraph g) p l).run m).1.edges.size ≤
    g.statements.card * l.factsPerPoint * l.factsPerPoint ∧
  (g.statements.card * l.factsPerPoint * l.factsPerPoint ≤ l.iterations →
    ((Tabulation.Stateful.solve (Propagation.flowGraph g) p l).run m).1.taken =
      ((Tabulation.Stateful.solve (Propagation.flowGraph g) p l).run m).1.edges.size)
  := by
  have hstarts : ∀ e ∈ (p.seeds.run m).1, e.1 ∈ g.statements ∧ e.1 = ⟨e.1.method, 0⟩ := by
    intro e he
    obtain ⟨n, hn, hstart⟩ := hseeds e he
    use mem_statements_of_mem_starts hn hstart
    rw [mem_starts hstart]
  have hrooted := Tabulation.Stateful.rooted_solve (l := l) (flowGraph_encloses h) hstarts
  use hrooted.size_edges
  intro henough
  apply Tabulation.Stateful.taken_solve
  apply hrooted.size_edges.trans henough

end Supergraph

namespace Endless

/-! A method that calls itself in a loop, and flows that yield a new number each time. -/

open Tabulation

def main : MethodSig := ⟨⟨"A"⟩, "main", [], .void⟩

def view : View :=
  .ofList [⟨⟨"A"⟩, none, [], none,
    [⟨main, true, some ⟨[], [.invoke ⟨.static, main, none, []⟩, .goto 0]⟩⟩]⟩]

def graph : Supergraph := ⟨view, [main], [⟨⟨main, 0⟩, [main]⟩]⟩

/-- The number of flows so far. -/
def fresh : StateM Nat (List Nat) := do
  modify (· + 1)
  return [← get]

def problem : Stateful MethodSig Nat Nat where
  seeds := return [(⟨main, 0⟩, 0)]
  normal _ _ _ := fresh
  call _ _ _ := fresh
  ret _ _ _ _ _ _ := fresh
  pass _ _ _ := fresh

/-- Facts without end at two statements, and still the run ends. -/
theorem endless_facts_bounded :
  Supergraph.build view [main] (fun _ => false) = .ok graph ∧ graph.statements.card = 2 ∧
  ((Stateful.solve (Propagation.flowGraph graph) problem ⟨18, 3⟩).run 0).1.edges.size ≤ 18 ∧
  ((Stateful.solve (Propagation.flowGraph graph) problem ⟨18, 3⟩).run 0).1.taken =
    ((Stateful.solve (Propagation.flowGraph graph) problem ⟨18, 3⟩).run 0).1.edges.size
  := by
  have hbuild : Supergraph.build view [main] (fun _ => false) = .ok graph := rfl
  have hcard : graph.statements.card = 2 := by decide
  have hseeds : ∀ e ∈ (problem.seeds.run 0).1, ∃ n ∈ graph.methods, e.1 ∈ graph.starts n := by
    decide
  have hbounded := Supergraph.pathEdges_bounded hbuild problem 0 hseeds ⟨18, 3⟩
  rw [hcard] at hbounded
  use hbuild, hcard, hbounded.1
  apply hbounded.2 (Nat.le_refl 18)

end Endless

end ServiceFlow
