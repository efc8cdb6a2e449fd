import ServiceFlow.Config.Basic
import ServiceFlow.Proofs.Program.LoadSite
import ServiceFlow.Proofs.Propagation.Straight
import ServiceFlow.Resolve.Outer

/-!
# Runs that are not cut short

Where each statement has one store, the run of a configuration ends when every statement was
processed once, and it finds the store of every statement that control gets to.  What the run says
about a load call is then what the store says about its argument.
-/

namespace ServiceFlow

open Propagation

namespace Config

/-- A run from a method, with the given seeds, is not cut short. -/
def Completes (config : Config) (v : View) (m : MethodSig) (seeds : Store) : Prop :=
  ∀ r, config.run v m seeds = .ok r → r.state.truncated = false

/-- The run on a supergraph. -/
def runOn (config : Config) (g : Supergraph) (m : MethodSig) (seeds : Store) : Run :=
  ⟨g, Tabulation.solve (flowGraph g) (problem g m seeds) config.solver.limits⟩

variable {config : Config} {v : View} {g : Supergraph} {m : MethodSig} {seeds : Store}

theorem run_of_build (htarget : config.target = {}) (hg : Supergraph.build v [m] skips = .ok g)
    (seeds : Store) :
  config.run v m seeds = .ok (config.runOn g m seeds)
  := by
  rw [Config.run, Run.execute, htarget, hg]
  rfl

variable {store : StmtId → Store}

/-- A run that is not cut short finds the store of every statement that is reached. -/
theorem factsAt_runOn (hstore : (problem g m seeds).Respects (flowGraph g) store)
    (hcut : (config.runOn g m seeds).state.truncated = false) {q : StmtId} {s : Store}
    (hreached : Reaches g m seeds q s) :
  (config.runOn g m seeds).factsAt q = [store q]
  := by
  obtain ⟨stack, hreached⟩ := hreached
  apply (hstore.determined (flowGraph_isLocal g)).factsAt_solve (flowGraph_isLocal g)
    (problem_seededAtStarts g m seeds) hcut hreached

/-- A run with one store for each statement ends when each of the statements was processed once. -/
theorem completes_of_respects (htarget : config.target = {})
    (hg : Supergraph.build v [m] skips = .ok g)
    (hstore : (problem g m seeds).Respects (flowGraph g) store) (stmts : List StmtId)
    (hstmts : ∀ q ∈ g.statements, q ∈ stmts)
    (hfacts : 1 ≤ config.solver.maxFactsPerStmt.toNat)
    (hiterations : stmts.length ≤ config.solver.maxIterations.toNat) :
  config.Completes v m seeds
  := by
  intro r hr
  obtain rfl := Except.ok.inj ((run_of_build htarget hg seeds).symm.trans hr)
  have hcard : g.statements.card ≤ config.solver.maxIterations.toNat := by
    have hsubset : g.statements ⊆ stmts.toFinset := by
      intro q hq
      apply List.mem_toFinset.2 (hstmts q hq)
    apply (Finset.card_le_card hsubset).trans ((List.toFinset_card_le stmts).trans hiterations)
  apply (hstore.determined (flowGraph_isLocal g)).truncated_solve (flowGraph_isLocal g)
    (problem_seededAtStarts g m seeds) (Supergraph.flowGraph_encloses hg) _ hfacts hcard
  intro e he
  obtain ⟨s, hs, rfl⟩ := List.mem_map.1 he
  constructor
  · apply Supergraph.mem_statements_of_mem_starts _ hs
    apply (Supergraph.mem_methods_iff hg).2 (.entry List.mem_cons_self)
  · rw [Supergraph.mem_starts hs]

end Config

/-- A single store at a load call resolves it by what it holds for the argument, or leaves it
open. -/
theorem LoadSite.outcome_of_factsAt (x : LoadSite) {r : Run} {s : Store}
    (h : r.factsAt x.site = [s]) {value : Value} (hvalue : s.getVar x.site.method x.cls = value) :
  r.outcome x.call = if value.isKnown then ⟨[x.callWith value], 1, 0⟩ else ⟨[], 1, 1⟩
  := by
  have hsite : r.factsAt x.call.site = [s] := h
  rw [Run.outcome_of_factsAt hsite, withValues_call, isResolved_callWith, hvalue]

end ServiceFlow
