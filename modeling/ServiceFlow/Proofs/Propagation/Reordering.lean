import ServiceFlow.Proofs.Program.Reordering
import ServiceFlow.Proofs.Propagation.Run

/-!
# Runs and the order of methods

A run asks its view for bodies by their signatures and for classes by their names.  Views that
differ in the order of methods give it the same answers, so that it finds the same facts in the
same order.
-/

namespace ServiceFlow

variable {v w : View}

namespace Propagation

variable {g : Supergraph}

theorem flowGraph_withView (h : g.view.Reordered w) :
  flowGraph (g.withView w) = flowGraph g
  := by
  unfold flowGraph
  congr 1
  · funext p
    simp only [Supergraph.successors, Supergraph.withView, h.body?]
  · funext m
    simp only [Supergraph.starts, Supergraph.withView, h.body?]
  · funext p
    simp only [Supergraph.isExit, Supergraph.withView, h.stmt?]

theorem apply_of_reordered (h : v.Reordered w) (m : MethodSig) (s : Store) (stmt : Stmt) :
  stmt.apply w m s = stmt.apply v m s
  := by
  cases stmt with
  | assign place e => cases e <;> simp [Stmt.apply, Expr.eval, h.contains]
  | _ => rfl

theorem frame_of_reordered (h : v.Reordered w) (m : MethodSig) :
  w.frame m = v.frame m
  := by
  rw [View.frame, View.frame, h.body?]

theorem problem_withView (h : g.view.Reordered w) (entry : MethodSig) (seeds : Store) :
  problem (g.withView w) entry seeds = problem g entry seeds
  := by
  have hstmt : (g.withView w).view.stmt? = g.view.stmt? := funext fun q => (h.stmt? q).symm
  have hbody : (g.withView w).view.body? = g.view.body? := funext fun m => (h.body? m).symm
  have hframe : (g.withView w).view.frame = g.view.frame := funext (frame_of_reordered h)
  have hafter : after (g.withView w) = after g := by
    funext q s
    rw [after, after, hstmt]
    congr 1
    funext stmt
    apply apply_of_reordered h
  have hcallees : (g.withView w).callees = g.callees := rfl
  have hreturns : mayReturn (g.withView w) = mayReturn g := by
    funext site
    rw [mayReturn, mayReturn, hbody, hcallees]
  have henter : enterWith (g.withView w) = enterWith g := by
    funext site callee s i
    rw [enterWith, enterWith, hframe]
  have hreturn : returnWith (g.withView w) = returnWith g := by
    funext site callee exit caller ended stmt
    rw [returnWith, returnWith, returned, returned, hstmt, returnObjects, returnObjects, hframe]
  have hstarts : (g.withView w).starts entry = g.starts entry := by
    rw [Supergraph.starts, Supergraph.starts, hbody]
  unfold problem
  rw [hstmt, hafter, hreturns, henter, hreturn, hstarts]

end Propagation

namespace Run

open Propagation

/-- The run with another view in its graph. -/
def withView (r : Run) (w : View) : Run := { r with graph := r.graph.withView w }

/-- The runs over the views are the same but for the view. -/
theorem execute_of_reordered (h : v.Reordered w) (entry : MethodSig) (seeds : Store)
    (t : LoadTarget) (l : Tabulation.Limits) :
  execute w entry seeds t l = (execute v entry seeds t l).map (fun r => r.withView w)
  := by
  rw [execute, execute, Supergraph.build_of_reordered h]
  cases hbuild : Supergraph.build v [entry] t.skips with
  | error e => rfl
  | ok g =>
      have hg : g.view.Reordered w := by
        rw [Supergraph.view_build hbuild]
        apply h
      change Except.ok (Run.mk (g.withView w) (Tabulation.solve (flowGraph (g.withView w))
        (problem (g.withView w) entry seeds) l)) = _
      rw [flowGraph_withView hg, problem_withView hg]
      rfl

theorem outcome_withView (r : Run) (w : View) (c : LoadCall) :
  (r.withView w).outcome c = r.outcome c
  := rfl

theorem factsAfter_withView {r : Run} (h : r.graph.view.Reordered w) (q : StmtId) :
  (r.withView w).factsAfter q = r.factsAfter q
  := by
  rw [factsAfter, factsAfter]
  exact congrArg (fun g => r.state.factsAfter g q) (flowGraph_withView h)

theorem harvest_withView {r : Run} (h : r.graph.view.Reordered w) (m : MethodSig) :
  (r.withView w).harvest m = r.harvest m
  := by
  have hreturns : (r.withView w).factsAtReturns m = r.factsAtReturns m := by
    unfold factsAtReturns
    rw [h.body?]
    rfl
  rw [harvest, harvest, hreturns]
  rfl

/-- What is read off the runs is the same. -/
theorem map_execute_of_reordered {α : Type} {read : Run → α} (h : v.Reordered w)
    (hread : ∀ r : Run, r.graph.view = v → read (r.withView w) = read r) (entry : MethodSig)
    (seeds : Store) (t : LoadTarget) (l : Tabulation.Limits) :
  (execute w entry seeds t l).map read = (execute v entry seeds t l).map read
  := by
  rw [execute_of_reordered h]
  cases hrun : execute v entry seeds t l with
  | error e => rfl
  | ok r =>
      have hview := Supergraph.view_build (execute_eq_ok hrun).1
      exact congrArg Except.ok (hread r hview)

end Run

end ServiceFlow
