import Mathlib.Data.List.Basic
import ServiceFlow.Tabulation.Stateful

/-!
# Flows that do not heed the memory

If the facts that the flows yield do not depend on the memory, then neither do the tables: a run
fills them as a run without memory does, however the flows change the memory on the way.
-/

namespace ServiceFlow.Tabulation

variable {μ φ σ α β : Type}

/-- The computation yields the value whatever the memory. -/
def Yields (x : StateM σ α) (a : α) : Prop := ∀ m, (x.run m).1 = a

namespace Yields

theorem pure (a : α) :
  Yields (Pure.pure a : StateM σ α) a
  := fun _ => rfl

theorem bind {x : StateM σ α} {a : α} {f : α → StateM σ β} {b : β} (hx : Yields x a)
    (hf : Yields (f a) b) :
  Yields (x >>= f) b
  := by
  intro m
  rw [← hf (x.run m).2, ← hx m]
  rfl

theorem foldlM {f : β → α → StateM σ β} {f' : β → α → β} (hf : ∀ b a, Yields (f b a) (f' b a))
    (as : List α) (b : β) :
  Yields (as.foldlM f b) (as.foldl f' b)
  := by
  induction as generalizing b with
  | nil => apply Yields.pure
  | cons a as ih =>
      rw [List.foldlM_cons, List.foldl_cons]
      apply (hf b a).bind (ih _)

end Yields

namespace Stateful

/-- The flows yield the facts that those of the problem yield, whatever the memory. -/
structure Matches (q : Stateful μ φ σ) (p : Problem μ φ) : Prop where
  seeds : Yields q.seeds p.seeds
  normal : ∀ point next d, Yields (q.normal point next d) (p.normal point next d)
  call : ∀ site callee d, Yields (q.call site callee d) (p.call site callee d)
  ret : ∀ site callee exit next d d',
    Yields (q.ret site callee exit next d d') (p.ret site callee exit next d d')
  pass : ∀ site next d, Yields (q.pass site next d) (p.pass site next d)

/-- To count how often the flows are applied does not change what they yield. -/
theorem matches_counted (p : Problem μ φ) :
  p.counted.Matches p
  := by
  constructor
  · apply Yields.pure
  all_goals
    intros
    intro _
    rfl

variable [DecidableEq μ] [Hashable μ] [DecidableEq φ] [Hashable φ]
variable {g : Graph μ} {q : Stateful μ φ σ} {p : Problem μ φ} {l : Limits}

theorem yields_emitAll {flow : Point μ → StateM σ (List φ)} {flow' : Point μ → List φ}
    (h : ∀ next, Yields (flow next) (flow' next)) (source : φ) (points : List (Point μ))
    (s : State μ φ) :
  Yields (emitAll l source flow points s)
    (points.foldl (fun s next => s.emit l source next (flow' next)) s)
  := by
  apply Yields.foldlM
  intro s next
  apply (h next).bind
  apply Yields.pure

namespace Matches

variable (h : q.Matches p)

include h

theorem yields_comeBack (callee : μ) (c : Context μ φ) (x : Ending μ φ) (s : State μ φ) :
  Yields (comeBack g q l callee c x s) (Tabulation.comeBack g p l callee c x s)
  := by
  apply yields_emitAll
  intro next
  apply h.ret

theorem yields_enter (e : PathEdge μ φ) (callee : μ) (s : State μ φ) (d : φ) :
  Yields (enter g q l e callee s d) (Tabulation.enter g p l e callee s d)
  := by
  rw [enter, connect, Tabulation.enter]
  split
  · apply Yields.pure
  · apply Yields.foldlM
    intro s x
    apply h.yields_comeBack

theorem yields_callOut (e : PathEdge μ φ) (s : State μ φ) :
  Yields (callOut g q l e s) (Tabulation.callOut g p l e s)
  := by
  apply Yields.bind
  · apply Yields.foldlM
    intro s callee
    apply (h.call e.point callee e.fact).bind
    apply Yields.foldlM
    apply h.yields_enter
  · apply yields_emitAll
    intro next
    apply h.pass

theorem yields_leave (e : PathEdge μ φ) (s : State μ φ) :
  Yields (leave g q l e s) (Tabulation.leave g p l e s)
  := by
  rw [leave, Tabulation.leave]
  split
  · apply Yields.pure
  · apply Yields.foldlM
    intro s c
    apply h.yields_comeBack

theorem yields_process (e : PathEdge μ φ) (s : State μ φ) :
  Yields (process g q l e s) (Tabulation.process g p l e s)
  := by
  rw [process, Tabulation.process]
  split
  · apply h.yields_callOut
  · split
    · apply h.yields_leave
    · apply yields_emitAll
      intro next
      apply h.normal

theorem yields_run (n : Nat) (s : State μ φ) :
  Yields (run g q l n s) (Tabulation.run g p l n s)
  := by
  induction n generalizing s with
  | zero => apply Yields.pure
  | succ n ih =>
      rw [run, Tabulation.run]
      cases s.edges.items[s.taken]? with
      | none => apply Yields.pure
      | some e => apply (h.yields_process _ _).bind (ih _)

/-- The tables at the end of a run are those of a run without memory. -/
theorem yields_solve :
  Yields (solve g q l) (Tabulation.solve g p l)
  := by
  apply Yields.bind
  · apply h.seeds.bind
    apply Yields.pure
  · apply h.yields_run

end Matches

end Stateful

end ServiceFlow.Tabulation
