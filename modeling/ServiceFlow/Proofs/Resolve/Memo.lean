import ServiceFlow.Proofs.Program.Pool
import ServiceFlow.Proofs.Resolve.Findings

/-!
# What the memo holds

A memo never holds anything but what would be computed in its place.  So a call gets the same
verdict whatever calls came before it: the one that follows from a session of its own.
-/

namespace ServiceFlow

namespace Resolver

/-- The session of the class, in which everything is computed when it is needed. -/
def session (r : Resolver) : Session := .start r.pool r.config r.cls

end Resolver

/-- The memo holds nothing but what its computation gives. -/
structure Memo.IsSound (r : Resolver) (memo : Memo) : Prop where
  view : ∀ v ∈ memo.view, v = .ok r.session.view
  seeds : ∀ s ∈ memo.seeds, s = r.session.seeds.get
  graph : ∀ g ∈ memo.graph, g = r.session.graph.get
  outer : ∀ ctx ∈ memo.outer, ctx = r.session.outer.get

theorem Memo.isSound_empty (r : Resolver) :
  IsSound r {}
  := by
  constructor <;> intro x hx <;> cases hx

namespace Resolver

variable {α β : Type} {r : Resolver}

/-- From every sound memo the computation gives the value and leaves a sound memo. -/
def Yields (r : Resolver) (m : StateM Memo α) (a : α) : Prop :=
  ∀ memo, memo.IsSound r → (m.run memo).run.1 = a ∧ (m.run memo).run.2.IsSound r

namespace Yields

theorem pure (a : α) :
  r.Yields (Pure.pure a) a
  := fun _ h => ⟨rfl, h⟩

theorem bind {m : StateM Memo α} {k : α → StateM Memo β} {a : α} {b : β} (hm : r.Yields m a)
    (hk : r.Yields (k a) b) :
  r.Yields (m >>= k) b
  := by
  intro memo hmemo
  obtain ⟨rfl, hsound⟩ := hm memo hmemo
  apply hk _ hsound

/-- What is asked for is what would be computed. -/
theorem ask {slot : Memo.Slot α} {m : StateM Memo α} {a : α}
    (hread : ∀ memo : Memo, memo.IsSound r → ∀ x ∈ slot.read memo, x = a)
    (hwrite : ∀ memo : Memo, memo.IsSound r → (slot.write a memo).IsSound r) (hm : r.Yields m a) :
  r.Yields (Memo.ask slot m) a
  := by
  intro memo hmemo
  cases hslot : slot.read memo with
  | some x =>
      have hask : ((Memo.ask slot m).run memo).run = (x, memo) := by
        simp [Memo.ask, hslot]
      rw [hask]
      use hread memo hmemo x hslot
  | none =>
      obtain ⟨rfl, hsound⟩ := hm memo hmemo
      have hask : ((Memo.ask slot m).run memo).run =
          ((m.run memo).run.1, slot.write (m.run memo).run.1 (m.run memo).run.2) := by
        simp [Memo.ask, hslot]
      rw [hask]
      use rfl
      apply hwrite _ hsound

end Yields

/-! ### One call -/

section

variable (hr : r.pool.load r.cls.name = .ok r.cls)
include hr

theorem yields_view :
  r.Yields r.view (.ok r.session.view)
  := by
  apply Yields.ask
  · intro memo hmemo
    apply hmemo.view
  · intro memo hmemo
    exact { hmemo with view := fun _ hv => (Option.some.inj hv).symm }
  · rw [ClassPool.view_singleton hr]
    apply Yields.pure

theorem yields_seeds :
  r.Yields r.seeds r.session.seeds.get
  := by
  apply Yields.ask
  · intro memo hmemo
    apply hmemo.seeds
  · intro memo hmemo
    exact { hmemo with seeds := fun _ hs => (Option.some.inj hs).symm }
  · apply (yields_view hr).bind
    apply Yields.pure

theorem yields_graph :
  r.Yields r.graph r.session.graph.get
  := by
  apply Yields.ask
  · intro memo hmemo
    apply hmemo.graph
  · intro memo hmemo
    exact { hmemo with graph := fun _ hg => (Option.some.inj hg).symm }
  · apply (yields_view hr).bind
    apply Yields.pure

omit hr in
theorem yields_outer :
  r.Yields r.outer r.session.outer.get
  := by
  apply Yields.ask
  · intro memo hmemo
    apply hmemo.outer
  · intro memo hmemo
    exact { hmemo with outer := fun _ hctx => (Option.some.inj hctx).symm }
  · apply Yields.pure

theorem yields_fromCallers (call : LoadCall) (f : Findings) :
  r.Yields (r.fromCallers r.session call f)
    (if r.session.config.callerBacktracking then r.session.fromCallers call f else f)
  := by
  unfold fromCallers
  split
  · apply (yields_graph hr).bind
    apply Yields.pure
  · apply Yields.pure

omit hr in
theorem yields_fromOuter (call : LoadCall) (f : Findings) :
  r.Yields (r.fromOuter r.session call f) (r.session.fromOuter call f)
  := by
  unfold fromOuter
  split
  · apply yields_outer.bind
    apply Yields.pure
  · next hinner =>
    rw [Session.fromOuter, if_neg hinner]
    apply Yields.pure

theorem yields_escalate (call : LoadCall) (f : Findings) :
  r.Yields (r.escalate r.session call f) (r.session.escalate call f)
  := by
  apply (yields_fromCallers hr call f).bind
  rw [Session.escalate]
  generalize (if r.session.config.callerBacktracking then r.session.fromCallers call f else f) = g
  split
  · apply Yields.pure
  · apply yields_fromOuter

theorem yields_search (call : LoadCall) :
  let own := r.session.outcome call call.method r.session.seeds.get
  let f := Findings.note {} call.method own
  r.Yields (r.search r.session call)
    (if Session.isSettled own then f else r.session.escalate call f)
  := by
  intro own f
  change r.Yields (if Session.isSettled own then pure f else r.escalate r.session call f) _
  split
  · apply Yields.pure
  · apply yields_escalate hr

/-- A call gets the verdict of the session. -/
theorem yields_resolve (call : LoadCall) :
  r.Yields (r.resolve call) (r.session.resolve call)
  := by
  rw [resolve, Session.resolve]
  split
  · apply Yields.pure
  · apply (yields_seeds hr).bind
    apply (yields_view hr).bind
    apply (yields_search hr call).bind
    apply Yields.pure

/-! ### All calls -/

theorem yields_takeIn (calls : List LoadCall) (a : ClassAnalysis) :
  r.Yields (r.takeIn calls a) (calls.foldl (fun a call => a.add call (r.session.resolve call)) a)
  := by
  induction calls generalizing a with
  | nil => apply Yields.pure
  | cons call calls ih =>
      have hadd : r.Yields (return a.add call (← r.resolve call))
          (a.add call (r.session.resolve call)) := (yields_resolve hr call).bind (.pure _)
      rw [takeIn, List.foldlM_cons, List.foldl_cons]
      apply hadd.bind (ih _)

/-- Calls that are resolved one after another get the verdicts of the session. -/
theorem analyzeCalls_eq_foldl (calls : List LoadCall) :
  r.analyzeCalls calls =
    calls.foldl (fun a call => a.add call (r.session.resolve call)) { cls := r.cls.name }
  := (yields_takeIn hr calls _ {} (Memo.isSound_empty r)).1

end

end Resolver

end ServiceFlow
