import ServiceFlow.Proofs.Propagation.Run
import ServiceFlow.Proofs.Resolve.CallerSearch
import ServiceFlow.Resolve.Memo

/-!
# What is found for a call

A session makes a run from the method of a call, from callers of that method, and with the objects
that the outer class makes.  Each finding for the call has the values of a fact that one of these
runs holds at the call, and these values resolve the call.
-/

namespace ServiceFlow

@[simp] theorem LoadCall.site_withValues (c : LoadCall) (s : Store) :
  (c.withValues s).site = c.site
  := rfl

/-! ### Collecting findings -/

theorem Finding.mem_insert {l : List Finding} {f x : Finding} (h : x ∈ insert l f) :
  x ∈ l ∨ x = f
  := by
  unfold insert at h
  split at h
  · apply Or.inl h
  · simpa using h

namespace Findings

theorem mem_found_add {f : Findings} {entry : MethodSig} {calls : List LoadCall} {x : Finding}
    (h : x ∈ (f.add entry calls).found) :
  x ∈ f.found ∨ ∃ c ∈ calls, x = ⟨entry, c⟩
  := by
  induction calls generalizing f with
  | nil => apply Or.inl h
  | cons c calls ih =>
      rcases ih (f := ⟨Finding.insert f.found ⟨entry, c⟩, f.failure⟩) h with h | ⟨c', hc', rfl⟩
      · apply (Finding.mem_insert h).imp_right
        intro hx
        use c, List.mem_cons_self
      · apply Or.inr
        use c', List.mem_cons_of_mem _ hc'

theorem mem_found_note {f : Findings} {entry : MethodSig} {r : Except ScopeError Outcome}
    {x : Finding} (h : x ∈ (f.note entry r).found) :
  x ∈ f.found ∨ ∃ o, r = .ok o ∧ ∃ c ∈ o.resolved, x = ⟨entry, c⟩
  := by
  cases r with
  | error e => apply Or.inl h
  | ok o =>
      apply (mem_found_add h).imp_right
      intro hx
      use o

end Findings

/-! ### The runs of a session -/

namespace Session

/-- The runs for a call beyond its own method. -/
def escalate (s : Session) (call : LoadCall) (f : Findings) : Findings :=
  let g := if s.config.callerBacktracking then s.fromCallers call f else f
  if f.found.length < g.found.length || !s.config.outerClassThreading then g
  else s.fromOuter call g

/-- The verdict on a call, from nothing but what the session holds. -/
def resolve (s : Session) (call : LoadCall) : Verdict :=
  if call.isLiteral then .literal
  else
    let own := s.outcome call call.method s.seeds.get
    let f := Findings.note {} call.method own
    .searched (if isSettled own then f else s.escalate call f)

variable (s : Session) (call : LoadCall)

/-- The runs for a call: the method that their findings are attributed to, the method that they
start from, and what is known there. -/
inductive Attempt : (attributed entry : MethodSig) → (seeds : Store) → Prop where
  | own : Attempt call.method call.method s.seeds.get
  | caller {g : CallGraph} {m : MethodSig} {path : List MethodSig} (built : s.graph.get = .ok g)
      (chain : g.Chain (fun _ => True) call.method (m :: path))
      (bounded : path.length ≤ s.config.maxBacktrackDepth.toNat) :
      Attempt m m s.seeds.get
  | receiver {ctx : OuterContext} {r : Receiver} (seen : s.outer.get = .ok ctx)
      (made : r ∈ ctx.receivers) :
      Attempt r.maker call.method (s.seedsWith ctx call.method r.object)

/-- The finding resolves the call, by a fact of a run for it. -/
def Supports (x : Finding) : Prop :=
  ∃ entry seeds r fact, s.Attempt call x.entry entry seeds ∧
    s.config.run s.view entry seeds = .ok r ∧ fact ∈ r.factsAt call.site ∧
    x.call = call.withValues fact ∧ x.call.isResolved

variable {s call}

theorem supports_note {f : Findings} (hf : ∀ x ∈ f.found, s.Supports call x)
    {attributed entry : MethodSig} {seeds : Store} (h : s.Attempt call attributed entry seeds) :
  ∀ x ∈ (f.note attributed (s.outcome call entry seeds)).found, s.Supports call x
  := by
  intro x hx
  rcases Findings.mem_found_note hx with hx | ⟨o, ho, c, hc, rfl⟩
  · apply hf x hx
  · cases hrun : s.config.run s.view entry seeds with
    | error e =>
        rw [outcome, hrun] at ho
        cases ho
    | ok r =>
        rw [outcome, hrun] at ho
        obtain rfl : r.outcome call = o := Except.ok.inj ho
        obtain ⟨fact, hfact, rfl, hresolved⟩ := (Run.mem_resolved_outcome r call c).1 hc
        use entry, seeds, r, fact

/-- The search for a call among the callers of its method. -/
def search (s : Session) (call : LoadCall) (g : CallGraph) : CallerSearch.Search where
  run m := s.outcome call m s.seeds.get
  maxVisited := s.config.maxVisitedMethods.toNat
  graph := g
  maxDepth := s.config.maxBacktrackDepth.toNat
  start := call.method

theorem attempt_of_mem_ran {g : CallGraph} (hg : s.graph.get = .ok g) {f : Findings} {m : MethodSig}
    (hm : m ∈ (s.search call g).ran f) :
  s.Attempt call m m s.seeds.get
  := by
  obtain ⟨trail, hexplores, _⟩ := (s.search call g).exists_trails f
  have hvisited := (CallerSearch.Search.mem_ran.1 hm).1
  apply Attempt.caller hg _ (hexplores.trails.bounded m hvisited)
  apply (hexplores.trails.chain m hvisited).mono
  intro _ _
  trivial

theorem supports_fromCallers {f : Findings} (hf : ∀ x ∈ f.found, s.Supports call x) :
  ∀ x ∈ (s.fromCallers call f).found, s.Supports call x
  := by
  rw [fromCallers]
  split
  · apply hf
  · next g hg =>
    change ∀ x ∈ ((s.search call g).result f).findings.found, _
    rw [CallerSearch.Search.findings_result]
    have hran : ∀ m ∈ (s.search call g).ran f, s.Attempt call m m s.seeds.get :=
      fun m hm => attempt_of_mem_ran hg hm
    generalize (s.search call g).ran f = ran at hran
    induction ran with
    | nil => apply hf
    | cons m ran ih =>
        apply supports_note _ (hran m List.mem_cons_self)
        apply ih
        intro m' hm'
        apply hran m' (List.mem_cons_of_mem _ hm')

theorem supports_fromOuter {f : Findings} (hf : ∀ x ∈ f.found, s.Supports call x) :
  ∀ x ∈ (s.fromOuter call f).found, s.Supports call x
  := by
  rw [fromOuter]
  split
  · split
    · apply hf
    · next ctx hctx =>
      have hmade : ∀ r ∈ ctx.receivers, s.Attempt call r.maker call.method
          (s.seedsWith ctx call.method r.object) := fun r hr => .receiver hctx hr
      generalize ctx.receivers = receivers at hmade
      induction receivers generalizing f with
      | nil => apply hf
      | cons r receivers ih =>
          apply ih
          · apply supports_note hf (hmade r List.mem_cons_self)
          · intro r' hr'
            apply hmade r' (List.mem_cons_of_mem _ hr')
  · apply hf

theorem supports_escalate {f : Findings} (hf : ∀ x ∈ f.found, s.Supports call x) :
  ∀ x ∈ (s.escalate call f).found, s.Supports call x
  := by
  have hcallers : ∀ x ∈ (if s.config.callerBacktracking then s.fromCallers call f else f).found,
      s.Supports call x := by
    split
    · apply supports_fromCallers hf
    · apply hf
  rw [escalate]
  generalize (if s.config.callerBacktracking then s.fromCallers call f else f) = g at hcallers
  split
  · apply hcallers
  · apply supports_fromOuter hcallers

/-- All findings of a search are supported. -/
theorem supports_resolve {f : Findings} (h : s.resolve call = .searched f) :
  ∀ x ∈ f.found, s.Supports call x
  := by
  have hown : ∀ x ∈ (Findings.note {} call.method (s.outcome call call.method s.seeds.get)).found,
      s.Supports call x :=
    supports_note (fun _ hx => absurd hx List.not_mem_nil) .own
  unfold resolve at h
  split at h
  · cases h
  · obtain rfl := Verdict.searched.inj h
    split
    · apply hown
    · apply supports_escalate hown

end Session

end ServiceFlow
