import ServiceFlow.Proofs.Propagation.Reordering
import ServiceFlow.Proofs.Resolve.CallerClosure
import ServiceFlow.Proofs.Resolve.Independence

/-!
# Resolution and the order of methods

What is resolved in a class does not depend on the order in which its methods are declared, if the
search among callers is not cut short.  The order decides which caller is run first and which
object of the outer class is tried first, hence to which method a finding is attributed and which
of several failures is reported.  It does not decide which calls are found, nor whether there is a
failure.
-/

namespace ServiceFlow

/-! ### Findings of the same calls -/

theorem Finding.mem_map_call_insert {l : List Finding} {f : Finding} {c : LoadCall} :
  c ∈ (insert l f).map Finding.call ↔ c ∈ l.map Finding.call ∨ c = f.call
  := by
  unfold insert
  split
  · next hany =>
    have hf : f.call ∈ l.map Finding.call := by simpa using hany
    constructor
    · apply Or.inl
    · rintro (hc | rfl)
      · apply hc
      · apply hf
  · simp

namespace Findings

/-- The calls that were found. -/
def calls (f : Findings) : List LoadCall := f.found.map Finding.call

theorem mem_calls_add {f : Findings} {entry : MethodSig} {calls : List LoadCall} {c : LoadCall} :
  c ∈ (f.add entry calls).calls ↔ c ∈ f.calls ∨ c ∈ calls
  := by
  induction calls generalizing f with
  | nil => simp [add]
  | cons c' calls ih =>
      have hstep := ih (f := ⟨Finding.insert f.found ⟨entry, c'⟩, f.failure⟩)
      have hinsert : c ∈ (Findings.mk (Finding.insert f.found ⟨entry, c'⟩) f.failure).calls ↔
          c ∈ f.calls ∨ c = c' :=
        Finding.mem_map_call_insert
      rw [hinsert, or_assoc] at hstep
      rw [List.mem_cons]
      exact hstep

theorem nodup_calls_add {f : Findings} (h : f.calls.Nodup) (entry : MethodSig)
    (calls : List LoadCall) :
  (f.add entry calls).calls.Nodup
  := by
  induction calls generalizing f with
  | nil => apply h
  | cons c calls ih =>
      apply ih (f := ⟨Finding.insert f.found ⟨entry, c⟩, f.failure⟩)
      apply Finding.nodup_insert h

theorem mem_calls_note {f : Findings} {entry : MethodSig} {r : Except ScopeError Outcome}
    {c : LoadCall} :
  c ∈ (f.note entry r).calls ↔ c ∈ f.calls ∨ ∃ o, r = .ok o ∧ c ∈ o.resolved
  := by
  cases r with
  | error e => simp [note, fail, calls]
  | ok o => simp [note, mem_calls_add]

theorem nodup_calls_note {f : Findings} (h : f.calls.Nodup) (entry : MethodSig)
    (r : Except ScopeError Outcome) :
  (f.note entry r).calls.Nodup
  := by
  cases r with
  | error e => apply h
  | ok o => apply nodup_calls_add h

theorem failure_note {f : Findings} {entry : MethodSig} {r : Except ScopeError Outcome} :
  (f.note entry r).failure.isSome ↔ f.failure.isSome ∨ ∃ e, r = .error e
  := by
  cases r with
  | error e => cases hf : f.failure <;> simp [note, fail, hf]
  | ok o => simp [note, add]

section

variable {α : Type} {entry : α → MethodSig} {result : α → Except ScopeError Outcome}

/-- Takes in what several runs said. -/
def noteAll (f : Findings) (entry : α → MethodSig) (result : α → Except ScopeError Outcome)
    (l : List α) : Findings :=
  l.foldl (fun f a => f.note (entry a) (result a)) f

theorem mem_calls_noteAll {f : Findings} {l : List α} {c : LoadCall} :
  c ∈ (f.noteAll entry result l).calls ↔
    c ∈ f.calls ∨ ∃ o, (∃ a ∈ l, result a = .ok o) ∧ c ∈ o.resolved
  := by
  induction l generalizing f with
  | nil => simp [noteAll]
  | cons a l ih =>
      change c ∈ ((f.note (entry a) (result a)).noteAll entry result l).calls ↔ _
      rw [ih, mem_calls_note, or_assoc]
      simp only [List.mem_cons, or_and_right, exists_or, exists_eq_left]

theorem nodup_calls_noteAll {f : Findings} (h : f.calls.Nodup) (l : List α) :
  (f.noteAll entry result l).calls.Nodup
  := by
  induction l generalizing f with
  | nil => apply h
  | cons a l ih => apply ih (nodup_calls_note h _ _)

theorem failure_noteAll {f : Findings} {l : List α} :
  (f.noteAll entry result l).failure.isSome ↔
    f.failure.isSome ∨ ∃ e, ∃ a ∈ l, result a = .error e
  := by
  induction l generalizing f with
  | nil => simp [noteAll]
  | cons a l ih =>
      change ((f.note (entry a) (result a)).noteAll entry result l).failure.isSome ↔ _
      rw [ih, failure_note, or_assoc]
      simp only [List.mem_cons, exists_eq_or_imp, exists_or]

end

/-- The findings are of the same calls, and both searches have failed or none. -/
structure Alike (f g : Findings) : Prop where
  calls : ∀ c, c ∈ f.calls ↔ c ∈ g.calls
  nodup : f.calls.Nodup
  nodup' : g.calls.Nodup
  failure : f.failure.isSome ↔ g.failure.isSome

namespace Alike

variable {f g : Findings}

theorem length_found (h : f.Alike g) :
  f.found.length = g.found.length
  := by
  have hperm := (List.perm_ext_iff_of_nodup h.nodup h.nodup').2 h.calls
  simpa [Findings.calls] using hperm.length_eq

theorem fail (h : f.Alike g) (e e' : ScopeError) :
  (f.fail e).Alike (g.fail e')
  := by
  refine ⟨h.calls, h.nodup, h.nodup', ?_⟩
  simp [Findings.fail]

theorem note (h : f.Alike g) (entry : MethodSig) (r : Except ScopeError Outcome) :
  (f.note entry r).Alike (g.note entry r)
  := by
  refine ⟨fun c => ?_, nodup_calls_note h.nodup _ _, nodup_calls_note h.nodup' _ _, ?_⟩
  · rw [mem_calls_note, mem_calls_note, h.calls]
  · rw [failure_note, failure_note, h.failure]

/-- Runs with the same outcomes may be made in any order. -/
theorem noteAll {α β : Type} (h : f.Alike g) {l : List α} {l' : List β} {entry : α → MethodSig}
    {entry' : β → MethodSig} {result : α → Except ScopeError Outcome}
    {result' : β → Except ScopeError Outcome}
    (hresults : ∀ r, (∃ a ∈ l, result a = r) ↔ ∃ b ∈ l', result' b = r) :
  (f.noteAll entry result l).Alike (g.noteAll entry' result' l')
  := by
  refine ⟨fun c => ?_, nodup_calls_noteAll h.nodup l, nodup_calls_noteAll h.nodup' l', ?_⟩
  · simp only [mem_calls_noteAll, h.calls, hresults]
  · simp only [failure_noteAll, h.failure, hresults]

end Alike

end Findings

/-! ### Contexts of the outer class -/

/-- The contexts have the same constants and the same objects. -/
structure OuterContext.Alike (ctx ctx' : OuterContext) : Prop where
  statics : ctx.statics = ctx'.statics
  objects : ∀ v, (∃ r ∈ ctx.receivers, r.object = v) ↔ ∃ r ∈ ctx'.receivers, r.object = v

theorem OuterContext.Alike.exists_receiver {ctx ctx' : OuterContext} (h : ctx.Alike ctx')
    {P : Value → Prop} :
  (∃ r ∈ ctx.receivers, P r.object) ↔ ∃ r ∈ ctx'.receivers, P r.object
  := by
  constructor
  · rintro ⟨r, hr, hP⟩
    obtain ⟨r', hr', hobject⟩ := (h.objects r.object).1 ⟨r, hr, rfl⟩
    exact ⟨r', hr', hobject ▸ hP⟩
  · rintro ⟨r', hr', hP⟩
    obtain ⟨r, hr, hobject⟩ := (h.objects r'.object).2 ⟨r', hr', rfl⟩
    exact ⟨r, hr, hobject ▸ hP⟩

namespace Config

variable {v w : View} (config : Config)

theorem map_run_of_reordered {α : Type} {read : Run → α} (h : v.Reordered w)
    (hread : ∀ r : Run, r.graph.view = v → read (r.withView w) = read r) (entry : MethodSig)
    (seeds : Store) :
  (config.run w entry seeds).map read = (config.run v entry seeds).map read
  := Run.map_execute_of_reordered h hread entry seeds config.target config.solver.limits

theorem initialStatics_of_reordered (h : v.Reordered w) {d e : ClassDecl} (hd : d.Reordered e) :
  config.initialStatics w e = config.initialStatics v d
  := by
  have hharvest : ∀ m : MethodSig, (config.run w m .empty).map (fun r => r.harvest m) =
      (config.run v m .empty).map (fun r => r.harvest m) := by
    intro m
    apply config.map_run_of_reordered h
    intro r hr
    apply Run.harvest_withView
    rw [hr]
    apply h
  rw [initialStatics, initialStatics, hd.staticInitializer?]
  cases e.staticInitializer? with
  | none => rfl
  | some m =>
      dsimp only
      split
      · have hm := hharvest m.signature
        cases hv : config.run v m.signature .empty <;>
          cases hw : config.run w m.signature .empty <;> simp_all [Except.map]
      · rfl

end Config

namespace OuterContext

variable {v w : View} {config : Config}

theorem receiversOf_of_reordered (h : v.Reordered w) (statics : Store) (k : Construction) :
  receiversOf config w statics k = receiversOf config v statics k
  := by
  apply config.map_run_of_reordered h
  intro r hr
  rw [Run.factsAfter_withView (by rw [hr]; apply h)]

theorem exists_object_insert {l : List Receiver} {r : Receiver} {v : Value} :
  (∃ x ∈ Receiver.insert l r, x.object = v) ↔ (∃ x ∈ l, x.object = v) ∨ r.object = v
  := by
  unfold Receiver.insert
  split
  · next hany =>
    have hr : ∃ x ∈ l, x.object = r.object := by simpa using hany
    constructor
    · apply Or.inl
    · rintro (hx | rfl)
      · apply hx
      · apply hr
  · simp [or_and_right, exists_or]

theorem exists_object_foldl_insert {l found : List Receiver} {v : Value} :
  (∃ x ∈ found.foldl Receiver.insert l, x.object = v) ↔
    (∃ x ∈ l, x.object = v) ∨ ∃ x ∈ found, x.object = v
  := by
  induction found generalizing l with
  | nil => simp
  | cons r found ih =>
      rw [List.foldl_cons, ih, exists_object_insert, or_assoc]
      simp only [List.mem_cons, or_and_right, exists_or, exists_eq_left]

theorem exists_object_of_perm {found found' : List Receiver} (h : found.Perm found') (v : Value) :
  (∃ x ∈ found.foldl Receiver.insert [], x.object = v) ↔
    ∃ x ∈ found'.foldl Receiver.insert [], x.object = v
  := by
  simp only [exists_object_foldl_insert, h.mem_iff]

theorem foldl_insert_eq_nil_of_perm {found found' : List Receiver} (h : found.Perm found')
    (hnil : found.foldl Receiver.insert [] = []) :
  found'.foldl Receiver.insert [] = []
  := by
  apply List.eq_nil_iff_forall_not_mem.2
  intro x hx
  obtain ⟨y, hy, _⟩ := (exists_object_of_perm h x.object).2 ⟨x, hx, rfl⟩
  rw [hnil] at hy
  cases hy

/-- The objects are the same whatever the order of the results, and so is whether there are errors
and nothing beside them. -/
theorem settle_of_perm (statics : Store)
    {results results' : List (Except ScopeError (List Receiver))} (h : results.Perm results') :
  Parallel Alike (settle statics results) (settle statics results')
  := by
  have hfound := h.flatMap_right (fun r => r.toOption.getD [])
  unfold settle
  dsimp only
  split
  · next hnil hlast =>
    obtain ⟨e', hlast'⟩ := exists_getLast?_of_perm h hlast
    rw [foldl_insert_eq_nil_of_perm hfound hnil, hlast']
    apply Parallel.error
  · next hok =>
    split
    · next hnil' hlast' =>
      obtain ⟨e, hlast⟩ := exists_getLast?_of_perm h.symm hlast'
      exact absurd hlast (hok e (foldl_insert_eq_nil_of_perm hfound.symm hnil'))
    · exact .ok ⟨rfl, exists_object_of_perm hfound⟩

theorem ofView_of_reordered (h : v.Reordered w) (outer inner : ClassName) :
  Parallel Alike (ofView config v outer inner) (ofView config w outer inner)
  := by
  rw [ofView, ofView]
  rcases h.class? outer with ⟨hv, hw⟩ | ⟨d, e, hv, hw, hd⟩
  · rw [hv, hw]
    exact .ok ⟨rfl, fun _ => .rfl⟩
  · rw [hv, hw]
    dsimp only
    rw [config.initialStatics_of_reordered h hd, funext (receiversOf_of_reordered h _)]
    apply settle_of_perm
    apply List.Perm.map
    apply hd.methods.flatMap_right

end OuterContext

/-! ### Sessions -/

namespace Session

/-- The sessions make the same runs, and know the same of callers and of the outer class. -/
structure Alike (s t : Session) : Prop where
  config : s.config = t.config
  isInner : s.cls.isInner = t.cls.isInner
  outcome : ∀ call m seeds, s.outcome call m seeds = t.outcome call m seeds
  seeds : s.seeds.get = t.seeds.get
  this? : ∀ m, s.this? m = t.this? m
  graph : Parallel (fun g g' => ∀ m c, m ∈ g.callers c ↔ m ∈ g'.callers c) s.graph.get t.graph.get
  outer : Parallel OuterContext.Alike s.outer.get t.outer.get

/-- The bounds of the search for a call do not matter. -/
def Unbounded (s : Session) (call : LoadCall) : Prop :=
  ∀ g, s.graph.get = .ok g → ∃ methods, (s.search call g).Unbounded methods

namespace Alike

variable {s t : Session} {call : LoadCall} {f g : Findings}

theorem fromCallers (h : s.Alike t) (hs : s.Unbounded call) (ht : t.Unbounded call)
    (hf : f.Alike g) :
  (s.fromCallers call f).Alike (t.fromCallers call g)
  := by
  have hgraph := h.graph
  rw [Session.fromCallers, Session.fromCallers]
  unfold Unbounded at hs ht
  generalize s.graph.get = x at hgraph hs ⊢
  generalize t.graph.get = y at hgraph ht ⊢
  cases hgraph with
  | error e e' => exact hf.fail e e'
  | @ok graph graph' hcallers =>
      obtain ⟨methods, hmethods⟩ := hs graph rfl
      obtain ⟨methods', hmethods'⟩ := ht graph' rfl
      have hrun : (s.search call graph).run = (t.search call graph').run := by
        funext m
        simp only [search, h.outcome, h.seeds]
      -- The walks differ in their order, so they are compared by the methods that they run.
      change ((s.search call graph).result f).findings.Alike
        ((t.search call graph').result g).findings
      rw [CallerSearch.Search.findings_result, CallerSearch.Search.findings_result,
        ← List.foldl_reverse, ← List.foldl_reverse]
      apply hf.noteAll
      intro r
      simp only [List.mem_reverse, hrun,
        CallerSearch.Search.mem_ran_congr hmethods hmethods' hrun rfl hcallers (g := g)]

theorem fromOuter (h : s.Alike t) (hf : f.Alike g) :
  (s.fromOuter call f).Alike (t.fromOuter call g)
  := by
  have houter := h.outer
  rw [Session.fromOuter, Session.fromOuter, h.isInner]
  split
  · generalize s.outer.get = x at houter ⊢
    generalize t.outer.get = y at houter ⊢
    cases houter with
    | error e e' => exact hf.fail e e'
    | @ok ctx ctx' hctx =>
        have hseeds : s.seedsWith ctx call.method = t.seedsWith ctx' call.method := by
          funext object
          rw [seedsWith, seedsWith, hctx.statics, h.seeds, h.this?]
        apply hf.noteAll
        intro r
        rw [hseeds]
        simp only [h.outcome]
        exact hctx.exists_receiver (P := fun object =>
          t.outcome call call.method (t.seedsWith ctx' call.method object) = r)
  · apply hf

theorem escalate (h : s.Alike t) (hs : s.Unbounded call) (ht : t.Unbounded call)
    (hf : f.Alike g) :
  (s.escalate call f).Alike (t.escalate call g)
  := by
  have hcallers : (if t.config.callerBacktracking then s.fromCallers call f else f).Alike
      (if t.config.callerBacktracking then t.fromCallers call g else g) := by
    split
    · exact h.fromCallers hs ht hf
    · exact hf
  rw [Session.escalate, Session.escalate, h.config]
  generalize (if t.config.callerBacktracking then s.fromCallers call f else f) = x at hcallers ⊢
  generalize (if t.config.callerBacktracking then t.fromCallers call g else g) = y at hcallers ⊢
  -- Whether the outer class is asked depends on how much was found, not on what.
  rw [hf.length_found, hcallers.length_found]
  split
  · exact hcallers
  · exact h.fromOuter hcallers

end Alike

end Session

/-- The calls are resolved in the same way, up to the methods that findings are attributed to and
the failure that is reported. -/
inductive Verdict.Alike : Verdict → Verdict → Prop
  | literal : Alike .literal .literal
  | searched {f g : Findings} (h : f.Alike g) : Alike (.searched f) (.searched g)

theorem Session.Alike.resolve {s t : Session} (h : s.Alike t) {call : LoadCall}
    (hs : s.Unbounded call) (ht : t.Unbounded call) :
  (s.resolve call).Alike (t.resolve call)
  := by
  have hnone : Findings.Alike {} {} := ⟨fun _ => .rfl, List.nodup_nil, List.nodup_nil, .rfl⟩
  rw [Session.resolve, Session.resolve]
  split
  · exact .literal
  · apply Verdict.Alike.searched
    rw [h.outcome, h.seeds]
    split
    · exact hnone.note _ _
    · exact h.escalate hs ht (hnone.note _ _)

/-! ### Accounts of the same calls -/

section

variable {verdict verdict' : LoadCall → Verdict} {cls : ClassName} {calls calls' : List LoadCall}

theorem Verdict.Alike.tally {v v' : Verdict} (h : v.Alike v') :
  v.tally = v'.tally
  := by
  cases h with
  | literal => rfl
  | searched h => simp only [Verdict.tally, List.isEmpty_iff_length_eq_zero, h.length_found]

theorem Verdict.Alike.failure? {v v' : Verdict} (h : v.Alike v') :
  v.failure?.isSome = v'.failure?.isSome
  := by
  cases h with
  | literal => rfl
  | searched h => exact Bool.eq_iff_iff.2 h.failure

theorem Verdict.Alike.findings {v v' : Verdict} (h : v.Alike v') (call c : LoadCall) :
  c ∈ (v.findings call).map Finding.call ↔ c ∈ (v'.findings call).map Finding.call
  := by
  cases h with
  | literal => rfl
  | searched h => exact h.calls c

theorem solverFailures_account_eq (verdict : LoadCall → Verdict) (cls : ClassName)
    (calls : List LoadCall) :
  (account verdict cls calls).counters.solverFailures =
    .ofNat (calls.countP (fun c => (verdict c).failure?.isSome))
  := by
  induction calls using List.reverseRecOn with
  | nil => rfl
  | append_singleton calls call ih =>
      rw [account_concat, ClassAnalysis.solverFailures_add, ih, List.countP_append,
        UInt64.ofNat_add, List.countP_singleton]
      split <;> simp_all

theorem mem_map_call_account {c : LoadCall} :
  c ∈ (account verdict cls calls).findings.map Finding.call ↔
    ∃ k ∈ calls, c ∈ ((verdict k).findings k).map Finding.call
  := by
  constructor
  · intro hc
    obtain ⟨x, hx, rfl⟩ := List.mem_map.1 hc
    obtain ⟨k, hk, hx⟩ := mem_findings_account hx
    exact ⟨k, hk, List.mem_map_of_mem hx⟩
  · rintro ⟨k, hk, hc⟩
    obtain ⟨x, hx, rfl⟩ := List.mem_map.1 hc
    obtain ⟨r, hr, _, y, hy, hcall⟩ := holds_account hk hx
    rw [← hcall]
    exact List.mem_map_of_mem (List.mem_flatMap.2 ⟨r, hr, hy⟩)

/-- Accounts of the same calls in different orders, with verdicts that are alike. -/
theorem account_of_perm (h : calls.Perm calls')
    (hverdict : ∀ c ∈ calls, (verdict c).Alike (verdict' c)) :
  (account verdict cls calls).counters = (account verdict' cls calls').counters ∧
    ∀ c, c ∈ (account verdict cls calls).findings.map Finding.call ↔
      c ∈ (account verdict' cls calls').findings.map Finding.call
  := by
  constructor
  · apply Counters.ext_of
    · intro t
      rw [counters_account, counters_account, ← h.countP_eq]
      congr 1
      apply List.countP_congr
      intro c hc
      rw [(hverdict c hc).tally]
    · rw [solverFailures_account_eq, solverFailures_account_eq, ← h.countP_eq]
      congr 1
      apply List.countP_congr
      intro c hc
      rw [(hverdict c hc).failure?]
  · intro c
    rw [mem_map_call_account, mem_map_call_account]
    constructor
    · rintro ⟨k, hk, hc⟩
      exact ⟨k, h.mem_iff.1 hk, ((hverdict k hk).findings k c).1 hc⟩
    · rintro ⟨k, hk, hc⟩
      exact ⟨k, h.mem_iff.2 hk, ((hverdict k (h.mem_iff.2 hk)).findings k c).2 hc⟩

end

/-! ### Programs with classes in another order -/

theorem ClassDecl.mem_signatures_of_mem_loadCalls {d : ClassDecl} {t : LoadTarget}
    {call : LoadCall} (h : call ∈ d.loadCalls t) :
  call.method ∈ d.methods.map Method.signature
  := by
  obtain ⟨m, hm, hcall⟩ := List.mem_flatMap.1 h
  cases hbody : m.body with
  | none => simp [hbody] at hcall
  | some b =>
      rw [hbody] at hcall
      exact List.mem_map.2 ⟨m, hm, ((t.pairwise_callsIn m.signature b).1 call hcall).symm⟩

namespace ClassPool

variable {p q : ClassPool} {config : Config} {c : ClassName} {d e : ClassDecl}

theorem Reordered.outerContext (h : p.Reordered q) (hd : d.Reordered e) :
  Parallel OuterContext.Alike (OuterContext.ofClass p config d) (OuterContext.ofClass q config e)
  := by
  have hnone : OuterContext.Alike {} {} := ⟨rfl, fun _ => .rfl⟩
  unfold OuterContext.ofClass
  rw [hd.outer, hd.name]
  cases e.outer with
  | none => exact .ok hnone
  | some outer =>
      dsimp only
      rw [h.contains outer]
      split
      · apply (h.view [outer, e.name]).bind
        intro v w hv
        exact OuterContext.ofView_of_reordered hv outer e.name
      · exact .ok hnone

theorem Reordered.session (h : p.Reordered q) (hd : d.Reordered e) (hregular : d.IsRegular)
    (hregular' : e.IsRegular) :
  (Session.start p config d).Alike (Session.start q config e)
  := by
  have hview : (View.ofList [d]).Reordered (View.ofList [e]) :=
    View.reordered_ofList (.cons hd .nil)
  refine ⟨rfl, ?_, ?_, ?_, ?_, ?_, ?_⟩
  · simp only [Session.start, ClassDecl.isInner, hd.outer]
  · intro call m seeds
    symm
    apply config.map_run_of_reordered hview
    intro r _
    apply Run.outcome_withView
  · exact (config.initialStatics_of_reordered hview hd).symm
  · intro m
    simp only [Session.this?, Session.start, hd.method?]
  · exact CallGraph.build_of_reordered hview hregular.alone hregular'.alone
  · exact h.outerContext hd

end ClassPool

/-- The search for a call of a class meets methods of the class only. -/
theorem Session.unbounded_start {p : ClassPool} {config : Config} {d : ClassDecl}
    (hregular : d.IsRegular) (hdepth : d.methods.length < config.maxBacktrackDepth.toNat)
    (hvisited : d.methods.length < config.maxVisitedMethods.toNat) {call : LoadCall}
    (hcall : call ∈ d.loadCalls config.target) :
  (Session.start p config d).Unbounded call
  := by
  intro g hg
  have hmethods : (View.ofList [d]).methods = d.methods := by
    simp [View.methods, View.ofList, View.firstOfName]
  refine ⟨d.methods.map Method.signature, d.mem_signatures_of_mem_loadCalls hcall, ?_, ?_, ?_⟩
  · intro c m hm
    rw [← hmethods]
    exact View.mem_signatures_of_hasBody _ (CallGraph.hasBody_of_mem_callers hregular.alone hg hm)
  · rw [List.length_map]
    exact hvisited
  · rw [List.length_map]
    exact hdepth

/-- The order in which the methods of a class are declared decides neither what the calls are
resolved to nor how they are counted, if the bounds on the search among callers exceed the number
of methods. -/
theorem ClassPool.analyze_of_perm {p q : ClassPool} {config : Config} {c : ClassName}
    {d : ClassDecl} {methods : List Method} (hp : p.load c = .ok d) (hregular : d.IsRegular)
    (hperm : methods.Perm d.methods) (hq : q.load c = .ok { d with methods })
    (hrest : ∀ n, n ≠ c → q.load n = p.load n)
    (hdepth : d.methods.length < config.maxBacktrackDepth.toNat)
    (hvisited : d.methods.length < config.maxVisitedMethods.toNat) :
  ∃ a b, p.analyze config c = .ok a ∧ q.analyze config c = .ok b ∧ a.counters = b.counters ∧
    ∀ call, (∃ x ∈ a.findings, x.call = call) ↔ ∃ x ∈ b.findings, x.call = call
  := by
  have hd := hregular.reordered hperm
  have hregular' := hregular.of_perm hperm
  have hsessions : (Session.start p config d).Alike (Session.start q config { d with methods }) :=
    (reordered_of_load hp hq hd hrest).session hd hregular hregular'
  have hcalls : (d.loadCalls config.target).Perm
      (ClassDecl.loadCalls { d with methods } config.target) :=
    hperm.symm.flatMap_right _
  refine ⟨_, _, analyze_eq_ok hp, analyze_eq_ok hq, ?_⟩
  rw [analyze_eq_account hp (analyze_eq_ok hp), analyze_eq_account hq (analyze_eq_ok hq)]
  simp only [← List.mem_map]
  apply account_of_perm hcalls
  intro call hcall
  apply hsessions.resolve
  · exact Session.unbounded_start hregular hdepth hvisited hcall
  · apply Session.unbounded_start hregular' _ _ (hcalls.mem_iff.1 hcall)
    · simpa [hperm.length_eq] using hdepth
    · simpa [hperm.length_eq] using hvisited

namespace TwoCallers

/-! An inner class with two callers of the method that loads, declared in two orders. -/

def outer : ClassName := ⟨"A"⟩
def inner : ClassName := ⟨"A$B"⟩
def init : MethodSig := ⟨inner, "<init>", [], .void⟩
def install : MethodSig := ⟨inner, "install", [.cls], .void⟩
def first : MethodSig := ⟨inner, "first", [], .void⟩
def second : MethodSig := ⟨inner, "second", [], .void⟩
def make : MethodSig := ⟨outer, "make", [], .void⟩
def cls : Local := ⟨"c", .cls⟩
def object : Local := ⟨"b", .object inner⟩

def installs (m : MethodSig) (impl : String) : Method :=
  ⟨m, true, some ⟨[], [.invoke ⟨.static, install, none, [.const (.cls impl)]⟩, .retVoid]⟩⟩

def loads : Method :=
  ⟨install, true, some ⟨[cls], [
    .identity cls (.parameter 0),
    .invoke (loadOf cls),
    .retVoid]⟩⟩

def decl : ClassDecl :=
  ⟨inner, none, [], some outer, [loads, installs first "a.Impl", installs second "b.Impl"]⟩

def shuffled : List Method := [installs second "b.Impl", installs first "a.Impl", loads]

def outerDecl : ClassDecl := ⟨outer, none, [], none, [
  ⟨make, true, some ⟨[object], [.invoke ⟨.special, init, some object, []⟩, .retVoid]⟩⟩]⟩

def before : ClassPool := .ofClasses [decl, outerDecl]
def after : ClassPool := .ofClasses [outerDecl, { decl with methods := shuffled }]
def config : Config := Preset.balanced.config

theorem analyze_before_after :
  before.load inner = .ok decl ∧ shuffled ≠ decl.methods ∧
  after.load inner = .ok { decl with methods := shuffled } ∧
  ∃ a b, before.analyze config inner = .ok a ∧ after.analyze config inner = .ok b ∧
    a.counters = b.counters ∧
    ∀ call, (∃ x ∈ a.findings, x.call = call) ↔ ∃ x ∈ b.findings, x.call = call
  := by
  refine ⟨rfl, by decide, rfl, ?_⟩
  apply ClassPool.analyze_of_perm (rfl : before.load inner = .ok decl)
    ⟨by decide, by decide, by decide⟩ (by decide : shuffled.Perm decl.methods) rfl _
    (by decide) (by decide)
  intro n hn
  by_cases ho : outer = n
  · subst ho
    rfl
  · have hentries : before.entries = [(inner, .decl decl), (outer, .decl outerDecl)] := rfl
    have hentries' : after.entries =
        [(outer, .decl outerDecl), (inner, .decl { decl with methods := shuffled })] := rfl
    simp [ClassPool.load, ClassPool.source?, hentries, hentries', ho, Ne.symm hn]

end TwoCallers

end ServiceFlow
