import Mathlib.Data.List.Induction
import Mathlib.Data.List.Sigma
import ServiceFlow.Proofs.Resolve.Groups
import ServiceFlow.Proofs.Resolve.Memo

/-!
# The accounts of an analysis

An analysis takes in what became of the calls of a class one after another.  Its groups, its
diagnostics and its counters tell the same story about every call: a call with findings is in the
group of its method, and a call without has one diagnostic.  What is reported as resolved has all
values that a call requires, except for calls with a class literal, of which only the first argument
was looked at.
-/

namespace ServiceFlow

/-! ### Taking in one call -/

/-- The sorts of calls that the counters tell apart. -/
inductive Tally where
  | literal
  | dataflow
  | unresolved
deriving DecidableEq

namespace Verdict

/-- What is recorded for a call. -/
def findings (call : LoadCall) : Verdict → List Finding
  | .literal => [⟨call.method, call⟩]
  | .searched f => f.found

def tally : Verdict → Tally
  | .literal => .literal
  | .searched f => if f.found.isEmpty then .unresolved else .dataflow

def failure? : Verdict → Option ScopeError
  | .literal => none
  | .searched f => f.failure

/-- The diagnostics for a call: a failure stands in for the lack of findings. -/
def diagnostics (cls : ClassName) (call : LoadCall) (v : Verdict) : List Diagnostic :=
  match v.failure? with
  | some e => [.solverUnavailable cls call e.message]
  | none => if v.tally = .unresolved then [.unresolved cls call] else []

end Verdict

/-- How many calls there are of a sort. -/
def Counters.of (c : Counters) : Tally → UInt64
  | .literal => c.literal
  | .dataflow => c.dataflow
  | .unresolved => c.unresolved

namespace ClassAnalysis

variable (a : ClassAnalysis) (call : LoadCall) (v : Verdict)

theorem foldl_record (m : MethodSig) (found : List Finding) (a : ClassAnalysis) :
  found.foldl (fun a f => a.record m f) a =
    { a with resolutions := Resolution.insertAll m found a.resolutions }
  := by
  induction found generalizing a with
  | nil => rfl
  | cons f found ih => apply ih

theorem add_searched (f : Findings) :
  a.add call (.searched f) =
    if f.found.isEmpty then (a.addFailure call f.failure).addUnresolved call
    else (a.addFailure call f.failure).addFound call f.found
  := rfl

theorem cls_add :
  (a.add call v).cls = a.cls
  := by
  cases v with
  | literal => rfl
  | searched f =>
      rw [add_searched]
      cases f.failure <;> split <;> simp [addFailure, addUnresolved, addFound, foldl_record]

theorem resolutions_add :
  (a.add call v).resolutions = Resolution.insertAll call.method (v.findings call) a.resolutions
  := by
  cases v with
  | literal => rfl
  | searched f =>
      rw [add_searched]
      cases f.failure <;> split <;>
        simp_all [addFailure, addUnresolved, addFound, foldl_record, Verdict.findings,
          Resolution.insertAll]

theorem counters_add (t : Tally) :
  (a.add call v).counters.of t = a.counters.of t + if v.tally = t then 1 else 0
  := by
  cases v with
  | literal => cases t <;> simp [add, record, Counters.of, Verdict.tally]
  | searched f =>
      rw [add_searched]
      cases f.failure <;> split <;> cases t <;>
        simp_all [addFailure, addUnresolved, addFound, foldl_record, Counters.of, Verdict.tally]

theorem solverFailures_add :
  (a.add call v).counters.solverFailures =
    a.counters.solverFailures + if v.failure?.isSome then 1 else 0
  := by
  cases v with
  | literal => simp [add, record, Verdict.failure?]
  | searched f =>
      rw [add_searched]
      cases hf : f.failure <;> split <;>
        simp [addFailure, addUnresolved, addFound, foldl_record, Verdict.failure?, hf]

variable {a call}

theorem diagnostics_add (hnew : ∀ x ∈ a.diagnostics, x.call ≠ call) :
  (a.add call v).diagnostics = a.diagnostics ++ v.diagnostics a.cls call
  := by
  cases v with
  | literal => simp [add, record, Verdict.diagnostics, Verdict.failure?, Verdict.tally]
  | searched f =>
      rw [add_searched]
      have hany : a.diagnostics.any (fun d => d.call = call) = false := by simpa using hnew
      cases hf : f.failure <;> split <;>
        simp_all [addFailure, addUnresolved, addFound, foldl_record, Verdict.diagnostics,
          Verdict.failure?, Verdict.tally, Diagnostic.call]

end ClassAnalysis

/-! ### Taking in all calls -/

/-- The analysis of calls with given verdicts. -/
def account (verdict : LoadCall → Verdict) (cls : ClassName) (calls : List LoadCall) :
    ClassAnalysis :=
  calls.foldl (fun a call => a.add call (verdict call)) { cls := cls }

section

open Resolution

variable {verdict : LoadCall → Verdict} {cls : ClassName} {calls : List LoadCall}

theorem account_concat (verdict : LoadCall → Verdict) (cls : ClassName) (calls : List LoadCall)
    (call : LoadCall) :
  account verdict cls (calls ++ [call]) = (account verdict cls calls).add call (verdict call)
  := by
  simp [account]

theorem cls_account (verdict : LoadCall → Verdict) (cls : ClassName) (calls : List LoadCall) :
  (account verdict cls calls).cls = cls
  := by
  induction calls using List.reverseRecOn with
  | nil => rfl
  | append_singleton calls call ih => rw [account_concat, ClassAnalysis.cls_add, ih]

theorem counters_account (verdict : LoadCall → Verdict) (cls : ClassName) (calls : List LoadCall)
    (t : Tally) :
  (account verdict cls calls).counters.of t =
    .ofNat (calls.countP (fun c => (verdict c).tally = t))
  := by
  induction calls using List.reverseRecOn with
  | nil => cases t <;> rfl
  | append_singleton calls call ih =>
      rw [account_concat, ClassAnalysis.counters_add, ih, List.countP_append, UInt64.ofNat_add,
        List.countP_singleton]
      split <;> simp_all

theorem mem_findings_account {x : Finding} (h : x ∈ (account verdict cls calls).findings) :
  ∃ c ∈ calls, x ∈ (verdict c).findings c
  := by
  induction calls using List.reverseRecOn with
  | nil => cases h
  | append_singleton calls call ih =>
      rw [account_concat, ClassAnalysis.findings, ClassAnalysis.resolutions_add] at h
      rcases mem_findings_insertAll h with h | h
      · obtain ⟨c, hc, hx⟩ := ih h
        use c, List.mem_append_left _ hc
      · use call, List.mem_append_right _ List.mem_cons_self

theorem holds_account {c : LoadCall} (hc : c ∈ calls) {x : Finding}
    (hx : x ∈ (verdict c).findings c) :
  Holds (account verdict cls calls).resolutions c.method x.call
  := by
  induction calls using List.reverseRecOn with
  | nil => cases hc
  | append_singleton calls call ih =>
      rw [account_concat, ClassAnalysis.resolutions_add]
      rcases List.mem_append.1 hc with hc | hc
      · apply (ih hc).insertAll
      · obtain rfl := List.mem_singleton.1 hc
        apply holds_insertAll hx

theorem grouped_account (hsites : ∀ c ∈ calls, ∀ x ∈ (verdict c).findings c, x.call.site = c.site) :
  Grouped (account verdict cls calls).resolutions
  := by
  induction calls using List.reverseRecOn with
  | nil => constructor <;> simp [account]
  | append_singleton calls call ih =>
      rw [account_concat, ClassAnalysis.resolutions_add]
      apply (ih (fun c hc => hsites c (List.mem_append_left _ hc))).insertAll
      intro f hf
      rw [LoadCall.method, hsites call (List.mem_append_right _ List.mem_cons_self) f hf]
      rfl

theorem call_of_mem_diagnostics {c : LoadCall} {v : Verdict} {x : Diagnostic}
    (h : x ∈ v.diagnostics cls c) :
  x.call = c
  := by
  unfold Verdict.diagnostics at h
  split at h
  · rw [List.mem_singleton.1 h]
    rfl
  · split at h
    · rw [List.mem_singleton.1 h]
      rfl
    · cases h

theorem diagnostics_account (h : calls.Nodup) :
  (account verdict cls calls).diagnostics = calls.flatMap (fun c => (verdict c).diagnostics cls c)
  := by
  induction calls using List.reverseRecOn with
  | nil => rfl
  | append_singleton calls call ih =>
      obtain ⟨hcalls, _, hnew⟩ := List.nodup_append.1 h
      have ih := ih hcalls
      rw [account_concat, ClassAnalysis.diagnostics_add, cls_account, ih, List.flatMap_append,
        List.flatMap_singleton]
      rw [ih]
      intro x hx
      obtain ⟨c, hc, hx⟩ := List.mem_flatMap.1 hx
      rw [call_of_mem_diagnostics hx]
      apply hnew c hc call List.mem_cons_self

/-- The diagnostics of a call are those of its verdict. -/
theorem filter_diagnostics_account (h : calls.Nodup) {c : LoadCall} (hc : c ∈ calls) :
  (account verdict cls calls).diagnostics.filter (fun x => x.call = c) =
    (verdict c).diagnostics cls c
  := by
  rw [diagnostics_account h, List.filter_flatMap]
  have hother : ∀ c', c' ≠ c →
      ((verdict c').diagnostics cls c').filter (fun x => x.call = c) = [] := by
    intro c' hne
    apply List.filter_eq_nil_iff.2
    intro x hx
    simpa [call_of_mem_diagnostics hx] using hne
  induction calls with
  | nil => cases hc
  | cons c' calls ih =>
      obtain ⟨hnew, hcalls⟩ := List.nodup_cons.1 h
      rw [List.flatMap_cons]
      rcases List.mem_cons.1 hc with rfl | hc
      · have hself : ((verdict c).diagnostics cls c).filter (fun x => x.call = c) =
            (verdict c).diagnostics cls c := by
          apply List.filter_eq_self.2
          intro x hx
          simpa using call_of_mem_diagnostics hx
        have hrest : calls.flatMap (fun c' =>
            ((verdict c').diagnostics cls c').filter (fun x => x.call = c)) = [] := by
          apply List.flatMap_eq_nil_iff.2
          intro c' hc'
          apply hother
          rintro rfl
          apply hnew hc'
        rw [hself, hrest, List.append_nil]
      · have hne : c' ≠ c := by
          rintro rfl
          apply hnew hc
        rw [hother c' hne, List.nil_append, ih hcalls hc]

theorem countP_diagnostics (c : LoadCall) (v : Verdict) :
  (v.diagnostics cls c).countP (fun x => x.reason?.isSome) = if v.failure?.isSome then 1 else 0
  := by
  unfold Verdict.diagnostics
  split
  · next hfailure =>
    rw [hfailure]
    rfl
  · next hfailure =>
    rw [hfailure]
    split <;> rfl

theorem solverFailures_account (h : calls.Nodup) :
  (account verdict cls calls).counters.solverFailures =
    .ofNat ((account verdict cls calls).diagnostics.countP (fun x => x.reason?.isSome))
  := by
  rw [diagnostics_account h]
  induction calls using List.reverseRecOn with
  | nil => rfl
  | append_singleton calls call ih =>
      rw [account_concat, ClassAnalysis.solverFailures_add, ih (List.nodup_append.1 h).1,
        List.flatMap_append, List.countP_append, List.flatMap_singleton, countP_diagnostics,
        UInt64.ofNat_add]
      split <;> rfl

/-- The counters add up to the number of calls. -/
theorem countP_tally (verdict : LoadCall → Verdict) (calls : List LoadCall) :
  calls.countP (fun c => (verdict c).tally = .literal) +
    calls.countP (fun c => (verdict c).tally = .dataflow) +
    calls.countP (fun c => (verdict c).tally = .unresolved) = calls.length
  := by
  induction calls with
  | nil => rfl
  | cons c calls ih =>
      simp only [List.countP_cons, List.length_cons]
      cases (verdict c).tally <;> simp <;> omega

end

/-! ### The calls of a class -/

namespace LoadTarget

/-- The load call at a statement of a method. -/
def callAt? (t : LoadTarget) (m : MethodSig) (s : Stmt × Nat) : Option LoadCall :=
  (s.1.invoke?.filter t.accepts).map (LoadCall.ofInvoke ⟨m, s.2⟩)

theorem callsIn_eq_filterMap (t : LoadTarget) (m : MethodSig) (b : Body) :
  t.callsIn m b = b.stmts.zipIdx.filterMap (t.callAt? m)
  := by
  unfold callsIn
  congr
  funext s
  unfold callAt?
  cases s.1.invoke? with
  | none => rfl
  | some i =>
      dsimp only
      rw [Option.filter_some]
      split <;> rfl

theorem site_of_callAt? {t : LoadTarget} {m : MethodSig} {s : Stmt × Nat} {c : LoadCall}
    (h : t.callAt? m s = some c) :
  c.site = ⟨m, s.2⟩
  := by
  obtain ⟨i, _, rfl⟩ := Option.map_eq_some_iff.1 h
  rfl

/-- The calls of a body stand at different offsets of its method. -/
theorem pairwise_callsIn (t : LoadTarget) (m : MethodSig) (b : Body) :
  (∀ c ∈ t.callsIn m b, c.site.method = m) ∧
    (t.callsIn m b).Pairwise (fun c c' => c.site ≠ c'.site)
  := by
  rw [callsIn_eq_filterMap]
  constructor
  · intro c hc
    obtain ⟨s, _, h⟩ := List.mem_filterMap.1 hc
    rw [site_of_callAt? h]
  · apply List.pairwise_filterMap.2
    apply (List.pairwise_map.1 (List.nodup_zipIdx_map_snd b.stmts)).imp
    intro s s' hne c hc c' hc'
    rw [site_of_callAt? hc, site_of_callAt? hc']
    simpa using hne

end LoadTarget

/-- Where the signatures of the methods differ, so do the sites of the calls. -/
theorem ClassDecl.nodup_map_site_loadCalls {d : ClassDecl}
    (h : (d.methods.map Method.signature).Nodup) (t : LoadTarget) :
  ((d.loadCalls t).map LoadCall.site).Nodup
  := by
  have hmethod : ∀ m : Method, ∀ c ∈ m.body.elim [] (t.callsIn m.signature),
      c.site.method = m.signature := by
    intro m c hc
    cases hbody : m.body with
    | none => simp [hbody] at hc
    | some b =>
        rw [hbody] at hc
        apply (t.pairwise_callsIn m.signature b).1 c hc
  apply List.pairwise_map.2
  apply List.pairwise_flatMap.2
  constructor
  · intro m _
    cases m.body with
    | none => apply List.Pairwise.nil
    | some b => apply (t.pairwise_callsIn m.signature b).2
  · apply (List.pairwise_map.1 h).imp
    intro m m' hne c hc c' hc' hsite
    apply hne
    rw [← hmethod m c hc, ← hmethod m' c' hc', hsite]

theorem Session.resolve_eq_literal_iff {s : Session} {call : LoadCall} :
  s.resolve call = .literal ↔ call.isLiteral
  := by
  unfold resolve
  split <;> simp_all

theorem Session.site_of_mem_findings {s : Session} {call : LoadCall} {x : Finding}
    (h : x ∈ (s.resolve call).findings call) :
  x.call.site = call.site
  := by
  cases hresolve : s.resolve call with
  | literal =>
      rw [hresolve] at h
      rw [List.mem_singleton.1 h]
  | searched f =>
      rw [hresolve] at h
      obtain ⟨_, _, _, fact, _, _, _, hx, _⟩ := supports_resolve hresolve x h
      rw [hx, LoadCall.site_withValues]

/-- Every call of a class gets the verdict of the session. -/
theorem Resolver.analyzeCalls_eq_account {r : Resolver}
    (hr : r.pool.load r.cls.name = .ok r.cls) (calls : List LoadCall) :
  r.analyzeCalls calls = account r.session.resolve r.cls.name calls
  := r.analyzeCalls_eq_foldl hr calls

theorem ClassPool.analyze_eq_account {pool : ClassPool} {config : Config} {c : ClassName}
    {d : ClassDecl} {a : ClassAnalysis} (hd : pool.load c = .ok d)
    (ha : pool.analyze config c = .ok a) :
  a = account (Session.start pool config d).resolve d.name (d.loadCalls config.target)
  := by
  rw [analyze, hd] at ha
  rw [← Except.ok.inj ha]
  apply Resolver.analyzeCalls_eq_account
  rw [name_of_load hd]
  apply hd

/-! ### Every call is accounted for -/

/-- The counters, the diagnostics and the groups agree about what became of the calls. -/
structure Accounted (verdict : LoadCall → Verdict) (calls : List LoadCall) (a : ClassAnalysis) :
    Prop where
  counted : ∀ t, a.counters.of t = .ofNat (calls.countP (fun c => (verdict c).tally = t))
  total : a.counters.literal + a.counters.dataflow + a.counters.unresolved = .ofNat calls.length
  total_toNat : calls.length < UInt64.size →
    a.counters.literal.toNat + a.counters.dataflow.toNat + a.counters.unresolved.toNat =
      calls.length
  failures : a.counters.solverFailures = .ofNat (a.diagnostics.countP (fun x => x.reason?.isSome))
  /-- A call without findings has one diagnostic and no entry. -/
  unresolved : ∀ c ∈ calls, (verdict c).tally = .unresolved →
    a.diagnostics.countP (fun x => x.call = c) = 1 ∧ ∀ x ∈ a.findings, x.call.site ≠ c.site
  /-- Any other call has an entry in the group of its method, and is not reported as unresolved. -/
  resolved : ∀ c ∈ calls, (verdict c).tally ≠ .unresolved →
    (∃ r ∈ a.resolutions, r.method = c.method ∧ ∃ x ∈ r.findings, x.call.site = c.site) ∧
      ∀ cls, .unresolved cls c ∉ a.diagnostics
  grouped : Resolution.Grouped a.resolutions

section

variable {verdict : LoadCall → Verdict} {calls : List LoadCall}

theorem Verdict.findings_eq_nil_iff {v : Verdict} {call : LoadCall} :
  v.findings call = [] ↔ v.tally = .unresolved
  := by
  cases v with
  | literal => simp [findings, tally]
  | searched f => cases f.found <;> simp_all [findings, tally]

theorem Verdict.length_diagnostics {v : Verdict} (cls : ClassName) (call : LoadCall)
    (h : v.tally = .unresolved) :
  (v.diagnostics cls call).length = 1
  := by
  unfold diagnostics
  split
  · rfl
  · rw [if_pos h]
    rfl

theorem Verdict.unresolved_not_mem_diagnostics {v : Verdict} (cls cls' : ClassName)
    (call : LoadCall) (h : v.tally ≠ .unresolved) :
  .unresolved cls' call ∉ v.diagnostics cls call
  := by
  unfold diagnostics
  split
  · simp
  · simp [h]

theorem total_account (verdict : LoadCall → Verdict) (cls : ClassName) (calls : List LoadCall) :
  let n := (account verdict cls calls).counters
  n.literal + n.dataflow + n.unresolved = .ofNat calls.length ∧
    (calls.length < UInt64.size →
      n.literal.toNat + n.dataflow.toNat + n.unresolved.toNat = calls.length)
  := by
  have hliteral := counters_account verdict cls calls .literal
  have hdataflow := counters_account verdict cls calls .dataflow
  have hunresolved := counters_account verdict cls calls .unresolved
  have htotal := countP_tally verdict calls
  simp only [Counters.of] at hliteral hdataflow hunresolved
  dsimp only
  rw [hliteral, hdataflow, hunresolved, ← UInt64.ofNat_add, ← UInt64.ofNat_add, htotal]
  use rfl
  intro hfits
  rw [UInt64.toNat_ofNat_of_lt' (by omega), UInt64.toNat_ofNat_of_lt' (by omega),
    UInt64.toNat_ofNat_of_lt' (by omega), htotal]

theorem accounted_account {cls : ClassName} (hdistinct : (calls.map LoadCall.site).Nodup)
    (hsites : ∀ c ∈ calls, ∀ x ∈ (verdict c).findings c, x.call.site = c.site) :
  Accounted verdict calls (account verdict cls calls)
  := by
  have hnodup : calls.Nodup := hdistinct.of_map
  obtain ⟨htotal, hfits⟩ := total_account verdict cls calls
  refine ⟨counters_account verdict cls calls, htotal, hfits, solverFailures_account hnodup, ?_, ?_,
    grouped_account hsites⟩
  · intro c hc htally
    constructor
    · rw [List.countP_eq_length_filter, filter_diagnostics_account hnodup hc]
      apply Verdict.length_diagnostics _ _ htally
    · intro x hx hsite
      obtain ⟨c', hc', hx'⟩ := mem_findings_account hx
      rw [hsites c' hc' x hx'] at hsite
      obtain rfl := List.inj_on_of_nodup_map hdistinct hc' hc hsite
      rw [Verdict.findings_eq_nil_iff.2 htally] at hx'
      cases hx'
  · intro c hc htally
    constructor
    · obtain ⟨x, hx⟩ := List.exists_mem_of_ne_nil _
        (fun hnil => htally (Verdict.findings_eq_nil_iff.1 hnil))
      have hholds : Resolution.Holds (account verdict cls calls).resolutions c.method x.call :=
        holds_account hc hx
      obtain ⟨r, hr, hmethod, y, hy, hcall⟩ := hholds
      use r, hr, hmethod, y, hy
      rw [hcall, hsites c hc x hx]
    · intro cls' hmem
      apply Verdict.unresolved_not_mem_diagnostics cls cls' c htally
      rw [← filter_diagnostics_account hnodup hc]
      apply List.mem_filter.2 ⟨hmem, _⟩
      simp [Diagnostic.call]

end

/-- Every call of a class with different signatures is accounted for exactly once. -/
theorem ClassPool.analyze_accounted {pool : ClassPool} {config : Config} {c : ClassName}
    {d : ClassDecl} {a : ClassAnalysis} (hd : pool.load c = .ok d)
    (hdistinct : (d.methods.map Method.signature).Nodup) (ha : pool.analyze config c = .ok a) :
  Accounted (Session.start pool config d).resolve (d.loadCalls config.target) a
  := by
  rw [analyze_eq_account hd ha]
  apply accounted_account (ClassDecl.nodup_map_site_loadCalls hdistinct _)
  intro call _ x hx
  apply Session.site_of_mem_findings hx

/-! ### Partial resolutions -/

theorem Ty.isObject_eq (t : Ty) (c : ClassName) :
  t.isObject c = decide (t = .object c)
  := by
  cases t <;> simp [isObject, className?]

/-- A call is not resolved if the value for a class or a string is unknown. -/
theorem LoadCall.isResolved_eq_false_iff {c : LoadCall} :
  c.isResolved = false ↔
    ∃ a ∈ c.args, (a.type = .cls ∨ a.type = .string) ∧ a.value = .unknown
  := by
  simp [isResolved, LoadArg.isRequired, Ty.isObject_eq, Value.isKnown, Ty.cls, Ty.string,
    ← or_iff_not_imp_left]

/-- A call with a class literal is recorded as it stands. -/
theorem ClassPool.exists_finding_of_isLiteral {pool : ClassPool} {config : Config} {c : ClassName}
    {d : ClassDecl} {a : ClassAnalysis} (hd : pool.load c = .ok d)
    (ha : pool.analyze config c = .ok a) {call : LoadCall}
    (hcall : call ∈ d.loadCalls config.target) (hliteral : call.isLiteral) :
  ∃ x ∈ a.findings, x.call = call
  := by
  rw [analyze_eq_account hd ha]
  have hfinding :
      ⟨call.method, call⟩ ∈ ((Session.start pool config d).resolve call).findings call := by
    rw [Session.resolve_eq_literal_iff.2 hliteral]
    apply List.mem_singleton_self
  obtain ⟨r, hr, _, x, hx, hxcall⟩ := holds_account hcall hfinding
  use x, List.mem_flatMap.2 ⟨r, hr, hx⟩

/-- The entries that do not resolve their call are those of the calls with a class literal and an
unknown value for another class or string. -/
theorem ClassPool.exists_unresolved_finding_iff {pool : ClassPool} {config : Config} {c : ClassName}
    {d : ClassDecl} {a : ClassAnalysis} (hd : pool.load c = .ok d)
    (ha : pool.analyze config c = .ok a) (call : LoadCall) :
  (∃ x ∈ a.findings, x.call = call ∧ call.isResolved = false) ↔
    call ∈ d.loadCalls config.target ∧ call.isLiteral ∧
      ∃ arg ∈ call.args, (arg.type = .cls ∨ arg.type = .string) ∧ arg.value = .unknown
  := by
  rw [← LoadCall.isResolved_eq_false_iff]
  constructor
  · rintro ⟨x, hx, rfl, hunresolved⟩
    rw [analyze_eq_account hd ha] at hx
    obtain ⟨call, hcall, hx⟩ := mem_findings_account hx
    cases hresolve : (Session.start pool config d).resolve call with
    | literal =>
        rw [hresolve] at hx
        rw [List.mem_singleton.1 hx] at hunresolved ⊢
        use hcall, Session.resolve_eq_literal_iff.1 hresolve
    | searched f =>
        rw [hresolve] at hx
        obtain ⟨_, _, _, _, _, _, _, _, hresolved⟩ := Session.supports_resolve hresolve x hx
        rw [hunresolved] at hresolved
        cases hresolved
  · rintro ⟨hcall, hliteral, hunresolved⟩
    obtain ⟨x, hx, hcall⟩ := exists_finding_of_isLiteral hd ha hcall hliteral
    use x, hx

/-! ### A class with calls of all sorts -/

namespace Mixed

/-! The first call has a class literal and an unknown name, the second one a class that is known in
its method, and the method of the third one calls a method that cannot be found. -/

def owner : ClassName := ⟨"A"⟩
def main : MethodSig := ⟨owner, "main", [], .void⟩
def pick : MethodSig := ⟨owner, "pick", [], .void⟩
def ask : MethodSig := ⟨owner, "ask", [], .void⟩
def cls : Local := ⟨"c", .cls⟩
def name : Local := ⟨"s", .string⟩

def load (params : List Ty) (args : List Operand) : Invoke :=
  ⟨.static, ⟨.serviceLoader, "load", params, .object .serviceLoader⟩, none, args⟩

def named : Invoke := load [.cls, .string] [.const (.cls "a.Impl"), .var name]
def plain : Invoke := load [.cls] [.var cls]

def decl : ClassDecl := ⟨owner, some ⟨"b.Base"⟩, [], none, [
  ⟨main, true, some ⟨[name], [.invoke named, .retVoid]⟩⟩,
  ⟨pick, true, some ⟨[cls], [
    .assign (.var cls) (.operand (.const (.cls "a.Impl"))),
    .invoke plain,
    .retVoid]⟩⟩,
  ⟨ask, true, some ⟨[cls], [
    .assign (.var cls) (.invoke ⟨.static, ⟨owner, "missing", [], .cls⟩, none, []⟩),
    .invoke plain,
    .retVoid]⟩⟩]⟩

def pool : ClassPool := .ofClasses [decl]
def config : Config := { Preset.balanced.config with solver := ⟨20, 2⟩ }
def session : Session := .start pool config decl

def namedCall : LoadCall := .ofInvoke ⟨main, 0⟩ named
def pickCall : LoadCall := .ofInvoke ⟨pick, 1⟩ plain
def askCall : LoadCall := .ofInvoke ⟨ask, 1⟩ plain

theorem load_owner :
  pool.load owner = .ok decl
  := rfl

theorem loadCalls_decl :
  decl.loadCalls config.target = [namedCall, pickCall, askCall]
  := rfl

def graph : Supergraph := ⟨.ofList [decl], [pick], [⟨⟨pick, 1⟩, []⟩]⟩

/-- The run from the method of the second call. -/
def run : Run :=
  ⟨graph, Tabulation.solve (Propagation.flowGraph graph) (Propagation.problem graph pick .empty)
    config.solver.limits⟩

def known : Store := Store.empty.setVar pick cls (.cls "a.Impl")

theorem factsAt_run :
  run.factsAt ⟨pick, 1⟩ = [known]
  := by
  simp only [run, Run.factsAt, Tabulation.factsAt_solve]
  decide +kernel

theorem tally_pick :
  (session.resolve pickCall).tally = .dataflow
  := by
  have houtcome : session.outcome pickCall pick .empty =
      .ok ⟨[pickCall.withValues known], 1, 0⟩ := by
    change Except.ok (run.outcome pickCall) = _
    rw [Run.outcome, show pickCall.site = ⟨pick, 1⟩ from rfl, factsAt_run]
    rfl
  have hresolve : session.resolve pickCall =
      .searched (if Session.isSettled (session.outcome pickCall pick .empty)
        then Findings.note {} pick (session.outcome pickCall pick .empty)
        else session.escalate pickCall
          (Findings.note {} pick (session.outcome pickCall pick .empty))) := rfl
  rw [hresolve, houtcome]
  rfl

/-- The three calls are of three sorts, and are accounted for. -/
theorem accounted :
  pool.load owner = .ok decl ∧ (decl.methods.map Method.signature).Nodup ∧
  pool.analyze config owner = .ok (decl.analyze pool config) ∧
  decl.loadCalls config.target = [namedCall, pickCall, askCall] ∧
  (session.resolve namedCall).tally = .literal ∧ (session.resolve pickCall).tally = .dataflow ∧
  (session.resolve askCall).tally = .unresolved ∧ (session.resolve askCall).failure?.isSome ∧
  Accounted session.resolve (decl.loadCalls config.target) (decl.analyze pool config)
  := by
  have hdistinct : (decl.methods.map Method.signature).Nodup := by decide
  have hanalyze : pool.analyze config owner = .ok (decl.analyze pool config) := rfl
  refine ⟨load_owner, hdistinct, hanalyze, loadCalls_decl, rfl, tally_pick, rfl, rfl, ?_⟩
  apply ClassPool.analyze_accounted load_owner hdistinct hanalyze

/-- The first call is recorded with an unknown name. -/
theorem unresolved_finding :
  ∃ a, pool.analyze config owner = .ok a ∧ ∃ x ∈ a.findings, x.call.isResolved = false
  := by
  have hanalyze : pool.analyze config owner = .ok (decl.analyze pool config) := rfl
  have hnamed : namedCall ∈ decl.loadCalls config.target := List.mem_cons_self
  obtain ⟨x, hx, hcall⟩ := ClassPool.exists_finding_of_isLiteral load_owner hanalyze hnamed rfl
  use decl.analyze pool config, hanalyze, x, hx
  rw [hcall]
  rfl

/-- The unknown name is why the entry of the first call does not resolve it. -/
theorem unresolved_finding_of_unknown_name :
  pool.load owner = .ok decl ∧ pool.analyze config owner = .ok (decl.analyze pool config) ∧
  ∃ x ∈ (decl.analyze pool config).findings, x.call = namedCall ∧ namedCall.isResolved = false
  := by
  have hanalyze : pool.analyze config owner = .ok (decl.analyze pool config) := rfl
  use load_owner, hanalyze
  apply (ClassPool.exists_unresolved_finding_iff load_owner hanalyze namedCall).2
  use List.mem_cons_self, rfl, ⟨.var name, .string, .unknown⟩
  decide

end Mixed

end ServiceFlow
