import ServiceFlow.Proofs.Resolve.Independence

/-!
# Classes with one load call

The analysis of a class with one load call says what the search for the call found.  The search is
simple where nothing is known of static fields and there is no outer class: the run from the method
of the call settles it, or all that is found comes from the callers.
-/

namespace ServiceFlow

/-- The analysis of a class with one call: the call counts as resolved if something was found, and
has a diagnostic otherwise. -/
def ClassAnalysis.ofSearch (cls : ClassName) (call : LoadCall) (found : List Finding) :
    ClassAnalysis :=
  if found.isEmpty then
    { cls := cls, diagnostics := [.unresolved cls call], counters := { unresolved := 1 } }
  else
    { cls := cls, resolutions := [⟨call.method, found⟩], counters := { dataflow := 1 } }

/-- Findings for different calls are all kept. -/
theorem Finding.collect_of_nodup {found : List Finding} (h : (found.map Finding.call).Nodup) :
  collect found = found
  := by
  induction found using List.reverseRecOn with
  | nil => rfl
  | append_singleton found f ih =>
      rw [List.map_append] at h
      obtain ⟨hfound, _, hnew⟩ := List.nodup_append.1 h
      have hcalls : ∀ x ∈ found, x.call ≠ f.call := by
        intro x hx
        apply hnew _ (List.mem_map_of_mem hx) _ List.mem_cons_self
      change (found ++ [f]).foldl insert [] = _
      rw [List.foldl_append, ← collect, ih hfound]
      simpa [insert] using hcalls

theorem ClassAnalysis.add_search (cls : ClassName) (call : LoadCall) {f : Findings}
    (hfailure : f.failure = none) (hfound : (f.found.map Finding.call).Nodup) :
  ({ cls := cls } : ClassAnalysis).add call (.searched f) = ofSearch cls call f.found
  := by
  rw [add_searched, hfailure, ofSearch]
  cases hf : f.found with
  | nil => rfl
  | cons x found =>
      rw [hf] at hfound
      rw [addFailure, addFound, foldl_record, Resolution.insertAll_nil,
        Finding.collect_of_nodup hfound]
      rfl

namespace ClassPool

variable {pool : ClassPool} {config : Config} {c : ClassName} {d : ClassDecl} {call : LoadCall}

theorem analyze_of_single (hd : pool.load c = .ok d) (hcalls : d.loadCalls config.target = [call])
    {f : Findings} (hresolve : (Session.start pool config d).resolve call = .searched f)
    (hfailure : f.failure = none) (hfound : (f.found.map Finding.call).Nodup) :
  pool.analyze config c = .ok (.ofSearch c call f.found)
  := by
  have hok : pool.analyze config c = _ := analyze_eq_ok hd
  rw [hok, analyze_eq_account hd hok, hcalls, name_of_load hd, account, List.foldl_cons, hresolve,
    ClassAnalysis.add_search _ _ hfailure hfound]
  rfl

end ClassPool

namespace Session

/-- Without a static initializer nothing is known of static fields. -/
theorem seeds_start (pool : ClassPool) (config : Config) {d : ClassDecl}
    (h : d.staticInitializer? = none) :
  (start pool config d).seeds.get = .empty
  := by
  change config.initialStatics _ d = .empty
  rw [Config.initialStatics, h]

variable {s : Session} {call : LoadCall} {o : Outcome}

/-- A conclusive run from the method of a call settles it. -/
theorem resolve_of_settled (hliteral : call.isLiteral = false)
    (hown : s.outcome call call.method s.seeds.get = .ok o) (ho : o.isConclusive) :
  s.resolve call = .searched (Findings.add {} call.method o.resolved)
  := by
  rw [resolve, hliteral, hown]
  simp [isSettled, ho, Findings.note]

/-- If the run from the method of a call finds nothing and there is no outer class, the callers
decide. -/
theorem resolve_of_open (hliteral : call.isLiteral = false)
    (hown : s.outcome call call.method s.seeds.get = .ok o) (ho : o.isConclusive = false)
    (hnone : o.resolved = []) (hcallers : s.config.callerBacktracking = true)
    (houter : s.cls.isInner = false) :
  s.resolve call = .searched (s.fromCallers call {})
  := by
  have hnote : Findings.note {} call.method (.ok o) = {} := by
    simp [Findings.note, Findings.add, hnone]
  rw [resolve, hliteral, hown]
  simp [hnote, isSettled, ho, escalate, hcallers, fromOuter, houter]

end Session

end ServiceFlow
