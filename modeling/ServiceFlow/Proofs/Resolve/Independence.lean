import ServiceFlow.Proofs.Resolve.Analysis

/-!
# What an analysis depends on

The analysis of a class looks at two classes of the program, the class and its outer class.  It is
put together from the analyses of the single calls: no call changes what becomes of another.
-/

namespace ServiceFlow

/-! ### The rest of the program -/

section

variable {p q : ClassPool} {config : Config} {c : ClassName} {d : ClassDecl}

theorem OuterContext.ofClass_congr (hd : p.load d.name = q.load d.name)
    (houter : ∀ o, d.outer = some o → p.contains o = q.contains o ∧ p.load o = q.load o) :
  ofClass p config d = ofClass q config d
  := by
  unfold ofClass
  cases ho : d.outer with
  | none => rfl
  | some o =>
      obtain ⟨hcontains, hload⟩ := houter o ho
      have hview : p.view [o, d.name] = q.view [o, d.name] := by
        apply ClassPool.view_congr
        simp [hload, hd]
      simp only [hcontains, hview]

/-- The analysis of a loaded class. -/
theorem ClassPool.analyze_eq_ok (hd : p.load c = .ok d) :
  p.analyze config c = .ok (Resolver.analyzeCalls ⟨p, config, d⟩ (d.loadCalls config.target))
  := by
  rw [analyze, hd]
  rfl

end

/-- Two programs that have the same class under a name, and the same outer class of it, give the
same analysis of the class. -/
theorem ClassPool.analyze_congr {p q : ClassPool} (config : Config) {c : ClassName}
    (hc : p.load c = q.load c)
    (houter : ∀ d o, p.load c = .ok d → d.outer = some o →
      p.contains o = q.contains o ∧ p.load o = q.load o) :
  p.analyze config c = q.analyze config c
  := by
  cases hp : p.load c with
  | error e => rw [analyze, analyze, ← hc, hp]
  | ok d =>
      have hq : q.load c = .ok d := by rw [← hc, hp]
      have hname := name_of_load hp
      have hsession : Session.start p config d = Session.start q config d := by
        rw [Session.start, Session.start, OuterContext.ofClass_congr]
        · rw [hname, hc]
        · intro o ho
          apply houter d o hp ho
      rw [analyze_eq_ok hp, analyze_eq_ok hq, Resolver.analyzeCalls_eq_account,
        Resolver.analyzeCalls_eq_account]
      · rw [Resolver.session, hsession]
        rfl
      · change q.load d.name = .ok d
        rw [hname, hq]
      · change p.load d.name = .ok d
        rw [hname, hp]

namespace Nested

/-! An inner class in two programs. -/

def outer : ClassName := ⟨"A"⟩
def inner : ClassName := ⟨"A$B"⟩
def init : MethodSig := ⟨inner, "<init>", [], .void⟩
def run : MethodSig := ⟨inner, "run", [.cls], .void⟩
def make : MethodSig := ⟨outer, "make", [], .void⟩
def cls : Local := ⟨"c", .cls⟩
def object : Local := ⟨"b", .object inner⟩

def innerDecl : ClassDecl := ⟨inner, none, [], some outer, [
  ⟨run, true, some ⟨[cls], [
    .identity cls (.parameter 0),
    .invoke (loadOf cls),
    .retVoid]⟩⟩]⟩

def outerDecl : ClassDecl := ⟨outer, none, [], none, [
  ⟨make, true, some ⟨[object], [.invoke ⟨.special, init, some object, []⟩, .retVoid]⟩⟩]⟩

def small : ClassPool := .ofClasses [innerDecl, outerDecl]

/-- The same classes after others, one of which cannot be read. -/
def large : ClassPool :=
  ((ClassPool.empty.insertText ⟨"C"⟩ "\x7b").insertClass ⟨⟨"D"⟩, some outer, [], some inner, []⟩)
    |>.insertClass outerDecl |>.insertClass innerDecl

/-- The other classes do not change the analysis of the inner one. -/
theorem analyze_small_eq_large :
  small.load inner = .ok innerDecl ∧ small.load inner = large.load inner ∧
  small.contains outer = large.contains outer ∧ small.load outer = large.load outer ∧
  small.names ≠ large.names ∧
  small.analyze Preset.balanced.config inner = large.analyze Preset.balanced.config inner
  := by
  refine ⟨rfl, rfl, rfl, rfl, by decide, ?_⟩
  apply ClassPool.analyze_congr _ rfl
  intro d o hd ho
  obtain rfl : innerDecl = d := Except.ok.inj hd
  obtain rfl : outer = o := Option.some.inj ho
  exact ⟨rfl, rfl⟩

end Nested

/-! ### The counters -/

theorem Counters.ext_of {a b : Counters} (hof : ∀ t, a.of t = b.of t)
    (hfailures : a.solverFailures = b.solverFailures) :
  a = b
  := by
  have hliteral := hof .literal
  have hdataflow := hof .dataflow
  have hunresolved := hof .unresolved
  cases a
  cases b
  simp_all [Counters.of]

theorem Counters.of_add (a b : Counters) (t : Tally) :
  (a + b).of t = a.of t + b.of t
  := by
  cases t <;> rfl

/-- What a call adds to the counters does not depend on the calls before it. -/
theorem ClassAnalysis.counters_add_eq (a b : ClassAnalysis) (hb : b.counters = {}) (call : LoadCall)
    (v : Verdict) :
  (a.add call v).counters = a.counters + (b.add call v).counters
  := by
  apply Counters.ext_of
  · intro t
    rw [Counters.of_add, counters_add, counters_add, hb]
    cases t <;> simp [Counters.of]
  · change _ = a.counters.solverFailures + (b.add call v).counters.solverFailures
    rw [solverFailures_add, solverFailures_add, hb]
    simp

/-! ### Putting analyses of calls together -/

/-- The analysis of some calls from an analysis of each: the findings of the calls of a method are
its group, the methods in the order of their first finding. -/
def ClassAnalysis.combine (cls : ClassName) (calls : List LoadCall)
    (part : LoadCall → ClassAnalysis) : ClassAnalysis where
  cls := cls
  resolutions :=
    ((calls.filter (fun c => !(part c).isEmpty)).map LoadCall.method).eraseDups.map (fun m =>
      ⟨m, (calls.filter (fun c => c.method = m)).flatMap (fun c => (part c).findings)⟩)
  diagnostics := calls.flatMap (fun c => (part c).diagnostics)
  counters := calls.foldl (fun n c => n + (part c).counters) {}

section

open Resolution

variable {verdict : LoadCall → Verdict} {cls : ClassName} {calls : List LoadCall}

theorem resolutions_account_singleton (verdict : LoadCall → Verdict) (cls : ClassName)
    (c : LoadCall) :
  (account verdict cls [c]).resolutions =
    if (verdict c).findings c = [] then []
    else [⟨c.method, Finding.collect ((verdict c).findings c)⟩]
  := by
  rw [← insertAll_nil]
  apply ClassAnalysis.resolutions_add

theorem isEmpty_account_singleton (verdict : LoadCall → Verdict) (cls : ClassName) (c : LoadCall) :
  (account verdict cls [c]).isEmpty = ((verdict c).findings c = [] : Bool)
  := by
  rw [ClassAnalysis.isEmpty, resolutions_account_singleton]
  split <;> simp_all

theorem findings_account_singleton (verdict : LoadCall → Verdict) (cls : ClassName)
    (c : LoadCall) :
  (account verdict cls [c]).findings = Finding.collect ((verdict c).findings c)
  := by
  rw [ClassAnalysis.findings, resolutions_account_singleton]
  split
  · next h =>
    rw [h]
    rfl
  · simp

/-- Methods stand in the order of their first finding. -/
theorem methods_account (verdict : LoadCall → Verdict) (cls : ClassName) (calls : List LoadCall) :
  (account verdict cls calls).resolutions.map method =
    ((calls.filter (fun c => (verdict c).findings c ≠ [])).map LoadCall.method).eraseDups
  := by
  induction calls using List.reverseRecOn with
  | nil => rfl
  | append_singleton calls call ih =>
      rw [account_concat, ClassAnalysis.resolutions_add, map_method_insertAll, ih,
        List.filter_append, List.map_append, List.eraseDups_append]
      by_cases hfound : (verdict call).findings call = []
      · simp [hfound]
      · generalize (calls.filter (fun c => (verdict c).findings c ≠ [])).map LoadCall.method = ms
        by_cases hm : call.method ∈ ms <;> simp [hfound, hm, List.removeAll, List.eraseDups_cons]

/-- The group of a method has the findings of its calls, one call after another. -/
theorem findingsOf_account (hsites : (calls.map LoadCall.site).Nodup)
    (hfound : ∀ c, ∀ x ∈ (verdict c).findings c, x.call.site = c.site) (m : MethodSig) :
  findingsOf (account verdict cls calls).resolutions m =
    (calls.filter (fun c => c.method = m)).flatMap
      (fun c => Finding.collect ((verdict c).findings c))
  := by
  induction calls using List.reverseRecOn with
  | nil => rfl
  | append_singleton calls call ih =>
      rw [List.map_append, List.map_singleton] at hsites
      obtain ⟨hcalls, _, hnew⟩ := List.nodup_append.1 hsites
      have ih := ih hcalls
      rw [account_concat, ClassAnalysis.resolutions_add, findingsOf_insertAll, List.filter_append,
        List.flatMap_append]
      by_cases hm : m = call.method
      · subst hm
        have hother : ∀ x ∈ findingsOf (account verdict cls calls).resolutions call.method,
            ∀ f ∈ (verdict call).findings call, x.call ≠ f.call := by
          intro x hx f hf hcall
          obtain ⟨c, hc, hx⟩ := mem_findings_account (mem_findings_of_mem_findingsOf hx)
          apply hnew c.site (List.mem_map_of_mem hc) call.site List.mem_cons_self
          rw [← hfound c x hx, hcall, hfound call f hf]
        have happend := Finding.foldl_insert_append hother []
        rw [List.append_nil] at happend
        rw [if_pos rfl, happend, ih]
        simp [Finding.collect]
      · rw [if_neg hm, ih]
        simp [Ne.symm hm]

theorem counters_account_eq (verdict : LoadCall → Verdict) (cls : ClassName)
    (calls : List LoadCall) :
  (account verdict cls calls).counters =
    calls.foldl (fun n c => n + (account verdict cls [c]).counters) {}
  := by
  induction calls using List.reverseRecOn with
  | nil => rfl
  | append_singleton calls call ih =>
      rw [account_concat, List.foldl_append, List.foldl_cons, List.foldl_nil, ← ih]
      apply ClassAnalysis.counters_add_eq _ _ rfl

/-- The analysis of calls at different sites is put together from those of the single calls. -/
theorem account_eq_combine (hsites : (calls.map LoadCall.site).Nodup)
    (hfound : ∀ c, ∀ x ∈ (verdict c).findings c, x.call.site = c.site) :
  account verdict cls calls = .combine cls calls (fun c => account verdict cls [c])
  := by
  have hgrouped : Grouped (account verdict cls calls).resolutions :=
    grouped_account (fun c _ => hfound c)
  have hresolutions : (account verdict cls calls).resolutions =
      (ClassAnalysis.combine cls calls (fun c => account verdict cls [c])).resolutions := by
    rw [eq_map_findingsOf hgrouped.methods, methods_account]
    simp [ClassAnalysis.combine, findingsOf_account hsites hfound,
      isEmpty_account_singleton, findings_account_singleton]
  have hdiagnostics : (account verdict cls calls).diagnostics =
      (ClassAnalysis.combine cls calls (fun c => account verdict cls [c])).diagnostics := by
    rw [diagnostics_account hsites.of_map]
    apply List.flatMap_congr
    intro c _
    rw [diagnostics_account (List.nodup_singleton c), List.flatMap_singleton]
  have hcls := cls_account verdict cls calls
  have hcounters := counters_account_eq verdict cls calls
  generalize account verdict cls calls = a at hresolutions hdiagnostics hcls hcounters
  cases a
  rw [ClassAnalysis.mk.injEq]
  exact ⟨hcls, hresolutions, hdiagnostics, hcounters⟩

end

theorem Resolver.analyzeCalls_eq_combine {r : Resolver} (hr : r.pool.load r.cls.name = .ok r.cls)
    {calls : List LoadCall} (hsites : (calls.map LoadCall.site).Nodup) :
  r.analyzeCalls calls = .combine r.cls.name calls (fun call => r.analyzeCalls [call])
  := by
  simp only [analyzeCalls_eq_account hr]
  apply account_eq_combine hsites
  intro c x hx
  apply Session.site_of_mem_findings hx

/-- If the methods of a class have different signatures, its analysis is put together from analyses
of its calls, each of which begins with nothing computed.  The same holds for any calls at
different sites, in any order. -/
theorem ClassPool.analyze_eq_combine {pool : ClassPool} (config : Config) {c : ClassName}
    {d : ClassDecl} (hd : pool.load c = .ok d)
    (hdistinct : (d.methods.map Method.signature).Nodup) :
  pool.analyze config c = .ok (.combine c (d.loadCalls config.target)
    (fun call => Resolver.analyzeCalls ⟨pool, config, d⟩ [call])) ∧
  ∀ calls : List LoadCall, (calls.map LoadCall.site).Nodup →
    Resolver.analyzeCalls ⟨pool, config, d⟩ calls =
      .combine c calls (fun call => Resolver.analyzeCalls ⟨pool, config, d⟩ [call])
  := by
  obtain rfl := name_of_load hd
  have hcombine : ∀ calls : List LoadCall, (calls.map LoadCall.site).Nodup →
      Resolver.analyzeCalls ⟨pool, config, d⟩ calls =
        .combine d.name calls (fun call => Resolver.analyzeCalls ⟨pool, config, d⟩ [call]) :=
    fun calls hsites => Resolver.analyzeCalls_eq_combine hd hsites
  constructor
  · rw [analyze_eq_ok hd, hcombine _ (d.nodup_map_site_loadCalls hdistinct config.target)]
  · apply hcombine

namespace Mixed

/-- The three calls of three sorts one after another, and each on its own. -/
theorem analyze_eq_combine_of_three :
  pool.load owner = .ok decl ∧ (decl.methods.map Method.signature).Nodup ∧
  pool.analyze config owner = .ok (.combine owner [namedCall, pickCall, askCall]
    (fun call => Resolver.analyzeCalls ⟨pool, config, decl⟩ [call])) ∧
  Resolver.analyzeCalls ⟨pool, config, decl⟩ [askCall, namedCall] =
    .combine owner [askCall, namedCall]
      (fun call => Resolver.analyzeCalls ⟨pool, config, decl⟩ [call])
  := by
  have hdistinct : (decl.methods.map Method.signature).Nodup := by decide
  obtain ⟨hanalyze, hcalls⟩ := ClassPool.analyze_eq_combine config load_owner hdistinct
  use load_owner, hdistinct, hanalyze
  apply hcalls
  decide

end Mixed

end ServiceFlow
