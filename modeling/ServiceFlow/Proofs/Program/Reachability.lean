import ServiceFlow.Proofs.Program.Supergraph

/-!
# What a supergraph contains

A supergraph is discovered while it is walked: from the entries to the targets of their
invocations, and so on.  It has exactly the methods of the least set that has the entries and is
closed under calls, and its call sites are the invocations in their bodies.  It cannot be built
exactly if an entry has no body, or an invocation in this set that is not skipped cannot be
resolved.
-/

namespace ServiceFlow

namespace View

variable {v : View} {skip : Invoke → Bool} {entries : List MethodSig}

/-- The least set of methods that has the entries and, for every invocation in one of its bodies
that is not skipped, all targets with a body. -/
inductive Reached (v : View) (skip : Invoke → Bool) (entries : List MethodSig) :
    MethodSig → Prop where
  | entry {m : MethodSig} (hm : m ∈ entries) :
      Reached v skip entries m
  | call {p : StmtId} {i : Invoke} {ts : List MethodSig} {t : MethodSig}
      (hp : Reached v skip entries p.method) (hi : v.invokeAt? p = some i) (hskip : skip i = false)
      (hts : v.resolve i = .ok ts) (ht : t ∈ ts) (hbody : v.hasBody t) :
      Reached v skip entries t

/-- A statement in a reached body has an invocation that is not skipped. -/
structure Follows (v : View) (skip : Invoke → Bool) (entries : List MethodSig) (p : StmtId)
    (i : Invoke) : Prop where
  reached : v.Reached skip entries p.method
  invoke : v.invokeAt? p = some i
  followed : skip i = false

/-! ### The methods -/

theorem reached_iff_reaches {m : MethodSig} :
  v.Reached skip entries m ↔ Closure.Reaches (v.calledMethods skip) entries m
  := by
  constructor
  · intro h
    induction h with
    | entry hm => apply Closure.Reaches.start hm
    | @call p i ts t _ hi hskip hts ht hbody ih =>
        apply ih.step
        apply mem_calledMethods_iff.2 ⟨p, i, ts, rfl, hi, hskip, hts, ht, hbody⟩
  · rintro ⟨start, hstart, hsteps⟩
    induction hsteps with
    | refl => apply Reached.entry hstart
    | tail _ hcall ih =>
        obtain ⟨p, i, ts, rfl, hi, hskip, hts, ht, hbody⟩ := mem_calledMethods_iff.1 hcall
        apply Reached.call ih hi hskip hts ht hbody

theorem mem_reachableMethods_iff {m : MethodSig} :
  m ∈ v.reachableMethods skip entries ↔ v.Reached skip entries m
  := by
  rw [(v.explores_reachableMethods skip entries).mem_iff, reached_iff_reaches]

end View

namespace Supergraph

variable {v : View} {skip : Invoke → Bool} {entries : List MethodSig} {g : Supergraph}

theorem build_of_missing {before after : List MethodSig} {m : MethodSig}
    (hbefore : ∀ n ∈ before, v.hasBody n) (hm : ¬v.hasBody m) :
  build v (before ++ m :: after) skip = .error (.missingBody m)
  := by
  have hfind : (before ++ m :: after).find? (fun n => !v.hasBody n) = some m := by
    rw [List.find?_append, List.find?_eq_none.2 (by simpa using hbefore)]
    simp [hm]
  rw [build, hfind]

theorem exists_of_build_eq_error (h : ∀ m ∈ entries, v.hasBody m) {e : ScopeError}
    (he : build v entries skip = .error e) :
  ∃ p i, v.Follows skip entries p i ∧ v.resolve i = .error e
  := by
  rw [build_of_bodies h] at he
  obtain ⟨before, m, after, hmethods, _, hm⟩ := mapM_eq_error_iff.1 (map_eq_error he)
  obtain ⟨p, i, rfl, hi, hskip, hresolve⟩ := View.exists_of_callSites_eq_error hm
  have hreached : v.Reached skip entries p.method := by
    apply View.mem_reachableMethods_iff.1
    simp [hmethods]
  use p, i, ⟨hreached, hi, hskip⟩, hresolve

/-- If all invocations that are followed can be resolved, there is a supergraph. -/
theorem exists_build (h : ∀ m ∈ entries, v.hasBody m)
    (hresolve : ∀ p i, v.Follows skip entries p i → ∃ ts, v.resolve i = .ok ts) :
  ∃ g, build v entries skip = .ok g
  := by
  cases hbuild : build v entries skip with
  | ok g => use g
  | error e =>
      obtain ⟨p, i, hp, herror⟩ := exists_of_build_eq_error h hbuild
      obtain ⟨ts, hts⟩ := hresolve p i hp
      rw [herror] at hts
      cases hts

theorem mem_methods_iff (h : build v entries skip = .ok g) {m : MethodSig} :
  m ∈ g.methods ↔ v.Reached skip entries m
  := by
  obtain ⟨rows, _, rfl⟩ := build_eq_ok h
  apply View.mem_reachableMethods_iff

theorem exists_callSites_of_mem (h : build v entries skip = .ok g) {m : MethodSig}
    (hm : m ∈ g.methods) :
  ∃ row, v.callSites skip m = .ok row ∧ row ⊆ g.sites
  := by
  obtain ⟨rows, hrows, rfl⟩ := build_eq_ok h
  obtain ⟨row, hrow⟩ := exists_mapM_eq_ok.1 ⟨rows, hrows⟩ m hm
  use row, hrow
  intro s hs
  apply List.mem_flatten.2 ⟨row, mem_of_mapM hrows hm hrow, hs⟩

theorem exists_targets (h : build v entries skip = .ok g) {p : StmtId}
    (hp : v.Reached skip entries p.method) {i : Invoke} (hi : v.invokeAt? p = some i) :
  ∃ ts, v.targets skip i = .ok ts
  := by
  obtain ⟨row, hrow, _⟩ := exists_callSites_of_mem h ((mem_methods_iff h).2 hp)
  apply View.exists_targets_of_callSites hrow rfl hi

/-- The call sites of a supergraph are the invocations in its bodies with their targets. -/
theorem mem_sites_iff (h : build v entries skip = .ok g) {s : CallSite} :
  s ∈ g.sites ↔ v.Reached skip entries s.point.method ∧
    ∃ i, v.invokeAt? s.point = some i ∧ v.targets skip i = .ok s.targets
  := by
  constructor
  · intro hs
    obtain ⟨rows, hrows, rfl⟩ := build_eq_ok h
    obtain ⟨row, hrow, hmem⟩ := List.mem_flatten.1 hs
    obtain ⟨m, hm, hsites⟩ := exists_of_mem_mapM hrows hrow
    obtain ⟨rfl, hi⟩ := (View.mem_callSites_iff hsites).1 hmem
    use View.mem_reachableMethods_iff.1 hm
  · rintro ⟨hreached, hi⟩
    obtain ⟨row, hrow, hsubset⟩ := exists_callSites_of_mem h ((mem_methods_iff h).2 hreached)
    apply hsubset
    apply (View.mem_callSites_iff hrow).2 ⟨rfl, hi⟩

theorem site?_eq_some_iff (h : build v entries skip = .ok g) {p : StmtId} {s : CallSite} :
  g.site? p = some s ↔ s ∈ g.sites ∧ s.point = p
  := by
  constructor
  · intro hs
    use List.mem_of_find?_eq_some hs
    simpa using List.find?_some hs
  · rintro ⟨hs, rfl⟩
    apply find?_of_key hs
    rintro ⟨p, ts⟩ hs' rfl
    -- both have the targets of the same invocation
    obtain ⟨_, i, hi, hts⟩ := (mem_sites_iff h).1 hs
    obtain ⟨_, i', hi', hts'⟩ := (mem_sites_iff h).1 hs'
    obtain rfl : i' = i := Option.some.inj (hi'.symm.trans hi)
    obtain rfl : ts = s.targets := Except.ok.inj (hts'.symm.trans hts)
    rfl

theorem isCall_iff (h : build v entries skip = .ok g) {p : StmtId} :
  g.isCall p ↔ v.Reached skip entries p.method ∧ ∃ i, v.invokeAt? p = some i
  := by
  rw [isCall, Option.isSome_iff_exists]
  constructor
  · rintro ⟨s, hs⟩
    obtain ⟨hmem, rfl⟩ := (site?_eq_some_iff h).1 hs
    obtain ⟨hreached, i, hi, _⟩ := (mem_sites_iff h).1 hmem
    use hreached, i
  · rintro ⟨hreached, i, hi⟩
    obtain ⟨ts, hts⟩ := exists_targets h hreached hi
    use ⟨p, ts⟩
    apply (site?_eq_some_iff h).2
    use (mem_sites_iff h).2 ⟨hreached, i, hi, hts⟩

/-- A reached invocation enters its targets. -/
theorem callees_of_invoke (h : build v entries skip = .ok g) {p : StmtId}
    (hp : v.Reached skip entries p.method) {i : Invoke} (hi : v.invokeAt? p = some i) :
  v.targets skip i = .ok (g.callees p)
  := by
  obtain ⟨ts, hts⟩ := exists_targets h hp hi
  have hsite : g.site? p = some ⟨p, ts⟩ := by
    apply (site?_eq_some_iff h).2
    use (mem_sites_iff h).2 ⟨hp, i, hi, hts⟩
  rw [callees, hsite, hts]
  rfl

theorem callees_of_follows (h : build v entries skip = .ok g) {p : StmtId} {i : Invoke}
    (hp : v.Follows skip entries p i) :
  ∃ ts, v.resolve i = .ok ts ∧ g.callees p = ts.filter v.hasBody
  := by
  have htargets := callees_of_invoke h hp.reached hp.invoke
  rw [View.targets_of_followed hp.followed] at htargets
  obtain ⟨ts, hts, hcallees⟩ := map_eq_ok htargets
  use ts, hts, hcallees.symm

/-- Nothing is entered from other statements. -/
theorem callees_of_not_follows (h : build v entries skip = .ok g) {p : StmtId}
    (hp : ∀ i, ¬v.Follows skip entries p i) :
  g.callees p = []
  := by
  rw [callees]
  cases hs : g.site? p with
  | none => rfl
  | some s =>
      obtain ⟨hmem, rfl⟩ := (site?_eq_some_iff h).1 hs
      obtain ⟨hreached, i, hi, hts⟩ := (mem_sites_iff h).1 hmem
      have hskip : skip i = true := by
        rw [← Bool.not_eq_false]
        intro hfollowed
        apply hp i ⟨hreached, hi, hfollowed⟩
      rw [View.targets_of_skipped hskip] at hts
      apply (Except.ok.inj hts).symm

/-- A method is entered from an invocation that is not skipped and has it as a target. -/
theorem exists_follows_of_mem_callees (h : build v entries skip = .ok g) {p : StmtId}
    {t : MethodSig} (ht : t ∈ g.callees p) :
  ∃ i ts, v.Follows skip entries p i ∧ v.resolve i = .ok ts ∧ t ∈ ts ∧ v.hasBody t
  := by
  by_cases hp : ∃ i, v.Follows skip entries p i
  · obtain ⟨i, hi⟩ := hp
    obtain ⟨ts, hts, hcallees⟩ := callees_of_follows h hi
    rw [hcallees] at ht
    obtain ⟨hmem, hbody⟩ := List.mem_filter.1 ht
    use i, ts
  · rw [callees_of_not_follows h (fun i hi => hp ⟨i, hi⟩)] at ht
    cases ht

/-- The methods that are entered from a supergraph belong to it. -/
theorem mem_methods_of_mem_callees (h : build v entries skip = .ok g) {p : StmtId} {t : MethodSig}
    (ht : t ∈ g.callees p) :
  t ∈ g.methods
  := by
  obtain ⟨i, ts, hp, hts, hmem, hbody⟩ := exists_follows_of_mem_callees h ht
  apply (mem_methods_iff h).2 (.call hp.reached hp.invoke hp.followed hts hmem hbody)

/-- What is no invocation is no call. -/
theorem isCall_build (h : build v entries skip = .ok g) {q : StmtId} {stmt : Stmt}
    (hstmt : v.stmt? q = some stmt) (hinvoke : stmt.invoke? = none) :
  g.isCall q = false
  := by
  rw [Bool.eq_false_iff]
  intro hcall
  obtain ⟨_, i, hi⟩ := (isCall_iff h).1 hcall
  rw [View.invokeAt?, hstmt, Option.bind_some, hinvoke] at hi
  cases hi

/-- A method is entered only from an invocation that is not skipped. -/
theorem callees_build (h : build v entries skip = .ok g) {q : StmtId} {callee : MethodSig}
    (hcallee : callee ∈ g.callees q) :
  g.isCall q = true ∧ ∃ stmt i, v.stmt? q = some stmt ∧ stmt.invoke? = some i ∧ skip i = false
  := by
  obtain ⟨i, _, hq, _⟩ := exists_follows_of_mem_callees h hcallee
  obtain ⟨stmt, hstmt, hinvoke⟩ := Option.bind_eq_some_iff.1 hq.invoke
  use (isCall_iff h).2 ⟨hq.reached, i, hq.invoke⟩, stmt, i, hstmt, hinvoke, hq.followed

/-- A supergraph is the closure of its entries under calls.  If some entry has no body, the first
such entry is reported.  Otherwise the graph can be built unless an invocation in the closure that
is not skipped cannot be resolved.  It has each method of the closure once and a call site at each
invocation in their bodies, and enters from there the targets that have a body, unless the
invocation is skipped. -/
theorem build_eq_closure (v : View) (entries : List MethodSig) (skip : Invoke → Bool) :
  (∀ before m after, entries = before ++ m :: after → (∀ n ∈ before, v.hasBody n) →
    ¬v.hasBody m → build v entries skip = .error (.missingBody m)) ∧
  ((∀ m ∈ entries, v.hasBody m) →
    ((∃ e, build v entries skip = .error e) ↔
      ∃ p i e, v.Follows skip entries p i ∧ v.resolve i = .error e) ∧
    (∀ e, build v entries skip = .error e →
      ∃ p i, v.Follows skip entries p i ∧ v.resolve i = .error e) ∧
    ∀ g, build v entries skip = .ok g →
      g.methods.Nodup ∧ (∀ m, m ∈ g.methods ↔ v.Reached skip entries m) ∧
      (∀ p, g.isCall p ↔ v.Reached skip entries p.method ∧ ∃ i, v.invokeAt? p = some i) ∧
      (∀ p i, v.Follows skip entries p i →
        ∃ ts, v.resolve i = .ok ts ∧ g.callees p = ts.filter v.hasBody) ∧
      ∀ p, (∀ i, ¬v.Follows skip entries p i) → g.callees p = [])
  := by
  constructor
  · rintro before m after rfl hbefore hm
    apply build_of_missing hbefore hm
  · intro hentries
    refine ⟨?_, fun e => exists_of_build_eq_error hentries, ?_⟩
    · constructor
      · rintro ⟨e, he⟩
        obtain ⟨p, i, hp, hresolve⟩ := exists_of_build_eq_error hentries he
        use p, i, e
      · rintro ⟨p, i, e, hp, hresolve⟩
        cases hbuild : build v entries skip with
        | error e' => use e'
        | ok g =>
            obtain ⟨ts, hts, _⟩ := callees_of_follows hbuild hp
            rw [hresolve] at hts
            cases hts
    · intro g hg
      refine ⟨?_, fun m => mem_methods_iff hg, fun p => isCall_iff hg,
        fun p i => callees_of_follows hg, fun p => callees_of_not_follows hg⟩
      obtain ⟨rows, _, rfl⟩ := build_eq_ok hg
      apply (v.explores_reachableMethods skip entries).nodup

end Supergraph

/-! ### Methods that are reached, skipped or left out -/

namespace Discovery

def owner : ClassName := ⟨"A"⟩
def orphan : ClassName := ⟨"B"⟩
def absent : ClassName := ⟨"Absent"⟩

def main : MethodSig := ⟨owner, "main", [], .void⟩
def helper : MethodSig := ⟨owner, "helper", [], .void⟩
def load : MethodSig := ⟨owner, "load", [], .void⟩
def unused : MethodSig := ⟨owner, "unused", [], .void⟩
def bare : MethodSig := ⟨owner, "bare", [], .void⟩
def broken : MethodSig := ⟨owner, "broken", [], .void⟩
def gone : MethodSig := ⟨orphan, "gone", [], .void⟩

def call (m : MethodSig) : Invoke := ⟨.static, m, none, []⟩

def calling (m : MethodSig) (targets : List MethodSig) : Method :=
  ⟨m, true, some ⟨[], targets.map (fun t => .invoke (call t)) ++ [.retVoid]⟩⟩

def view : View := .ofList [
  ⟨owner, none, [], none, [calling main [helper, load, bare], calling helper [main],
    calling load [unused], calling unused [], ⟨bare, true, none⟩, calling broken [gone]]⟩,
  ⟨orphan, some absent, [], none, []⟩]

def skip (i : Invoke) : Bool := i.method = load

def graph : Supergraph := ⟨view, [main, helper],
  [⟨⟨main, 0⟩, [helper]⟩, ⟨⟨main, 1⟩, []⟩, ⟨⟨main, 2⟩, []⟩, ⟨⟨helper, 0⟩, [main]⟩]⟩

theorem build_main_bare_broken :
  view.hasBody main ∧ Supergraph.build view [main] skip = .ok graph ∧
  view.Reached skip [main] helper ∧ ¬view.Reached skip [main] unused ∧
  view.Follows skip [main] ⟨main, 0⟩ (call helper) ∧
  (∃ ts, view.resolve (call helper) = .ok ts ∧ graph.callees ⟨main, 0⟩ = ts.filter view.hasBody) ∧
  (∃ i, view.invokeAt? ⟨main, 1⟩ = some i) ∧ (∀ i, ¬view.Follows skip [main] ⟨main, 1⟩ i) ∧
  ¬view.hasBody bare ∧ Supergraph.build view [main, bare] skip = .error (.missingBody bare) ∧
  ∃ e, Supergraph.build view [broken] skip = .error e
  := by
  have hmain : view.hasBody main := rfl
  have hbare : ¬view.hasBody bare := by decide
  have hbuild : Supergraph.build view [main] skip = .ok graph := rfl
  have hbroken : view.Follows skip [broken] ⟨broken, 0⟩ (call gone) :=
    ⟨.entry List.mem_cons_self, rfl, rfl⟩
  obtain ⟨_, _, hgraph⟩ := (Supergraph.build_eq_closure view [main] skip).2 (by simpa using hmain)
  obtain ⟨_, hmethods, hcalls, hcallees, _⟩ := hgraph graph hbuild
  have hhelper : view.Follows skip [main] ⟨main, 0⟩ (call helper) :=
    ⟨.entry List.mem_cons_self, rfl, rfl⟩
  refine ⟨hmain, hbuild, (hmethods helper).1 (by decide), ?_, hhelper, hcallees _ _ hhelper, ?_, ?_,
    hbare, ?_, ?_⟩
  · rw [← hmethods unused]
    decide
  · apply ((hcalls ⟨main, 1⟩).1 rfl).2
  · intro i hi
    obtain rfl : call load = i := Option.some.inj hi.invoke
    cases hi.followed
  · apply (Supergraph.build_eq_closure view [main, bare] skip).1 [main] bare [] rfl _ hbare
    simpa using hmain
  · have hbody : ∀ m ∈ [broken], view.hasBody m := by
      intro m hm
      obtain rfl := List.mem_singleton.1 hm
      rfl
    apply ((Supergraph.build_eq_closure view [broken] skip).2 hbody).1.2
    use ⟨broken, 0⟩, call gone, .unresolvedSuperclass gone orphan absent, hbroken
    rfl

end Discovery

end ServiceFlow
