import ServiceFlow.Proofs.Program.Forwarding
import ServiceFlow.Proofs.Propagation.Completion
import ServiceFlow.Proofs.Value.Store

/-!
# Runs of classes that forward

A run from a method of a class that forwards has one store for each method it reaches: the method
holds the literal of the method that the run started from, and nothing if that one has no literal
of its own.  So the run tells what is loaded exactly if it starts from a literal.
-/

namespace ServiceFlow

namespace ForwardingClass

open Passer Propagation

/-! ### The store of a method -/

/-- A class of which the name may be known. -/
def classValue (name : Option String) : Value := name.elim .unknown .cls

/-- The store of a method that may take a class. -/
def storeOf (name : Option String) (m : MethodSig) : Store :=
  Store.empty.setVar m param (classValue (if m.params = [] then none else name))

theorem storeOf_none (m : MethodSig) :
  storeOf none m = .empty
  := by
  simp only [storeOf, ite_self]
  rfl

theorem storeOf_of_params {m : MethodSig} (h : m.params = []) (name : Option String) :
  storeOf name m = .empty
  := by
  rw [storeOf, if_pos h]
  rfl

theorem storeOf_taking (name : Option String) (owner : ClassName) (n : String) :
  storeOf name (taking owner n) = Store.empty.setVar (taking owner n) param (classValue name)
  := by
  simp [storeOf, taking]

theorem statics_storeOf (name : Option String) (m : MethodSig) :
  (storeOf name m).statics = .empty
  := by
  rw [storeOf]
  cases (if m.params = [] then none else name) <;> rfl

/-- There are no static fields to be taken over. -/
theorem resume_storeOf (name : Option String) (m n : MethodSig) :
  resume (storeOf name m) (storeOf name n) = storeOf name m
  := by
  have hended : (storeOf name n).staticEntries = [] := by
    rw [storeOf]
    cases (if n.params = [] then none else name) <;> rfl
  rw [resume, hended, storeOf]
  cases (if m.params = [] then none else name) <;> rfl

theorem getVar_storeOf (name : Option String) (m : MethodSig) :
  (storeOf name m).getVar m param = classValue (if m.params = [] then none else name)
  := by
  rw [storeOf, Store.getVar_setVar, if_pos ⟨rfl, rfl⟩]

variable {x : ForwardingClass} {p q f : Passer} {g : Supergraph}

/-- What is handed on cannot be changed. -/
theorem mutableArgs_invoke (p : Passer) (name : Option String) (m : MethodSig) :
  (p.invoke x.owner).mutableArgs m (storeOf name m) = []
  := by
  have hobject : (classValue (if m.params = [] then none else name)).isObject = false := by
    cases (if m.params = [] then none else name) <;> rfl
  rw [Invoke.mutableArgs, Passer.invoke, operand]
  cases p.literal with
  | none =>
      simp only [Option.elim_none, List.zipIdx_cons, List.zipIdx_nil, List.filterMap_cons,
        List.filterMap_nil, Invoke.mutable?, getVar_storeOf, hobject]
      rfl
  | some name => rfl

theorem apply_invoke (hp : p ∈ x.passers) (name : Option String) (m : MethodSig) :
  (p.invoke x.owner).apply m (storeOf name m) = storeOf name m
  := by
  rw [Invoke.apply, Invoke.effect, ofInvoke?_invoke hp, mutableArgs_invoke]
  rfl

/-- No statement changes the store of its method. -/
theorem after_storeOf (hg : g.view = x.view) (name : Option String) (s : StmtId) :
  after g s (storeOf name s.method) = storeOf name s.method
  := by
  rw [after, hg]
  cases hstmt : x.view.stmt? s with
  | none => rfl
  | some stmt =>
      obtain ⟨b, hb, hoffset⟩ := View.stmt?_eq_some hstmt
      obtain ⟨p, hp, _, rfl⟩ := exists_of_body? hb
      rcases mem_stmts (List.mem_of_getElem? hoffset) with rfl | rfl | rfl
      · rfl
      · apply apply_invoke hp
      · rfl

/-! ### Calls -/

theorem frame_sig (hq : q ∈ x.passers) (hliteral : q.literal = none) :
  x.view.frame (q.sig x.owner) = ⟨none, [some ⟨param, false⟩]⟩
  := by
  rw [View.frame, body?_sig hq]
  simp [Frame.ofBody, sig_of_taking hliteral, taking, body, prologue, hliteral, Body.thisLocal?,
    Body.parameterLocal?, Body.boundLocal?, Body.assigns, UInt64.size]

/-- A called method holds what it is handed. -/
theorem enterWith_invoke (hg : g.view = x.view) (hq : q ∈ x.passers) (hliteral : q.literal = none)
    (name : Option String) (s : StmtId) :
  enterWith g s (q.sig x.owner) (storeOf name s.method) (p.invoke x.owner) =
    Store.empty.setVar (q.sig x.owner) param (p.operand.eval s.method (storeOf name s.method))
  := by
  rw [enterWith, hg, frame_sig hq hliteral, statics_storeOf]
  rfl

/-- The invocations of a supergraph, with the methods that they enter. -/
theorem exists_of_mem_callees {entries : List MethodSig}
    (hg : Supergraph.build x.view entries skips = .ok g) {s : StmtId} {callee : MethodSig}
    (h : callee ∈ g.callees s) :
  ∃ p ∈ x.passers, ∃ q ∈ x.passers, s = p.site x.owner ∧ p.goal = some q.name ∧
    q.literal = none ∧ callee = q.sig x.owner ∧ x.view.Reached skips entries (p.sig x.owner)
  := by
  obtain ⟨i, _, hs, _⟩ := Supergraph.exists_follows_of_mem_callees hg h
  obtain ⟨p, hp, rfl, rfl⟩ := invokeAt?_eq_some_iff.1 hs.invoke
  have htargets := Supergraph.callees_of_invoke hg hs.reached hs.invoke
  rw [targets_invoke hp] at htargets
  rw [← Except.ok.inj htargets] at h
  obtain ⟨n, hn, rfl⟩ := List.mem_map.1 h
  have hgoal := Option.mem_toList.1 hn
  obtain ⟨q, hq, rfl, hliteral⟩ := x.called p hp n hgoal
  use p, hp, q, hq, rfl, hgoal, hliteral, (sig_of_taking hliteral).symm, hs.reached

/-- Only the method that a run starts from can have a literal of its own. -/
theorem literal_of_reached (hf : f ∈ x.passers) (hp : p ∈ x.passers)
    (h : x.view.Reached skips [f.sig x.owner] (p.sig x.owner)) :
  p = f ∨ p.literal = none
  := by
  generalize hm : p.sig x.owner = m at h
  cases h with
  | entry hentry =>
      rw [← hm, List.mem_singleton] at hentry
      apply Or.inl (eq_of_sig hp hf hentry)
  | @call s i ts _ _ hi hskip hts ht _ =>
      obtain ⟨q, hq, _, rfl⟩ := invokeAt?_eq_some_iff.1 hi
      cases hgoal : q.goal with
      | none =>
          rw [skips_invoke hq, hgoal] at hskip
          cases hskip
      | some n =>
          rw [resolve_invoke hq hgoal] at hts
          rw [← Except.ok.inj hts, List.mem_singleton, ← hm, sig] at ht
          cases hliteral : p.literal with
          | none => apply Or.inr rfl
          | some name =>
              rw [hliteral] at ht
              cases ht

/-- Every method that is reached hands on the literal that the run started from. -/
theorem eval_operand (hf : f ∈ x.passers) (hp : p ∈ x.passers)
    (h : x.view.Reached skips [f.sig x.owner] (p.sig x.owner)) :
  p.operand.eval (p.sig x.owner) (storeOf f.literal (p.sig x.owner)) = classValue f.literal
  := by
  cases hliteral : p.literal with
  | none =>
      rw [operand, hliteral, sig_of_taking hliteral]
      change (storeOf f.literal _).getVar _ param = _
      rw [storeOf_taking, Store.getVar_setVar, if_pos ⟨rfl, rfl⟩]
  | some name =>
      obtain rfl : p = f := by
        rcases literal_of_reached hf hp h with heq | hnone
        · apply heq
        · rw [hliteral] at hnone
          cases hnone
      rw [operand, hliteral]
      rfl

/-- Behind a call the store is what it was. -/
theorem returnWith_invoke (p : Passer) (name : Option String) (s exit : StmtId)
    (callee : MethodSig) :
  returnWith g s callee exit (storeOf name s.method) (storeOf name exit.method)
    (.invoke (p.invoke x.owner)) = storeOf name s.method
  := by
  change returnArgs s callee _ _ (p.invoke x.owner) _ (resume _ _) = _
  rw [returnArgs, mutableArgs_invoke, resume_storeOf]
  rfl

theorem stmt?_site (hp : p ∈ x.passers) :
  x.view.stmt? (p.site x.owner) = some (.invoke (p.invoke x.owner))
  := by
  rw [View.stmt?, site, body?_sig hp]
  simp [body]

/-! ### One store for each method -/

theorem respects_storeOf (hf : f ∈ x.passers)
    (hg : Supergraph.build x.view [f.sig x.owner] skips = .ok g) :
  (problem g (f.sig x.owner) .empty).Respects (flowGraph g) (fun s => storeOf f.literal s.method)
  := by
  have hview := Supergraph.view_build hg
  have hmethod : ∀ s, ∀ next ∈ g.successors s, next.method = s.method := by
    intro s next hnext
    obtain ⟨_, _, hmethod, _⟩ := Supergraph.mem_successors hnext
    apply hmethod
  constructor
  · intro e he
    obtain ⟨s, hs, rfl⟩ := List.mem_map.1 he
    rw [Supergraph.mem_starts hs]
    cases hliteral : f.literal with
    | none => rw [storeOf_none]
    | some name => rw [storeOf_of_params (by rw [sig, hliteral]; rfl)]
  · intro s next hnext _ _ d hd
    rw [hmethod s next hnext, ← after_storeOf hview]
    apply List.mem_singleton.1 hd
  · intro s next hnext _ d hd
    rw [hmethod s next hnext, ← after_storeOf hview]
    simp only [problem] at hd
    split at hd
    · cases hd
    · apply List.mem_singleton.1 hd
  · intro s callee hcallee start hstart d hd
    obtain ⟨p, hp, q, hq, rfl, _, hliteral, rfl, hreached⟩ := exists_of_mem_callees hg hcallee
    rw [Supergraph.mem_starts hstart]
    simp only [problem, hview, stmt?_site hp, Option.bind_some, Stmt.invoke?, Option.map_some,
      Option.mem_toList] at hd
    rw [← Option.some.inj hd, enterWith_invoke hview hq hliteral, sig_of_taking hliteral,
      storeOf_taking]
    apply congrArg _ (eval_operand hf hp hreached)
  · intro s next hnext exit hcallee _ d hd
    obtain ⟨p, hp, _, _, rfl, _⟩ := exists_of_mem_callees hg hcallee
    rw [hmethod _ next hnext]
    simp only [problem, hview, stmt?_site hp, Option.map_some, Option.mem_toList] at hd
    rw [← Option.some.inj hd, returnWith_invoke]

/-! ### What is reached -/

/-- Control gets from the start of a method to the statement that hands the class on. -/
theorem steps_to_site {entries : List MethodSig}
    (hg : Supergraph.build x.view entries skips = .ok g) (entry : MethodSig) (seeds : Store)
    (hp : p ∈ x.passers) (s : Store) (stack : List (Tabulation.OpenCall MethodSig Store)) :
  ∃ t, Tabulation.Steps (flowGraph g) (problem g entry seeds) ⟨⟨p.sig x.owner, 0⟩, s, stack⟩
    ⟨p.site x.owner, t, stack⟩
  := by
  refine ⟨_, steps_of_skipped hg entry seeds (body?_sig hp) ?_ ?_ s stack⟩
  · simp [body]
  · intro stmt hstmt
    have hprologue : stmt ∈ p.prologue := by simpa [body] using hstmt
    rw [prologue] at hprologue
    cases hliteral : p.literal with
    | none =>
        rw [hliteral] at hprologue
        obtain rfl := List.mem_singleton.1 hprologue
        use rfl
        intro i hi
        cases hi
    | some name =>
        rw [hliteral] at hprologue
        cases hprologue

/-- A run gets to the start of every method of its supergraph. -/
theorem reachable_start (hf : f ∈ x.passers)
    (hg : Supergraph.build x.view [f.sig x.owner] skips = .ok g) {m : MethodSig}
    (h : x.view.Reached skips [f.sig x.owner] m) :
  ∃ s stack, Tabulation.Reachable (flowGraph g) (problem g (f.sig x.owner) .empty)
    ⟨⟨m, 0⟩, s, stack⟩
  := by
  have hview := Supergraph.view_build hg
  have hstarts : ∀ p ∈ x.passers, g.starts (p.sig x.owner) = [⟨p.sig x.owner, 0⟩] := by
    intro p hp
    simp [Supergraph.starts, hview, body?_sig hp, body]
  induction h with
  | entry hm =>
      obtain rfl := List.mem_singleton.1 hm
      have hseed :
          (⟨f.sig x.owner, 0⟩, Store.empty) ∈ (problem g (f.sig x.owner) .empty).seeds := by
        simp [problem, hstarts f hf]
      exact ⟨_, _, .seed hseed⟩
  | @call s i ts t hs hi hskip hts ht hbody ih =>
      obtain ⟨p, hp, rfl, rfl⟩ := invokeAt?_eq_some_iff.1 hi
      obtain ⟨d, stack, hreach⟩ := ih
      obtain ⟨d', hsteps⟩ := steps_to_site hg (f.sig x.owner) .empty hp d stack
      have hcallee : t ∈ g.callees (p.site x.owner) := by
        obtain ⟨ts', hts', hcallees⟩ := Supergraph.callees_of_follows hg ⟨hs, hi, hskip⟩
        obtain rfl := Except.ok.inj (hts'.symm.trans hts)
        rw [hcallees]
        apply List.mem_filter.2 ⟨ht, hbody⟩
      obtain ⟨_, _, q, hq, _, _, _, rfl, _⟩ := exists_of_mem_callees hg hcallee
      have hcall : g.isCall (p.site x.owner) := (Supergraph.isCall_iff hg).2 ⟨hs, _, hi⟩
      have hstart : ⟨q.sig x.owner, 0⟩ ∈ (flowGraph g).starts (q.sig x.owner) := by
        simp [flowGraph, hstarts q hq]
      have hflow : enterWith g (p.site x.owner) (q.sig x.owner) d' (p.invoke x.owner) ∈
          (problem g (f.sig x.owner) .empty).call (p.site x.owner) (q.sig x.owner) d' := by
        simp [problem, hview, stmt?_site hp, Stmt.invoke?]
      exact ⟨_, _, hreach.steps (hsteps.tail (.call hcall hcallee hflow hstart))⟩

/-! ### The outcome of a run -/

variable {config : Config}

/-- A run from a method that leads to the load call resolves it by the literal of the method, and
leaves it open without one. -/
theorem outcome_of_completes (htarget : config.target = {}) (hf : f ∈ x.passers)
    (hcompletes : config.Completes x.view (f.sig x.owner) .empty)
    (hreached : x.view.Reached skips [f.sig x.owner] (x.loader.sig x.owner)) :
  (config.run x.view (f.sig x.owner) .empty).map (fun r => r.outcome x.loadSite.call) =
    .ok (f.literal.elim ⟨[], 1, 1⟩ (fun name => ⟨[x.loadSite.loaded name], 1, 0⟩))
  := by
  obtain ⟨g, hg⟩ := exists_supergraph hf
  have hrun := Config.run_of_build htarget hg .empty
  obtain ⟨d, stack, hstart⟩ := reachable_start hf hg hreached
  obtain ⟨d', hsteps⟩ := steps_to_site hg (f.sig x.owner) .empty x.loads.1 d stack
  have hfacts : (config.runOn g (f.sig x.owner) .empty).factsAt x.loadSite.site =
      [storeOf f.literal (x.loader.sig x.owner)] :=
    Config.factsAt_runOn (respects_storeOf hf hg) (hcompletes _ hrun)
      ⟨stack, hstart.steps hsteps⟩
  have hvalue : (storeOf f.literal (x.loader.sig x.owner)).getVar (x.loader.sig x.owner) param =
      classValue f.literal := by
    rw [sig_of_taking x.loads.2.1, storeOf_taking, Store.getVar_setVar, if_pos ⟨rfl, rfl⟩]
  rw [hrun]
  change Except.ok (Run.outcome _ _) = _
  rw [x.loadSite.outcome_of_factsAt hfacts hvalue]
  cases f.literal with
  | none => rfl
  | some name => rfl

/-- A run ends when each statement of the class was processed once. -/
theorem completes_of_limits (htarget : config.target = {}) (hf : f ∈ x.passers)
    (hfacts : 1 ≤ config.solver.maxFactsPerStmt.toNat)
    (hiterations : 3 * x.passers.length ≤ config.solver.maxIterations.toNat) :
  config.Completes x.view (f.sig x.owner) .empty
  := by
  obtain ⟨g, hg⟩ := exists_supergraph hf
  apply Config.completes_of_respects htarget hg (respects_storeOf hf hg)
    (x.passers.flatMap (fun p => (List.range 3).map (fun o => ⟨p.sig x.owner, o⟩))) _ hfacts
  · rw [List.length_flatMap]
    simpa [Nat.mul_comm] using hiterations
  · rintro ⟨m, o⟩ hs
    obtain ⟨stmt, hstmt⟩ := Option.isSome_iff_exists.1 (Supergraph.mem_statements.1 hs).2
    rw [Supergraph.view_build hg] at hstmt
    obtain ⟨b, hb, hoffset⟩ := View.stmt?_eq_some hstmt
    obtain ⟨p, hp, rfl, rfl⟩ := exists_of_body? hb
    have hlength : (p.body x.owner).stmts.length ≤ 3 := by
      cases hliteral : p.literal <;> simp [body, prologue, hliteral]
    have hlt := (List.getElem?_eq_some_iff.1 hoffset).1
    rw [List.mem_flatMap]
    use p, hp
    apply List.mem_map.2
    use o, List.mem_range.2 (Nat.lt_of_lt_of_le hlt hlength)

end ForwardingClass

end ServiceFlow
