import ServiceFlow.Proofs.Resolve.Forwarding

/-!
# Chains of relays

A literal may pass through any number of relays before it is loaded.  Nothing is found in the
relays, so the search climbs from each of them to the one before it, until a bound stops it or it
comes to the method with the literal.  The bound on chains counts the steps of the climb, and the
bound on visits counts the methods, with the one that loads the class.
-/

namespace ServiceFlow

/-! ### Climbing along a chain -/

namespace CallerSearch

variable {run : MethodSig → Except ScopeError Outcome} {maxVisited : Nat} {g : CallGraph}

/-- The search visits the only caller of a method, and climbs on from there if the call is open. -/
theorem walk_of_caller {c m : MethodSig} {s : State} {o : Outcome} (hcallers : g.callers c = [m])
    (hinit : m.isStaticInitializer = false) (hnew : m ∉ s.visited)
    (hroom : s.visited.length < maxVisited) (hrun : run m = .ok o) (depth : Nat) :
  walk run maxVisited g (depth + 1) c s =
    if o.isConclusive then ⟨m :: s.visited, s.findings.add m o.resolved⟩
    else walk run maxVisited g depth m ⟨m :: s.visited, s.findings.add m o.resolved⟩
  := by
  rw [walk, hcallers, visitAll, if_neg (Nat.not_le.2 hroom), if_neg hnew,
    if_neg (Bool.eq_false_iff.1 hinit), hrun]
  rfl

/-- A search that may visit no further method stays as it is. -/
theorem walk_of_full {s : State} (hfull : maxVisited ≤ s.visited.length) {c m : MethodSig}
    (hcallers : g.callers c = [m]) (depth : Nat) :
  walk run maxVisited g depth c s = s
  := by
  cases depth with
  | zero => rfl
  | succ depth => rw [walk, hcallers, visitAll, if_pos hfull]

/-- Along a chain of methods with one caller each, of which only the first one finds something, the
search finds it if both bounds reach as far as that method. -/
theorem findings_walk_chain {m : Nat → MethodSig} (hm : Function.Injective m) {call : LoadCall}
    {i depth : Nat} {s : State} (hcallers : ∀ j ≤ i, g.callers (m (j + 1)) = [m j])
    (hinit : ∀ j ≤ i, (m j).isStaticInitializer = false) (hnew : ∀ j ≤ i, m j ∉ s.visited)
    (hrun : ∀ j ≤ i, i < j + depth → s.visited.length + i < j + maxVisited →
      run (m j) = .ok (if j = 0 then ⟨[call], 1, 0⟩ else ⟨[], 1, 1⟩)) :
  (walk run maxVisited g depth (m (i + 1)) s).findings =
    if i + 1 ≤ depth ∧ s.visited.length + i + 1 ≤ maxVisited then s.findings.add (m 0) [call]
    else s.findings
  := by
  -- the induction climbs: the method before the last one is the last one of a shorter chain
  induction i generalizing depth s with
  | zero =>
      rcases depth with _ | depth
      · rfl
      · rcases Nat.lt_or_ge s.visited.length maxVisited with hroom | hfull
        · have hfirst := hrun 0 (Nat.le_refl 0) (by omega) (by omega)
          have hwithin : 0 + 1 ≤ depth + 1 ∧ s.visited.length + 0 + 1 ≤ maxVisited := by omega
          rw [walk_of_caller (hcallers 0 (Nat.le_refl 0)) (hinit 0 (Nat.le_refl 0))
            (hnew 0 (Nat.le_refl 0)) hroom hfirst, if_pos hwithin]
          rfl
        · rw [walk_of_full hfull (hcallers 0 (Nat.le_refl 0)), if_neg (by omega)]
  | succ i ih =>
      rcases depth with _ | depth
      · rfl
      · rcases Nat.lt_or_ge s.visited.length maxVisited with hroom | hfull
        · have hlast := hrun (i + 1) (Nat.le_refl _) (by omega) (by omega)
          rw [if_neg (Nat.succ_ne_zero i)] at hlast
          rw [walk_of_caller (hcallers _ (Nat.le_refl _)) (hinit _ (Nat.le_refl _))
            (hnew _ (Nat.le_refl _)) hroom hlast]
          change (walk run maxVisited g depth (m (i + 1))
            ⟨m (i + 1) :: s.visited, s.findings⟩).findings = _
          rw [ih]
          · simp only [List.length_cons]
            congr 1
            apply propext
            omega
          · intro j hj
            apply hcallers j (by omega)
          · intro j hj
            apply hinit j (by omega)
          · intro j hj hmem
            rcases List.mem_cons.1 hmem with heq | hmem
            · have hsame := hm heq
              omega
            · apply hnew j (by omega) hmem
          · intro j hj hdepth hvisited
            rw [List.length_cons] at hvisited
            apply hrun j (by omega) (by omega) (by omega)
        · rw [walk_of_full hfull (hcallers _ (Nat.le_refl _)), if_neg (by omega)]

end CallerSearch

/-! ### The class -/

namespace RelayChain

/-- The methods that a literal passes are numbered from the one that has it. -/
def stepName (relays i : Nat) : String :=
  if i = 0 then "top" else if i = relays + 1 then "install" else numbered "relay" i

/-- A method hands on what it takes, but for the first one, which has a literal, and the last one,
which loads the class. -/
def stepOf (literal : String) (relays i : Nat) : Passer where
  name := stepName relays i
  literal := if i = 0 then some literal else none
  goal := if i = relays + 1 then none else some (stepName relays (i + 1))

/-- The letter that a name begins with tells the first and the last method from the relays. -/
theorem head?_stepName (relays i : Nat) :
  (stepName relays i).toList.head? =
    some (if i = 0 then 't' else if i = relays + 1 then 'i' else 'r')
  := by
  unfold stepName
  split
  · rfl
  · split
    · rfl
    · apply head?_numbered rfl

theorem stepName_injective (relays : Nat) :
  Function.Injective (stepName relays)
  := by
  intro i j h
  have hhead := congrArg (fun name => name.toList.head?) h
  simp only [head?_stepName, Option.some.injEq] at hhead
  have hrelay := @numbered_injective "relay" i j
  unfold stepName at h
  split_ifs at h hhead
  all_goals simp_all

end RelayChain

/-- A class whose methods form a chain, declared in any order. -/
structure RelayChain where
  owner : ClassName
  literal : String
  relays : Nat
  passers : List Passer
  perm : passers.Perm ((List.range (relays + 2)).map (RelayChain.stepOf literal relays))

namespace RelayChain

variable (x : RelayChain)

/-- The methods from the one with the literal to the one that loads the class. -/
def step (i : Nat) : Passer := stepOf x.literal x.relays i

theorem mem_passers {p : Passer} :
  p ∈ x.passers ↔ ∃ i ≤ x.relays + 1, p = x.step i
  := by
  rw [x.perm.mem_iff]
  simp [step, eq_comm, Nat.lt_succ_iff]

variable {x} in
theorem step_mem {i : Nat} (hi : i ≤ x.relays + 1) :
  x.step i ∈ x.passers
  := x.mem_passers.2 ⟨i, hi, rfl⟩

theorem goal_step {i : Nat} (hi : i ≤ x.relays) :
  (x.step i).goal = some (x.step (i + 1)).name
  := if_neg (by omega)

theorem goal_last :
  (x.step (x.relays + 1)).goal = none
  := if_pos rfl

variable {x} in
/-- A method that calls another one is not the last one, and calls the next one. -/
theorem exists_of_goal {p : Passer} (hp : p ∈ x.passers) {n : String} (hgoal : p.goal = some n) :
  ∃ i ≤ x.relays, p = x.step i ∧ (x.step (i + 1)).name = n
  := by
  obtain ⟨i, hi, rfl⟩ := x.mem_passers.1 hp
  rcases Nat.lt_or_eq_of_le hi with hlt | rfl
  · have hi : i ≤ x.relays := Nat.le_of_lt_succ hlt
    rw [x.goal_step hi] at hgoal
    use i, hi, rfl, Option.some.inj hgoal
  · rw [x.goal_last] at hgoal
    cases hgoal

def forwardingClass : ForwardingClass where
  owner := x.owner
  passers := x.passers
  loader := x.step (x.relays + 1)
  distinct := by
    rw [(x.perm.map Passer.name).nodup_iff, List.map_map]
    apply List.nodup_range.map (stepName_injective x.relays)
  unreserved := by
    intro p hp
    obtain ⟨i, _, rfl⟩ := x.mem_passers.1 hp
    apply not_mem_reservedNames (head?_stepName x.relays i)
    split
    · decide
    · split <;> decide
  called := by
    intro p hp n hn
    obtain ⟨i, hi, rfl, hname⟩ := exists_of_goal hp hn
    use x.step (i + 1), step_mem (Nat.succ_le_succ hi), hname
    rfl
  loads := ⟨step_mem (Nat.le_refl _), rfl, x.goal_last⟩
  only := by
    intro p hp hgoal
    obtain ⟨i, hi, rfl⟩ := x.mem_passers.1 hp
    rcases Nat.lt_or_eq_of_le hi with hlt | rfl
    · rw [x.goal_step (Nat.le_of_lt_succ hlt)] at hgoal
      cases hgoal
    · rfl

/-! ### The search -/

variable {x} {config : Config} {i : Nat}

theorem sig_step_injective (x : RelayChain) :
  Function.Injective (fun i => (x.step i).sig x.owner)
  := by
  intro i j h
  apply stepName_injective x.relays
  have hnames := congrArg MethodSig.name h
  rw [Passer.name_sig, Passer.name_sig] at hnames
  apply hnames

/-- Each method but the first one has the one before it as its only caller. -/
theorem callers_step {g : CallGraph}
    (hg : CallGraph.build x.forwardingClass.view skips = .ok g)
    (hi : i ≤ x.relays) :
  g.callers ((x.step (i + 1)).sig x.owner) = [(x.step i).sig x.owner]
  := by
  have hcallers : g.callers ((x.step (i + 1)).sig x.owner) = _ :=
    ForwardingClass.callers_eq (x := x.forwardingClass) (q := x.step (i + 1)) hg rfl
  have hnodup : x.passers.Nodup := .of_map Passer.name x.forwardingClass.distinct
  have hfilter : x.passers.filter (fun p => p.goal = some (x.step (i + 1)).name) = [x.step i] := by
    apply List.perm_singleton.1
    apply (List.perm_ext_iff_of_nodup (hnodup.filter _) (List.nodup_singleton _)).2
    intro p
    rw [List.mem_filter, List.mem_singleton, decide_eq_true_eq]
    constructor
    · rintro ⟨hp, hgoal⟩
      obtain ⟨j, _, rfl, hname⟩ := exists_of_goal hp hgoal
      have hsucc : j + 1 = i + 1 := stepName_injective x.relays hname
      rw [Nat.succ.inj hsucc]
    · rintro rfl
      use step_mem (by omega), x.goal_step hi
  rw [hcallers]
  apply congrArg (List.map (Passer.sig x.owner)) hfilter

/-- A run from a method comes to all the methods behind it. -/
theorem reached_step {j : Nat} (hij : i ≤ j) (hj : j ≤ x.relays + 1) :
  x.forwardingClass.view.Reached skips [(x.step i).sig x.owner]
    ((x.step j).sig x.owner)
  := by
  induction j, hij using Nat.le_induction with
  | base => apply View.Reached.entry List.mem_cons_self
  | succ j hij ih =>
      apply ForwardingClass.reached_goal (x := x.forwardingClass) (step_mem (by omega))
        (step_mem hj) (x.goal_step (by omega)) rfl
      apply ih (by omega)

/-- Only the run from the method with the literal finds it. -/
theorem outcome_step (htarget : config.target = {}) (hi : i ≤ x.relays + 1)
    (hcompletes : config.Completes x.forwardingClass.view ((x.step i).sig x.owner) .empty) :
  x.forwardingClass.outcome config ((x.step i).sig x.owner) =
    .ok (if i = 0 then ⟨[x.forwardingClass.loadSite.loaded x.literal], 1, 0⟩ else ⟨[], 1, 1⟩)
  := by
  have houtcome := ForwardingClass.outcome_of_completes (x := x.forwardingClass) htarget
    (step_mem hi) hcompletes (reached_step hi (Nat.le_refl _))
  rcases i with _ | i
  · apply houtcome
  · apply houtcome

/-- The search finds the literal if both bounds reach as far as the method that has it. -/
theorem search_relays (htarget : config.target = {})
    (hcompletes : ∀ i ≤ x.relays, x.relays + 1 ≤ i + config.maxBacktrackDepth.toNat →
      x.relays + 2 ≤ i + config.maxVisitedMethods.toNat →
      config.Completes x.forwardingClass.view ((x.step i).sig x.owner) .empty)
    {g : CallGraph} (hg : CallGraph.build x.forwardingClass.view skips = .ok g) :
  x.forwardingClass.search config g =
    if x.relays + 1 ≤ config.maxBacktrackDepth.toNat ∧
        x.relays + 2 ≤ config.maxVisitedMethods.toNat then
      ⟨[⟨(x.step 0).sig x.owner, x.forwardingClass.loadSite.loaded x.literal⟩], none⟩
    else {}
  := by
  have hinit : ∀ j ≤ x.relays, ((x.step j).sig x.owner).isStaticInitializer = false := by
    intro j hj
    apply ForwardingClass.isStaticInitializer_sig (x := x.forwardingClass) (step_mem (by omega))
  have hnew : ∀ j ≤ x.relays, (x.step j).sig x.owner ∉ [(x.step (x.relays + 1)).sig x.owner] := by
    intro j hj hmem
    have hlast := x.sig_step_injective (List.mem_singleton.1 hmem)
    omega
  have hrun : ∀ j ≤ x.relays, x.relays < j + config.maxBacktrackDepth.toNat →
      1 + x.relays < j + config.maxVisitedMethods.toNat →
      x.forwardingClass.outcome config ((x.step j).sig x.owner) =
        .ok (if j = 0 then ⟨[x.forwardingClass.loadSite.loaded x.literal], 1, 0⟩
          else ⟨[], 1, 1⟩) := by
    intro j hj hdepth hvisited
    apply outcome_step htarget (by omega) (hcompletes j hj hdepth (by omega))
  have hsearch : x.forwardingClass.search config g = _ :=
    CallerSearch.findings_walk_chain x.sig_step_injective (fun j hj => callers_step hg hj) hinit
      hnew hrun
  rw [hsearch, List.length_singleton, Nat.add_comm 1 x.relays]
  rfl

/-- The literal is found if the chains may be as long as the way to the method that has it, and all
the methods may be visited; otherwise the call stays open. -/
theorem analyze_eq_within_bounds (x : RelayChain) {pool : ClassPool}
    (hload : pool.load x.owner = .ok x.forwardingClass.decl) {config : Config}
    (htarget : config.target = {}) (hcallers : config.callerBacktracking = true)
    (hinstall :
      config.Completes x.forwardingClass.view ((x.step (x.relays + 1)).sig x.owner) .empty)
    (hcompletes : ∀ i ≤ x.relays, x.relays + 1 ≤ i + config.maxBacktrackDepth.toNat →
      x.relays + 2 ≤ i + config.maxVisitedMethods.toNat →
      config.Completes x.forwardingClass.view ((x.step i).sig x.owner) .empty) :
  pool.analyze config x.owner = .ok (.ofSearch x.owner x.forwardingClass.loadSite.call
    (if x.relays + 1 ≤ config.maxBacktrackDepth.toNat ∧
        x.relays + 2 ≤ config.maxVisitedMethods.toNat then
      [⟨(x.step 0).sig x.owner, x.forwardingClass.loadSite.loaded x.literal⟩]
    else []))
  := by
  obtain ⟨g, hg⟩ := x.forwardingClass.exists_callGraph
  have hsearch := search_relays htarget hcompletes hg
  have hanalyze := x.forwardingClass.analyze_of_search hload htarget hcallers hinstall hg
  rw [hsearch] at hanalyze
  split
  · next hwithin =>
    rw [if_pos hwithin] at hanalyze
    apply hanalyze rfl (List.nodup_singleton _)
  · next hbeyond =>
    rw [if_neg hbeyond] at hanalyze
    apply hanalyze rfl List.nodup_nil

/-- Two relays, with the method that loads the class declared first. -/
def twoRelays : RelayChain where
  owner := ⟨"a.Chain"⟩
  literal := "a.A"
  relays := 2
  passers := ((List.range 4).map (stepOf "a.A" 2)).reverse
  perm := List.reverse_perm _

/-- Three steps and four visits are enough for two relays, and with one less of either the call
stays open. -/
theorem analyze_twoRelays :
  let cls := twoRelays.forwardingClass
  let pool := ClassPool.ofClasses [cls.decl]
  let config (depth visited : UInt64) :=
    { Preset.balanced.config with maxBacktrackDepth := depth, maxVisitedMethods := visited }
  let missed : ClassAnalysis := {
    cls := cls.owner
    diagnostics := [.unresolved cls.owner cls.loadSite.call]
    counters := { unresolved := 1 } }
  pool.load cls.owner = .ok cls.decl ∧
  pool.analyze (config 3 4) cls.owner = .ok {
    cls := cls.owner
    resolutions := [⟨⟨cls.owner, "install", [.cls], .void⟩,
      [⟨⟨cls.owner, "top", [], .void⟩, cls.loadSite.loaded "a.A"⟩]⟩]
    counters := { dataflow := 1 } } ∧
  pool.analyze (config 2 4) cls.owner = .ok missed ∧
  pool.analyze (config 3 3) cls.owner = .ok missed
  := by
  intro cls pool config missed
  have hcompletes : ∀ depth visited, ∀ i ≤ 3,
      (config depth visited).Completes cls.view ((twoRelays.step i).sig cls.owner) .empty := by
    intro depth visited i hi
    apply ForwardingClass.completes_of_limits rfl (step_mem hi)
    · show 1 ≤ Preset.balanced.config.solver.maxFactsPerStmt.toNat
      decide
    · show 3 * cls.passers.length ≤ Preset.balanced.config.solver.maxIterations.toNat
      decide
  have hload : pool.load cls.owner = .ok cls.decl := rfl
  have hanalyze (depth visited : UInt64) := twoRelays.analyze_eq_within_bounds hload rfl rfl
    (hcompletes depth visited 3 (Nat.le_refl 3))
    (fun i hi _ _ => hcompletes depth visited i (Nat.le_succ_of_le hi))
  refine ⟨hload, ?_, ?_, ?_⟩
  · apply hanalyze 3 4
  · apply hanalyze 2 4
  · apply hanalyze 3 3

end RelayChain

end ServiceFlow
