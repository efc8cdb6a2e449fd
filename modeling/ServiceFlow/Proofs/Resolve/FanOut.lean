import ServiceFlow.Proofs.Program.Insertion
import ServiceFlow.Proofs.Resolve.Forwarding

/-!
# Many callers of one method

A method that loads its parameter may have any number of callers, each with a literal of its own.
The search visits the callers in the order of their declaration, as many as its bound allows, where
the method itself counts as visited.  So all the different literals among those of the callers that
are visited are found, each with the first caller that has it.
-/

namespace ServiceFlow

/-! ### Collecting by the first occurrence -/

/-- Of the findings for a list of names, the first one for each name is kept. -/
theorem Finding.collect_zipIdx (entry : String → Nat → MethodSig) {call : String → LoadCall}
    (hcall : Function.Injective call) (names : List String) :
  collect (names.zipIdx.map (fun e => ⟨entry e.1 e.2, call e.1⟩)) =
    names.eraseDups.map (fun name => ⟨entry name (names.idxOf name), call name⟩)
  := by
  apply foldl_new_zipIdx (fun name i => (⟨entry name i, call name⟩ : Finding)) hcall
  intro _ _
  rfl

/-- New methods whose runs each find one value are visited as long as the bound allows. -/
theorem CallerSearch.findings_visitAll {run : MethodSig → Except ScopeError Outcome}
    {maxVisited : Nat} {climb : MethodSig → State → State} {found : List Finding} {s : State}
    (hinit : ∀ f ∈ found, f.entry.isStaticInitializer = false)
    (hnodup : (found.map Finding.entry).Nodup) (hnew : ∀ f ∈ found, f.entry ∉ s.visited)
    (hrun : ∀ f ∈ found.take (maxVisited - s.visited.length),
      run f.entry = .ok ⟨[f.call], 1, 0⟩) :
  (visitAll run maxVisited climb (found.map Finding.entry) s).findings =
    ⟨(found.take (maxVisited - s.visited.length)).foldl Finding.insert s.findings.found,
      s.findings.failure⟩
  := by
  induction found generalizing s with
  | nil =>
      rw [List.take_nil]
      rfl
  | cons f found ih =>
      rw [List.map_cons, visitAll]
      split
      · next hfull =>
        rw [Nat.sub_eq_zero_of_le hfull]
        rfl
      · next hroom =>
        obtain ⟨hfirst, hnodup⟩ := List.nodup_cons.1 hnodup
        have hleft : maxVisited - s.visited.length =
            maxVisited - (f.entry :: s.visited).length + 1 := by
          rw [List.length_cons]
          omega
        rw [hleft, List.take_succ_cons] at hrun ⊢
        rw [if_neg (hnew f List.mem_cons_self), if_neg (by simp [hinit f List.mem_cons_self]),
          hrun f List.mem_cons_self]
        -- the run is conclusive, so the search does not climb on from the method
        apply ih
        · intro f' hf'
          apply hinit f' (List.mem_cons_of_mem _ hf')
        · apply hnodup
        · intro f' hf' hmem
          rcases List.mem_cons.1 hmem with heq | hmem
          · apply hfirst
            rw [← heq]
            apply List.mem_map_of_mem hf'
          · apply hnew f' (List.mem_cons_of_mem _ hf') hmem
        · intro f' hf'
          apply hrun f' (List.mem_cons_of_mem _ hf')

/-! ### The class -/

namespace FanOut

/-- The method that loads its parameter. -/
def install : Passer := ⟨"install", none, none⟩

/-- A caller with its literal and its number. -/
def caller (name : String) (i : Nat) : Passer := ⟨numbered "use" i, some name, some "install"⟩

def callers (names : List String) : List Passer := names.zipIdx.map (fun e => caller e.1 e.2)

theorem nodup_names (names : List String) :
  ((callers names).map Passer.name).Nodup
  := by
  have hnames : (callers names).map Passer.name =
      (names.zipIdx.map Prod.snd).map (numbered "use") := by
    rw [callers, List.map_map, List.map_map]
    rfl
  rw [hnames]
  apply (List.nodup_zipIdx_map_snd names).map (numbered_injective "use")

theorem name_ne_install (i : Nat) :
  numbered "use" i ≠ "install"
  := by
  intro h
  have hhead : (numbered "use" i).toList.head? = some 'u' := head?_numbered rfl i
  rw [h] at hhead
  cases hhead

theorem mem_passers {names : List String} {p : Passer} :
  p ∈ install :: callers names ↔ p = install ∨ ∃ name i, names[i]? = some name ∧ p = caller name i
  := by
  simp [callers, List.mem_zipIdx_iff_getElem?, eq_comm]

end FanOut

open FanOut in
/-- The class with a method that loads its parameter, and a caller of it for each name. -/
def fanOut (owner : ClassName) (names : List String) : ForwardingClass where
  owner := owner
  passers := install :: callers names
  loader := install
  distinct := by
    rw [List.map_cons, List.nodup_cons]
    use by simpa [callers, caller, install] using fun _ i _ => name_ne_install i
    apply nodup_names
  unreserved := by
    intro p hp
    rcases mem_passers.1 hp with rfl | ⟨name, i, _, rfl⟩
    · apply not_mem_reservedNames (c := 'i') rfl (by decide)
    · apply not_mem_reservedNames (c := 'u') (head?_numbered rfl i) (by decide)
  called := by
    intro p hp n hn
    use install, List.mem_cons_self
    rcases mem_passers.1 hp with rfl | ⟨name, i, _, rfl⟩
    · cases hn
    · obtain rfl := Option.some.inj hn
      exact ⟨rfl, rfl⟩
  loads := ⟨List.mem_cons_self, rfl, rfl⟩
  only := by
    intro p hp hgoal
    rcases mem_passers.1 hp with rfl | ⟨name, i, _, rfl⟩
    · rfl
    · cases hgoal

namespace FanOut

variable {owner : ClassName} {names : List String} {config : Config}

/-- The findings of the callers, one after another. -/
def credited (owner : ClassName) (all names : List String) : List Finding :=
  names.zipIdx.map (fun e => ⟨(caller e.1 e.2).sig owner, (fanOut owner all).loadSite.loaded e.1⟩)

theorem map_entry_credited (all names : List String) :
  (credited owner all names).map Finding.entry = (callers names).map (Passer.sig owner)
  := by
  rw [credited, callers, List.map_map, List.map_map]
  rfl

theorem take_credited (n : Nat) :
  (credited owner names names).take n = credited owner names (names.take n)
  := by
  have htake : names.zipIdx.take n = (names.take n).zipIdx := by
    apply List.ext_getElem?
    intro i
    simp only [List.getElem?_take, List.getElem?_zipIdx]
    split <;> rfl
  rw [credited, credited, ← List.map_take, htake]

theorem exists_of_mem_credited {all : List String} {f : Finding}
    (h : f ∈ credited owner all names) :
  ∃ name i, names[i]? = some name ∧
    f = ⟨(caller name i).sig owner, (fanOut owner all).loadSite.loaded name⟩
  := by
  obtain ⟨e, he, rfl⟩ := List.mem_map.1 h
  use e.1, e.2, List.mem_zipIdx_iff_getElem?.1 he

/-- The callers of the method are those with the literals. -/
theorem callers_install {g : CallGraph}
    (hg : CallGraph.build (fanOut owner names).view skips = .ok g) :
  g.callers (install.sig owner) = (callers names).map (Passer.sig owner)
  := by
  have hcallers : g.callers (install.sig owner) = _ :=
    ForwardingClass.callers_eq (x := fanOut owner names) (q := install) hg rfl
  have hfilter : (install :: callers names).filter (fun p => p.goal = some "install") =
      callers names := by
    rw [List.filter_cons_of_neg (by decide)]
    apply List.filter_eq_self.2
    intro p hp
    obtain ⟨e, _, rfl⟩ := List.mem_map.1 hp
    rfl
  rw [hcallers]
  apply congrArg (List.map (Passer.sig owner)) hfilter

/-- The run from a caller finds its literal. -/
theorem outcome_caller (htarget : config.target = {}) {name : String} {i : Nat}
    (hname : names[i]? = some name)
    (hcompletes : config.Completes (fanOut owner names).view ((caller name i).sig owner) .empty) :
  (fanOut owner names).outcome config ((caller name i).sig owner) =
    .ok ⟨[(fanOut owner names).loadSite.loaded name], 1, 0⟩
  := by
  have hcaller : caller name i ∈ (fanOut owner names).passers :=
    mem_passers.2 (.inr ⟨name, i, hname, rfl⟩)
  apply ForwardingClass.outcome_of_completes (x := fanOut owner names) (f := caller name i) htarget
    hcaller hcompletes
  apply ForwardingClass.reached_goal (x := fanOut owner names) hcaller List.mem_cons_self rfl rfl
  apply View.Reached.entry List.mem_cons_self

/-- The search visits the first callers and finds their literals. -/
theorem search_fanOut (htarget : config.target = {}) (hdepth : 1 ≤ config.maxBacktrackDepth.toNat)
    {n : Nat} (hn : n = config.maxVisitedMethods.toNat - 1)
    (hcompletes : ∀ i < n, ∀ name, names[i]? = some name →
      config.Completes (fanOut owner names).view ((caller name i).sig owner) .empty)
    {g : CallGraph} (hg : CallGraph.build (fanOut owner names).view skips = .ok g) :
  (fanOut owner names).search config g =
    ⟨(names.take n).eraseDups.map (fun name =>
      ⟨(caller name ((names.take n).idxOf name)).sig owner,
        (fanOut owner names).loadSite.loaded name⟩), none⟩
  := by
  obtain ⟨depth, hdepth⟩ : ∃ depth, config.maxBacktrackDepth.toNat = depth + 1 :=
    Nat.exists_eq_add_of_le' hdepth
  have hsigs : (install.sig owner :: (callers names).map (Passer.sig owner)).Nodup :=
    (fanOut owner names).nodup_sigs
  obtain ⟨hinstall, hnodup⟩ := List.nodup_cons.1 hsigs
  have hentries : (credited owner names names).map Finding.entry = _ :=
    map_entry_credited names names
  have hinit : ∀ f ∈ credited owner names names, f.entry.isStaticInitializer = false := by
    intro f hf
    obtain ⟨name, i, hname, rfl⟩ := exists_of_mem_credited hf
    apply ForwardingClass.isStaticInitializer_sig (x := fanOut owner names)
    apply mem_passers.2 (.inr ⟨name, i, hname, rfl⟩)
  have hnew : ∀ f ∈ credited owner names names, f.entry ∉ [install.sig owner] := by
    intro f hf hmem
    apply hinstall
    rw [← List.mem_singleton.1 hmem, ← hentries]
    apply List.mem_map_of_mem hf
  have hrun : ∀ f ∈ credited owner names (names.take n),
      (fanOut owner names).outcome config f.entry = .ok ⟨[f.call], 1, 0⟩ := by
    intro f hf
    obtain ⟨name, i, hname, rfl⟩ := exists_of_mem_credited hf
    rw [List.getElem?_take] at hname
    split at hname
    · next hi => apply outcome_caller htarget hname (hcompletes i hi name hname)
    · cases hname
  rw [ForwardingClass.search, hdepth, CallerSearch.walk]
  change (CallerSearch.visitAll _ _ _ (g.callers (install.sig owner)) _).findings = _
  rw [hn, ← take_credited] at hrun
  rw [callers_install hg, ← hentries, CallerSearch.findings_visitAll hinit _ hnew hrun]
  · change (⟨List.foldl Finding.insert [] (List.take (_ - 1) _), none⟩ : Findings) = _
    rw [← hn, take_credited, ← Finding.collect, credited,
      Finding.collect_zipIdx (fun name i => (caller name i).sig owner)
        (LoadSite.loaded_injective _)]
  · rw [hentries]
    apply hnodup

/-- The analysis finds the different literals among those of the first callers, each with the first
caller that has it. -/
theorem analyze_fanOut (owner : ClassName) (names : List String) {pool : ClassPool}
    (hload : pool.load owner = .ok (fanOut owner names).decl) {config : Config}
    (htarget : config.target = {}) (hcallers : config.callerBacktracking = true)
    (hdepth : 1 ≤ config.maxBacktrackDepth.toNat)
    (hinstall : config.Completes (fanOut owner names).view (install.sig owner) .empty)
    (hcompletes : ∀ i < config.maxVisitedMethods.toNat - 1, ∀ name, names[i]? = some name →
      config.Completes (fanOut owner names).view ((caller name i).sig owner) .empty) :
  let visited := names.take (config.maxVisitedMethods.toNat - 1)
  pool.analyze config owner = .ok (.ofSearch owner (fanOut owner names).loadSite.call
    (visited.eraseDups.map (fun name =>
      ⟨(caller name (visited.idxOf name)).sig owner, (fanOut owner names).loadSite.loaded name⟩)))
  := by
  intro visited
  obtain ⟨g, hg⟩ := (fanOut owner names).exists_callGraph
  have hsearch := search_fanOut htarget hdepth rfl hcompletes hg
  have hanalyze := (fanOut owner names).analyze_of_search hload htarget hcallers hinstall hg
  rw [hsearch] at hanalyze
  apply hanalyze rfl
  rw [List.map_map]
  apply (nodup_eraseDups visited).map (LoadSite.loaded_injective _)

/-- Four callers, of which two have the same literal. -/
def fourCallers : ForwardingClass := fanOut ⟨"a.Fan"⟩ ["a.A", "b.B", "a.A", "c.C"]

/-- With room for three callers two literals are found, and with no room for a caller none. -/
theorem analyze_fourCallers :
  let pool := ClassPool.ofClasses [fourCallers.decl]
  let config (visited : UInt64) := { Preset.balanced.config with maxVisitedMethods := visited }
  pool.load fourCallers.owner = .ok fourCallers.decl ∧
  pool.analyze (config 4) fourCallers.owner = .ok {
    cls := fourCallers.owner
    resolutions := [⟨install.sig fourCallers.owner,
      [⟨(caller "a.A" 0).sig fourCallers.owner, fourCallers.loadSite.loaded "a.A"⟩,
        ⟨(caller "b.B" 1).sig fourCallers.owner, fourCallers.loadSite.loaded "b.B"⟩]⟩]
    counters := { dataflow := 1 } } ∧
  pool.analyze (config 1) fourCallers.owner = .ok {
    cls := fourCallers.owner
    diagnostics := [.unresolved fourCallers.owner fourCallers.loadSite.call]
    counters := { unresolved := 1 } }
  := by
  intro pool config
  have hcompletes : ∀ visited, ∀ f ∈ fourCallers.passers,
      (config visited).Completes fourCallers.view (f.sig fourCallers.owner) .empty := by
    intro visited f hf
    apply ForwardingClass.completes_of_limits rfl hf
    · show 1 ≤ Preset.balanced.config.solver.maxFactsPerStmt.toNat
      decide
    · show 3 * fourCallers.passers.length ≤ Preset.balanced.config.solver.maxIterations.toNat
      decide
  have hcaller : ∀ visited, ∀ i < (config visited).maxVisitedMethods.toNat - 1, ∀ name,
      ["a.A", "b.B", "a.A", "c.C"][i]? = some name →
      (config visited).Completes fourCallers.view ((caller name i).sig fourCallers.owner)
        .empty := by
    intro visited i _ name hname
    apply hcompletes visited _ (mem_passers.2 (.inr ⟨name, i, hname, rfl⟩))
  refine ⟨rfl, ?_, ?_⟩
  · apply analyze_fanOut fourCallers.owner ["a.A", "b.B", "a.A", "c.C"] rfl rfl rfl
    · decide
    · apply hcompletes 4 _ List.mem_cons_self
    · apply hcaller 4
  · apply analyze_fanOut fourCallers.owner ["a.A", "b.B", "a.A", "c.C"] rfl rfl rfl
    · decide
    · apply hcompletes 1 _ List.mem_cons_self
    · apply hcaller 1

end FanOut

end ServiceFlow
