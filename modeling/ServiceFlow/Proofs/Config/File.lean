import ServiceFlow.Config.File
import ServiceFlow.Proofs.Yaml.Decode

/-!
# Configuration files

A configuration is read back from the file that is written for it, if it is usable.  A file that is
accepted gives a usable configuration, each field of which is overridden by the file or is that of
the preset.
-/

namespace ServiceFlow

open Yaml (Tree Document)

/-! ### Written files -/

theorem LoadTarget.ofTree?_document (t : LoadTarget) :
  LoadTarget.ofTree? t.document.toTree = some t
  := by
  have hnodup : (t.members.map Prod.fst).Nodup := by
    show fields.Nodup
    decide
  have hrecord : t.document.toTree.openRecord? fields = some (Tree.memberTrees t.members) :=
    Tree.openRecord?_toTree hnodup
  have htext (key s : String) (h : (key, Document.text s) ∈ t.members) :
      Tree.member? key Tree.text? (Tree.memberTrees t.members) = some (some s) :=
    Tree.member?_of_mem hnodup h rfl
  have howner := htext "class" t.owner.text (by simp [members])
  have hmethod := htext "method" t.method (by simp [members])
  have hparam := htext "first_param" t.firstParam.text (by simp [members])
  simp [LoadTarget.ofTree?, hrecord, howner, hmethod, hparam]

theorem SolverOverrides.ofTree?_document (s : SolverConfig) :
  SolverOverrides.ofTree? (ofConfig s).document.toTree = some (ofConfig s)
  := by
  have hnodup : ((ofConfig s).members.map Prod.fst).Nodup := by
    show fields.Nodup
    decide
  have hrecord : (ofConfig s).document.toTree.record? fields =
      some (Tree.memberTrees (ofConfig s).members) := Tree.record?_toTree hnodup (fun _ h => h)
  have hlimit (key : String) (n : UInt64) (h : (key, Document.uint64 n) ∈ (ofConfig s).members) :
      Tree.optionalMember? key Tree.uint64? (Tree.memberTrees (ofConfig s).members) =
        some (some n) :=
    Tree.optionalMember?_of_mem hnodup h (Tree.optional?_uint64 n)
  have hiterations := hlimit "max_iterations" s.maxIterations (by simp [members, ofConfig])
  have hfacts := hlimit "max_facts_per_stmt" s.maxFactsPerStmt (by simp [members, ofConfig])
  simp [SolverOverrides.ofTree?, hrecord, hiterations, hfacts]
  rfl

theorem Overrides.ofTree?_document (c : Config) :
  Overrides.ofTree? (ofConfig c).document.toTree = some (ofConfig c)
  := by
  have hnodup : ((ofConfig c).members.map Prod.fst).Nodup := by
    show fields.Nodup
    decide
  have hrecord : (ofConfig c).document.toTree.record? fields =
      some (Tree.memberTrees (ofConfig c).members) := Tree.record?_toTree hnodup (fun _ h => h)
  have hnumber (key : String) (n : UInt64) (h : (key, Document.uint64 n) ∈ (ofConfig c).members) :
      Tree.optionalMember? key Tree.uint64? (Tree.memberTrees (ofConfig c).members) =
        some (some n) :=
    Tree.optionalMember?_of_mem hnodup h (Tree.optional?_uint64 n)
  have hswitch (key : String) (b : Bool) (h : (key, Document.bool b) ∈ (ofConfig c).members) :
      Tree.optionalMember? key Tree.bool? (Tree.memberTrees (ofConfig c).members) = some (some b) :=
    Tree.optionalMember?_of_mem hnodup h (Tree.optional?_bool b)
  have hdepth := hnumber "max_backtrack_depth" c.maxBacktrackDepth (by simp [members, ofConfig])
  have hvisited := hnumber "max_visited_methods" c.maxVisitedMethods (by simp [members, ofConfig])
  have hcallers := hswitch "caller_backtracking" c.callerBacktracking (by simp [members, ofConfig])
  have houter := hswitch "outer_class_threading" c.outerClassThreading (by simp [members, ofConfig])
  have hparallel := hswitch "parallel" c.parallel (by simp [members, ofConfig])
  have hthreads := hnumber "threads" c.threads (by simp [members, ofConfig])
  have hsolver : Tree.optionalMember? "solver" SolverOverrides.ofTree?
      (Tree.memberTrees (ofConfig c).members) = some (ofConfig c).solver := by
    apply Tree.optionalMember?_of_mem hnodup (d := (SolverOverrides.ofConfig c.solver).document)
      (by simp [members, ofConfig])
    exact congrArg (Option.map some) (SolverOverrides.ofTree?_document c.solver)
  have htarget : Tree.optionalMember? "target" LoadTarget.ofTree?
      (Tree.memberTrees (ofConfig c).members) = some (some c.target) := by
    apply Tree.optionalMember?_of_mem hnodup (d := c.target.document) (by simp [members, ofConfig])
    exact congrArg (Option.map some) (LoadTarget.ofTree?_document c.target)
  simp [Overrides.ofTree?, hrecord, hdepth, hvisited, hcallers, houter, hsolver, hparallel,
    hthreads, htarget]
  rfl

theorem ConfigFile.ofTree?_document (c : Config) :
  ConfigFile.ofTree? (ofConfig c).document.toTree = some (ofConfig c)
  := by
  have hnodup : ((ofConfig c).members.map Prod.fst).Nodup := by
    show fields.Nodup
    decide
  have hrecord : (ofConfig c).document.toTree.record? fields =
      some (Tree.memberTrees (ofConfig c).members) := Tree.record?_toTree hnodup (fun _ h => h)
  have hversion : Tree.member? "version" Tree.uint32? (Tree.memberTrees (ofConfig c).members) =
      some (some configVersion) :=
    Tree.member?_of_mem hnodup (by simp [members, ofConfig]) (Tree.uint32?_nat configVersion)
  have hpreset : Tree.member? "preset" Tree.text? (Tree.memberTrees (ofConfig c).members) =
      some (some Preset.balanced.text) :=
    Tree.member?_of_mem hnodup (d := .text Preset.balanced.text) (by simp [members, ofConfig]) rfl
  have hoverrides : Tree.optionalMember? "overrides" Overrides.ofTree?
      (Tree.memberTrees (ofConfig c).members) = some (some (.ofConfig c)) := by
    apply Tree.optionalMember?_of_mem hnodup (d := (Overrides.ofConfig c).document)
      (by simp [members, ofConfig])
    exact congrArg (Option.map some) (Overrides.ofTree?_document c)
  simp [ConfigFile.ofTree?, hrecord, hversion, hpreset, hoverrides]
  rfl

/-! ### Reading back -/

theorem LoadTarget.readable_document (t : LoadTarget) :
  t.document.Readable
  := by
  apply Document.readable_map
  · simp [members]
  · simp [members, Yaml.Lexer.isKey]
  · simp [members, Document.readable_text]

theorem SolverOverrides.readable_document (s : SolverConfig) :
  (ofConfig s).document.Readable
  := by
  apply Document.readable_map
  · simp [members, ofConfig]
  · simp [members, ofConfig, Yaml.Lexer.isKey]
  · simp [members, ofConfig, Document.uint64, Document.readable_nat]

theorem Overrides.readable_document (c : Config) :
  (ofConfig c).document.Readable
  := by
  apply Document.readable_map
  · simp [members, ofConfig]
  · simp [members, ofConfig, Yaml.Lexer.isKey]
  · simp [members, ofConfig, Document.uint64, Document.readable_nat, Document.readable_bool,
      SolverOverrides.readable_document, LoadTarget.readable_document]

theorem ConfigFile.readable_document (c : Config) :
  (ofConfig c).document.Readable
  := by
  apply Document.readable_map
  · simp [members, ofConfig]
  · simp [members, ofConfig, Yaml.Lexer.isKey]
  · simp [members, ofConfig, Document.readable_nat, Document.readable_text,
      Overrides.readable_document]

/-- The configuration of a file of the known version with a known preset. -/
theorem ConfigFile.config_eq {f : ConfigFile} {p : Preset} (hversion : f.version = configVersion)
    (hpreset : Preset.ofText? f.preset = some p) :
  f.config = ((f.overrides.getD {}).apply p.config).validate.map
    (fun _ => (f.overrides.getD {}).apply p.config)
  := by
  simp only [ConfigFile.config, hversion, Preset.parse, hpreset, ne_eq, not_true_eq_false, if_false,
    Option.elim_some]
  change ((f.overrides.getD {}).apply p.config).validate >>=
    (fun _ => pure ((f.overrides.getD {}).apply p.config)) = _
  cases ((f.overrides.getD {}).apply p.config).validate <;> rfl

/-- The configuration of a file that is accepted. -/
theorem ConfigFile.eq_of_config {f : ConfigFile} {c : Config} (h : f.config = .ok c) :
  f.version = configVersion ∧ ∃ p, Preset.ofText? f.preset = some p ∧
    c = (f.overrides.getD {}).apply p.config ∧ c.validate = .ok ()
  := by
  by_cases hversion : f.version = configVersion
  · cases hpreset : Preset.ofText? f.preset with
    | none =>
        simp only [ConfigFile.config, hversion, Preset.parse, hpreset, ne_eq, not_true_eq_false,
          if_false, Option.elim_none] at h
        cases h
    | some p =>
        rw [config_eq hversion hpreset] at h
        cases hvalidate : ((f.overrides.getD {}).apply p.config).validate with
        | error e =>
            rw [hvalidate] at h
            cases h
        | ok u =>
            rw [hvalidate] at h
            cases h
            exact ⟨hversion, p, rfl, rfl, hvalidate⟩
  · simp only [ConfigFile.config, hversion, ne_eq, not_false_eq_true, if_true] at h
    cases h

/-- A configuration that is written is read back if it is usable. -/
theorem Config.ofYaml_toYaml (c : Config) :
  ofYaml c.toYaml = c.validate.map (fun _ => c)
  := by
  have hparse : Tree.parse? c.toYaml = some (ConfigFile.ofConfig c).document.toTree :=
    Document.parse?_render (ConfigFile.readable_document c)
  have hpreset : Preset.ofText? Preset.balanced.text = some .balanced := by decide +kernel
  rw [ofYaml, hparse, Option.bind_some, ConfigFile.ofTree?_document]
  apply ConfigFile.config_eq rfl hpreset

/-! ### Accepted files -/

/-- The configuration has the fields that the overrides state, and those of the preset for the
others.  A target that is stated takes the members that it lacks from the default target. -/
structure Config.Settled (c : Config) (p : Preset) (overrides : Option Tree) : Prop where
  maxBacktrackDepth : Tree.Settles (overrides.bind (Tree.stated? "max_backtrack_depth"))
    Tree.uint64? p.config.maxBacktrackDepth c.maxBacktrackDepth
  maxVisitedMethods : Tree.Settles (overrides.bind (Tree.stated? "max_visited_methods"))
    Tree.uint64? p.config.maxVisitedMethods c.maxVisitedMethods
  callerBacktracking : Tree.Settles (overrides.bind (Tree.stated? "caller_backtracking"))
    Tree.bool? p.config.callerBacktracking c.callerBacktracking
  outerClassThreading : Tree.Settles (overrides.bind (Tree.stated? "outer_class_threading"))
    Tree.bool? p.config.outerClassThreading c.outerClassThreading
  maxIterations : Tree.Settles
    ((overrides.bind (Tree.stated? "solver")).bind (Tree.stated? "max_iterations"))
    Tree.uint64? p.config.solver.maxIterations c.solver.maxIterations
  maxFactsPerStmt : Tree.Settles
    ((overrides.bind (Tree.stated? "solver")).bind (Tree.stated? "max_facts_per_stmt"))
    Tree.uint64? p.config.solver.maxFactsPerStmt c.solver.maxFactsPerStmt
  parallel : Tree.Settles (overrides.bind (Tree.stated? "parallel"))
    Tree.bool? p.config.parallel c.parallel
  threads : Tree.Settles (overrides.bind (Tree.stated? "threads"))
    Tree.uint64? p.config.threads c.threads
  target : overrides.bind (Tree.stated? "target") = none → c.target = p.config.target
  owner : Tree.Settles ((overrides.bind (Tree.stated? "target")).bind (Tree.given? "class"))
    Tree.text? ({} : LoadTarget).owner.text c.target.owner.text
  method : Tree.Settles ((overrides.bind (Tree.stated? "target")).bind (Tree.given? "method"))
    Tree.text? ({} : LoadTarget).method c.target.method
  firstParam : Tree.Settles
    ((overrides.bind (Tree.stated? "target")).bind (Tree.given? "first_param"))
    Tree.text? ({} : LoadTarget).firstParam.text c.target.firstParam.text

theorem Config.settled_preset (p : Preset) :
  p.config.Settled p none
  := by
  constructor <;> first | rfl | exact fun _ => rfl

/-- The limits that a solver section states. -/
theorem SolverOverrides.settles {t : Tree} {o : SolverOverrides}
    (h : SolverOverrides.ofTree? t = some o) (s : SolverConfig) :
  Tree.Settles (t.stated? "max_iterations") Tree.uint64? s.maxIterations
      (o.apply s).maxIterations ∧
    Tree.Settles (t.stated? "max_facts_per_stmt") Tree.uint64? s.maxFactsPerStmt
      (o.apply s).maxFactsPerStmt
  := by
  simp only [SolverOverrides.ofTree?, Option.bind_eq_bind, Option.bind_eq_some_iff,
    Option.pure_def, Option.some.injEq] at h
  obtain ⟨ms, hrecord, iterations, hiterations, facts, hfacts, rfl⟩ := h
  have hms := Tree.members?_of_record? hrecord
  exact ⟨Tree.settles_optionalMember? hms hiterations _, Tree.settles_optionalMember? hms hfacts _⟩

/-- The members that a target section states. -/
theorem LoadTarget.settles {t : Tree} {target : LoadTarget}
    (h : LoadTarget.ofTree? t = some target) :
  Tree.Settles (t.given? "class") Tree.text? ({} : LoadTarget).owner.text target.owner.text ∧
    Tree.Settles (t.given? "method") Tree.text? ({} : LoadTarget).method target.method ∧
    Tree.Settles (t.given? "first_param") Tree.text? ({} : LoadTarget).firstParam.text
      target.firstParam.text
  := by
  simp only [LoadTarget.ofTree?, Option.bind_eq_bind, Option.bind_eq_some_iff,
    Option.pure_def, Option.some.injEq] at h
  obtain ⟨ms, hrecord, owner, howner, method, hmethod, param, hparam, rfl⟩ := h
  have hms := Tree.members?_of_openRecord? hrecord
  have hname (o : Option String) (name : ClassName) :
      ((o.map ClassName.mk).getD name).text = o.getD name.text := by
    cases o <;> rfl
  simp only [hname]
  exact ⟨Tree.settles_member? hms howner _, Tree.settles_member? hms hmethod _,
    Tree.settles_member? hms hparam _⟩

theorem Overrides.settled {t : Tree} {o : Overrides} (h : Overrides.ofTree? t = some o)
    (p : Preset) :
  (o.apply p.config).Settled p (some t)
  := by
  simp only [Overrides.ofTree?, Option.bind_eq_bind, Option.bind_eq_some_iff,
    Option.pure_def, Option.some.injEq] at h
  obtain ⟨ms, hrecord, depth, hdepth, visited, hvisited, callers, hcallers, outer, houter, solver,
    hsolver, parallel, hparallel, threads, hthreads, target, htarget, rfl⟩ := h
  have hms := Tree.members?_of_record? hrecord
  obtain ⟨hiterations, hfacts⟩ : Tree.Settles ((t.stated? "solver").bind
        (Tree.stated? "max_iterations")) Tree.uint64? p.config.solver.maxIterations
        ((solver.getD {}).apply p.config.solver).maxIterations ∧
      Tree.Settles ((t.stated? "solver").bind (Tree.stated? "max_facts_per_stmt")) Tree.uint64?
        p.config.solver.maxFactsPerStmt
        ((solver.getD {}).apply p.config.solver).maxFactsPerStmt := by
    rcases Tree.optionalMember?_eq_some hms hsolver with ⟨hnone, rfl⟩ | ⟨v, a, hv, ha, rfl⟩
    · rw [hnone]
      exact ⟨rfl, rfl⟩
    · rw [hv]
      apply SolverOverrides.settles ha
  have htargets : (t.stated? "target" = none → target.getD p.config.target = p.config.target) ∧
      Tree.Settles ((t.stated? "target").bind (Tree.given? "class")) Tree.text?
        ({} : LoadTarget).owner.text (target.getD p.config.target).owner.text ∧
      Tree.Settles ((t.stated? "target").bind (Tree.given? "method")) Tree.text?
        ({} : LoadTarget).method (target.getD p.config.target).method ∧
      Tree.Settles ((t.stated? "target").bind (Tree.given? "first_param")) Tree.text?
        ({} : LoadTarget).firstParam.text (target.getD p.config.target).firstParam.text := by
    rcases Tree.optionalMember?_eq_some hms htarget with ⟨hnone, rfl⟩ | ⟨v, a, hv, ha, rfl⟩
    · rw [hnone]
      exact ⟨fun _ => rfl, rfl, rfl, rfl⟩
    · rw [hv]
      exact ⟨fun hnone => absurd hnone (Option.some_ne_none v), LoadTarget.settles ha⟩
  obtain ⟨hpreset, howner, hmethod, hparam⟩ := htargets
  exact {
    maxBacktrackDepth := Tree.settles_optionalMember? hms hdepth _
    maxVisitedMethods := Tree.settles_optionalMember? hms hvisited _
    callerBacktracking := Tree.settles_optionalMember? hms hcallers _
    outerClassThreading := Tree.settles_optionalMember? hms houter _
    maxIterations := hiterations
    maxFactsPerStmt := hfacts
    parallel := Tree.settles_optionalMember? hms hparallel _
    threads := Tree.settles_optionalMember? hms hthreads _
    target := hpreset
    owner := howner
    method := hmethod
    firstParam := hparam }

/-- What a file says of its version, its preset and its overrides. -/
theorem ConfigFile.settled {t : Tree} {f : ConfigFile} (h : ConfigFile.ofTree? t = some f)
    (p : Preset) :
  (t.given? "version").bind Tree.uint32? = some f.version ∧
    Tree.Settles (t.given? "preset") Tree.text? Preset.balanced.text f.preset ∧
    ((f.overrides.getD {}).apply p.config).Settled p (t.stated? "overrides")
  := by
  simp only [ConfigFile.ofTree?, Option.bind_eq_bind, Option.bind_eq_some_iff,
    Option.pure_def, Option.some.injEq] at h
  obtain ⟨ms, hrecord, version, hversion, n, hn, preset, hpreset, overrides, hoverrides, rfl⟩ := h
  have hms := Tree.members?_of_record? hrecord
  refine ⟨?_, Tree.settles_member? hms hpreset _, ?_⟩
  · rcases Tree.member?_eq_some hms hversion with ⟨-, rfl⟩ | ⟨v, n', hv, hn', rfl⟩
    · cases hn
    · rw [hv, Option.bind_some, hn']
      exact hn
  · rcases Tree.optionalMember?_eq_some hms hoverrides with ⟨hnone, rfl⟩ | ⟨v, a, hv, ha, rfl⟩
    · rw [hnone]
      apply Config.settled_preset
    · rw [hv]
      apply Overrides.settled ha

/-- Every configuration is read back from the file that is written for it, or the file is refused
for what is wrong with the configuration.  A file that is accepted has the known version and a known
preset, and gives a usable configuration of the fields that it overrides and those of the preset. -/
theorem Config.files_round_trip :
  (∀ c : Config, ofYaml c.toYaml = c.validate.map (fun _ => c)) ∧
    ∀ (s : String) (c : Config), ofYaml s = .ok c →
      ∃ t name p, Tree.parse? s = some t ∧
        (t.given? "version").bind Tree.uint32? = some configVersion ∧
        Tree.Settles (t.given? "preset") Tree.text? Preset.balanced.text name ∧
        Preset.ofText? name = some p ∧ c.Settled p (t.stated? "overrides") ∧ c.validate = .ok ()
  := by
  refine ⟨ofYaml_toYaml, ?_⟩
  intro s c h
  rw [ofYaml] at h
  split at h
  · next f hf =>
      obtain ⟨t, ht, hf⟩ := Option.bind_eq_some_iff.1 hf
      obtain ⟨hversion, p, hpreset, rfl, hvalid⟩ := ConfigFile.eq_of_config h
      obtain ⟨hgiven, hname, hsettled⟩ := ConfigFile.settled hf p
      rw [hversion] at hgiven
      exact ⟨t, f.preset, p, ht, hgiven, hname, hpreset, hsettled, hvalid⟩
  · cases h

/-- A file that overrides one limit of the solver and one member of the target. -/
def ConfigFile.partialDocument : Document :=
  .map [("version", .nat 1), ("preset", .text "fast"), ("overrides",
    .map [("solver", .map [("max_iterations", .uint64 5)]),
      ("target", .map [("method", .text "find")])])]

theorem ConfigFile.readable_partialDocument :
  partialDocument.Readable
  := by
  have hsolver : (Document.map [("max_iterations", .uint64 5)]).Readable := by
    apply Document.readable_map (List.cons_ne_nil _ _)
    · simp [Yaml.Lexer.isKey]
    · simp [Document.uint64, Document.readable_nat]
  have htarget : (Document.map [("method", .text "find")]).Readable := by
    apply Document.readable_map (List.cons_ne_nil _ _)
    · simp [Yaml.Lexer.isKey]
    · simp [Document.readable_text]
  have hoverrides : (Document.map [("solver", .map [("max_iterations", .uint64 5)]),
      ("target", .map [("method", .text "find")])]).Readable := by
    apply Document.readable_map (List.cons_ne_nil _ _)
    · simp [Yaml.Lexer.isKey]
    · simp [hsolver, htarget]
  apply Document.readable_map (List.cons_ne_nil _ _)
  · simp [Yaml.Lexer.isKey]
  · simp [Document.readable_nat, Document.readable_text, hoverrides]

/-- The configuration of that file. -/
def Config.ofPartialDocument : Config :=
  { Preset.fast.config with solver := ⟨5, 64⟩, target := { method := "find" } }

theorem Config.ofYaml_partialDocument :
  ofYaml ConfigFile.partialDocument.render = .ok ofPartialDocument
  := by
  have hparse : Tree.parse? ConfigFile.partialDocument.render =
      some ConfigFile.partialDocument.toTree :=
    Document.parse?_render ConfigFile.readable_partialDocument
  let f : ConfigFile :=
    ⟨1, "fast", some { solver := some ⟨some 5, none⟩, target := some { method := "find" } }⟩
  have hfile : ConfigFile.ofTree? ConfigFile.partialDocument.toTree = some f := by decide
  have hpreset : Preset.ofText? f.preset = some .fast := by decide +kernel
  have hconfig : f.config = .ok ofPartialDocument := ConfigFile.config_eq rfl hpreset
  rw [ofYaml, hparse, Option.bind_some, hfile]
  exact hconfig

theorem Config.files_round_trip_partial :
  ∃ t name p, Tree.parse? ConfigFile.partialDocument.render = some t ∧
    (t.given? "version").bind Tree.uint32? = some configVersion ∧
    Tree.Settles (t.given? "preset") Tree.text? Preset.balanced.text name ∧
    Preset.ofText? name = some p ∧ ofPartialDocument.Settled p (t.stated? "overrides") ∧
    ofPartialDocument.validate = .ok ()
  := files_round_trip.2 _ _ ofYaml_partialDocument

end ServiceFlow
