import ServiceFlow.Config.Basic
import ServiceFlow.Yaml.Decode
import ServiceFlow.Yaml.Document

/-!
# Configuration files

A configuration file is a YAML document that names a preset and overrides some of its fields.  A
written file overrides all of them.
-/

namespace ServiceFlow

open Yaml (Tree Document)

/-- The limits that replace those of a preset. -/
structure SolverOverrides where
  maxIterations : Option UInt64 := none
  maxFactsPerStmt : Option UInt64 := none
deriving DecidableEq, Inhabited

/-- The fields that replace those of a preset. -/
structure Overrides where
  maxBacktrackDepth : Option UInt64 := none
  maxVisitedMethods : Option UInt64 := none
  callerBacktracking : Option Bool := none
  outerClassThreading : Option Bool := none
  solver : Option SolverOverrides := none
  parallel : Option Bool := none
  threads : Option UInt64 := none
  target : Option LoadTarget := none
deriving DecidableEq, Inhabited

/-- The content of a configuration file. -/
structure ConfigFile where
  version : UInt32
  preset : String
  overrides : Option Overrides
deriving DecidableEq, Inhabited

/-! ### The configuration of a file -/

def SolverOverrides.apply (o : SolverOverrides) (s : SolverConfig) : SolverConfig where
  maxIterations := o.maxIterations.getD s.maxIterations
  maxFactsPerStmt := o.maxFactsPerStmt.getD s.maxFactsPerStmt

/-- The configuration with the fields that the overrides give. -/
def Overrides.apply (o : Overrides) (c : Config) : Config where
  maxBacktrackDepth := o.maxBacktrackDepth.getD c.maxBacktrackDepth
  maxVisitedMethods := o.maxVisitedMethods.getD c.maxVisitedMethods
  callerBacktracking := o.callerBacktracking.getD c.callerBacktracking
  outerClassThreading := o.outerClassThreading.getD c.outerClassThreading
  solver := (o.solver.getD {}).apply c.solver
  parallel := o.parallel.getD c.parallel
  threads := o.threads.getD c.threads
  target := o.target.getD c.target

/-- The configuration that a file describes, which must be usable. -/
def ConfigFile.config (f : ConfigFile) : Except ConfigError Config := do
  if f.version ≠ configVersion then throw (.unsupportedVersion f.version)
  let preset ← Preset.parse f.preset
  let c := (f.overrides.getD {}).apply preset.config
  c.validate
  return c

/-- The overrides that replace both limits. -/
def SolverOverrides.ofConfig (s : SolverConfig) : SolverOverrides where
  maxIterations := some s.maxIterations
  maxFactsPerStmt := some s.maxFactsPerStmt

/-- The overrides that replace every field. -/
def Overrides.ofConfig (c : Config) : Overrides where
  maxBacktrackDepth := some c.maxBacktrackDepth
  maxVisitedMethods := some c.maxVisitedMethods
  callerBacktracking := some c.callerBacktracking
  outerClassThreading := some c.outerClassThreading
  solver := some (.ofConfig c.solver)
  parallel := some c.parallel
  threads := some c.threads
  target := some c.target

/-- The file that overrides every field. -/
def ConfigFile.ofConfig (c : Config) : ConfigFile where
  version := configVersion
  preset := Preset.balanced.text
  overrides := some (.ofConfig c)

/-! ### Reading -/

def LoadTarget.fields : List String := ["class", "method", "first_param"]

/-- Members that are left out are those of the default target, and other members are passed
over. -/
def LoadTarget.ofTree? (t : Tree) : Option LoadTarget := do
  let ms ← t.openRecord? fields
  let owner ← Tree.member? "class" Tree.text? ms
  let method ← Tree.member? "method" Tree.text? ms
  let firstParam ← Tree.member? "first_param" Tree.text? ms
  let default : LoadTarget := {}
  return ⟨(owner.map ClassName.mk).getD default.owner, method.getD default.method,
    (firstParam.map ClassName.mk).getD default.firstParam⟩

def SolverOverrides.fields : List String := ["max_iterations", "max_facts_per_stmt"]

def SolverOverrides.ofTree? (t : Tree) : Option SolverOverrides := do
  let ms ← t.record? fields
  let maxIterations ← Tree.optionalMember? "max_iterations" Tree.uint64? ms
  let maxFactsPerStmt ← Tree.optionalMember? "max_facts_per_stmt" Tree.uint64? ms
  return ⟨maxIterations, maxFactsPerStmt⟩

def Overrides.fields : List String :=
  ["max_backtrack_depth", "max_visited_methods", "caller_backtracking", "outer_class_threading",
    "solver", "parallel", "threads", "target"]

def Overrides.ofTree? (t : Tree) : Option Overrides := do
  let ms ← t.record? fields
  let maxBacktrackDepth ← Tree.optionalMember? "max_backtrack_depth" Tree.uint64? ms
  let maxVisitedMethods ← Tree.optionalMember? "max_visited_methods" Tree.uint64? ms
  let callerBacktracking ← Tree.optionalMember? "caller_backtracking" Tree.bool? ms
  let outerClassThreading ← Tree.optionalMember? "outer_class_threading" Tree.bool? ms
  let solver ← Tree.optionalMember? "solver" SolverOverrides.ofTree? ms
  let parallel ← Tree.optionalMember? "parallel" Tree.bool? ms
  let threads ← Tree.optionalMember? "threads" Tree.uint64? ms
  let target ← Tree.optionalMember? "target" LoadTarget.ofTree? ms
  return ⟨maxBacktrackDepth, maxVisitedMethods, callerBacktracking, outerClassThreading, solver,
    parallel, threads, target⟩

def ConfigFile.fields : List String := ["version", "preset", "overrides"]

/-- A file states its version; without a preset it has the balanced one. -/
def ConfigFile.ofTree? (t : Tree) : Option ConfigFile := do
  let ms ← t.record? fields
  let version ← (← Tree.member? "version" Tree.uint32? ms)
  let preset ← Tree.member? "preset" Tree.text? ms
  let overrides ← Tree.optionalMember? "overrides" Overrides.ofTree? ms
  return ⟨version, preset.getD Preset.balanced.text, overrides⟩

/-- The configuration that the text of a file describes. -/
def Config.ofYaml (s : String) : Except ConfigError Config :=
  match (Tree.parse? s).bind ConfigFile.ofTree? with
  | some f => f.config
  | none => .error .unreadable

/-! ### Writing -/

def LoadTarget.members (t : LoadTarget) : List (String × Document) :=
  [("class", .text t.owner.text), ("method", .text t.method),
    ("first_param", .text t.firstParam.text)]

def LoadTarget.document (t : LoadTarget) : Document := .map t.members

def SolverOverrides.members (o : SolverOverrides) : List (String × Document) :=
  Document.optional "max_iterations" .uint64 o.maxIterations
    ++ Document.optional "max_facts_per_stmt" .uint64 o.maxFactsPerStmt

def SolverOverrides.document (o : SolverOverrides) : Document := .map o.members

def Overrides.members (o : Overrides) : List (String × Document) :=
  Document.optional "max_backtrack_depth" .uint64 o.maxBacktrackDepth
    ++ Document.optional "max_visited_methods" .uint64 o.maxVisitedMethods
    ++ Document.optional "caller_backtracking" .bool o.callerBacktracking
    ++ Document.optional "outer_class_threading" .bool o.outerClassThreading
    ++ Document.optional "solver" SolverOverrides.document o.solver
    ++ Document.optional "parallel" .bool o.parallel
    ++ Document.optional "threads" .uint64 o.threads
    ++ Document.optional "target" LoadTarget.document o.target

def Overrides.document (o : Overrides) : Document := .map o.members

def ConfigFile.members (f : ConfigFile) : List (String × Document) :=
  [("version", .nat f.version.toNat), ("preset", .text f.preset)]
    ++ Document.optional "overrides" Overrides.document f.overrides

def ConfigFile.document (f : ConfigFile) : Document := .map f.members

/-- The text of the file that overrides every field. -/
def Config.toYaml (c : Config) : String := (ConfigFile.ofConfig c).document.render

end ServiceFlow
