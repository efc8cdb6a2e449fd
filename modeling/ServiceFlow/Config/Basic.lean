import ServiceFlow.Load.Target
import ServiceFlow.Tabulation.Problem

/-!
# Configurations

The bounds and switches of an analysis, the presets to start from, and the ranges that the values
of a usable configuration keep to.
-/

namespace ServiceFlow

/-- Bounds for a run of the solver. -/
structure SolverConfig where
  maxIterations : UInt64
  maxFactsPerStmt : UInt64
deriving DecidableEq, Inhabited

/-- What an analysis looks for, and how far it goes to find it. -/
structure Config where
  /-- How long the chains of callers are. -/
  maxBacktrackDepth : UInt64
  /-- How many methods a search among the callers visits. -/
  maxVisitedMethods : UInt64
  /-- Whether the callers of a method are searched. -/
  callerBacktracking : Bool
  /-- Whether the constructions of an inner class by its outer class are used. -/
  outerClassThreading : Bool
  solver : SolverConfig
  /-- Whether classes are analysed at the same time; the result is the same. -/
  parallel : Bool
  /-- How many threads to use; none stands for as many as fit the machine. -/
  threads : UInt64
  target : LoadTarget
deriving DecidableEq, Inhabited

def SolverConfig.limits (s : SolverConfig) : Tabulation.Limits :=
  ⟨s.maxIterations.toNat, s.maxFactsPerStmt.toNat⟩

/-! ### Presets -/

/-- A configuration with a name. -/
inductive Preset where
  | fast
  | balanced
  | thorough
deriving DecidableEq, Inhabited

namespace Preset

def all : List Preset := [fast, balanced, thorough]

def text : Preset → String
  | .fast => "fast"
  | .balanced => "balanced"
  | .thorough => "thorough"

/-- The preset of a name in small or capital letters. -/
def ofText? (s : String) : Option Preset := all.find? (fun p => p.text = s.toLower)

def solver : Preset → SolverConfig
  | .fast => ⟨10000, 64⟩
  | .balanced => ⟨200000, 512⟩
  | .thorough => ⟨2000000, 4096⟩

def depth : Preset → UInt64
  | .fast => 1
  | .balanced => 8
  | .thorough => 32

def visited : Preset → UInt64
  | .fast => 32
  | .balanced => 512
  | .thorough => 8192

/-- Whether a call is followed beyond its own method. -/
def escalates : Preset → Bool
  | .fast => false
  | .balanced => true
  | .thorough => true

/-- The configuration of a preset looks for the default target. -/
def config (p : Preset) : Config where
  maxBacktrackDepth := p.depth
  maxVisitedMethods := p.visited
  callerBacktracking := p.escalates
  outerClassThreading := p.escalates
  solver := p.solver
  parallel := true
  threads := 0
  target := {}

end Preset

/-! ### Errors -/

/-- Why there is no usable configuration. -/
inductive ConfigError where
  /-- The value of a field is outside of its range. -/
  | range (field : String) (value : UInt64) (min max : Nat) (hint : String)
  | unknownPreset (name : String)
  | unsupportedVersion (found : UInt32)
  /-- The text is not a configuration file. -/
  | unreadable
  /-- The load target has an empty part. -/
  | emptyTarget
deriving DecidableEq, Inhabited

/-- The version of configuration files. -/
def configVersion : UInt32 := 1

/-- What is wrong with a text that is not a configuration file. -/
def ConfigError.unreadableDetail : String := "not a configuration file"

def ConfigError.message : ConfigError → String
  | .range field value min max hint =>
      "Invalid range for field '" ++ field ++ "': " ++ toString value.toNat ++ " not in "
        ++ toString min ++ "..=" ++ toString max ++ ". " ++ hint
  | .unknownPreset name =>
      "Unknown preset '" ++ name ++ "'. Valid presets: fast, balanced, thorough"
  | .unsupportedVersion found =>
      "Unsupported configuration version " ++ toString found.toNat ++ ". Supported versions: "
        ++ toString configVersion.toNat
  | .unreadable => "YAML parsing error: " ++ unreadableDetail
  | .emptyTarget =>
      "Validation error: dynamic load target needs a class, a method and a first parameter type"

def Preset.parse (s : String) : Except ConfigError Preset :=
  (ofText? s).elim (.error (.unknownPreset s)) .ok

/-! ### Validation -/

/-- The range that a field keeps to. -/
structure FieldRange where
  field : String
  min : Nat
  max : Nat
  hint : String

namespace FieldRange

def backtrackDepth : FieldRange :=
  ⟨"max_backtrack_depth", 1, 256, "Backtracking depth must be at least 1"⟩

def visitedMethods : FieldRange :=
  ⟨"max_visited_methods", 1, 100000,
    "The visited-method bound guarantees termination on cyclic call graphs"⟩

def threads : FieldRange := ⟨"threads", 0, 1024, "Use 0 for automatic sizing"⟩

def iterations : FieldRange :=
  ⟨"solver.max_iterations", 1, 10000000, "Solver iterations must be finite"⟩

def factsPerStmt : FieldRange :=
  ⟨"solver.max_facts_per_stmt", 1, 100000, "Each statement needs room for at least one fact"⟩

/-- Refuses a value outside the range. -/
def check (r : FieldRange) (value : UInt64) : Except ConfigError Unit :=
  if r.min ≤ value.toNat && value.toNat ≤ r.max then .ok ()
  else .error (.range r.field value r.min r.max r.hint)

end FieldRange

/-- All parts of a target have to be stated. -/
def LoadTarget.validate (t : LoadTarget) : Except ConfigError Unit :=
  if t.owner.text.isEmpty || t.method.isEmpty || t.firstParam.text.isEmpty then
    .error .emptyTarget
  else .ok ()

def SolverConfig.validate (s : SolverConfig) : Except ConfigError Unit := do
  FieldRange.iterations.check s.maxIterations
  FieldRange.factsPerStmt.check s.maxFactsPerStmt

/-- The checks of a configuration, in this order. -/
def Config.validate (c : Config) : Except ConfigError Unit := do
  FieldRange.backtrackDepth.check c.maxBacktrackDepth
  FieldRange.visitedMethods.check c.maxVisitedMethods
  FieldRange.threads.check c.threads
  c.solver.validate
  c.target.validate

end ServiceFlow
