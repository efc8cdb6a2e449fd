import ServiceFlow.Cli.Command
import ServiceFlow.Cli.Host
import ServiceFlow.Config.File
import ServiceFlow.Json.Writer
import ServiceFlow.Resolve.Batch
import ServiceFlow.Resolve.Report

/-!
# Running commands

A command reads its files, prints or writes its results, and ends with a code: zero for success,
one for a failure, two for arguments that make up no command.
-/

namespace ServiceFlow.Cli

/-! ### Failures -/

/-- What went wrong, and what was behind it. -/
structure Failure where
  message : String
  causes : List String := []
deriving DecidableEq, Inhabited

namespace Failure

/-- A text behind a mark, its further lines as deep as the first. -/
def hanging (mark : String) (s : String) : String :=
  mark ++ ("\n" ++ String.ofList (List.replicate mark.length ' ')).intercalate (s.splitOn "\n")

/-- The causes, numbered if there are several. -/
def causeLines : List String → List String
  | [cause] => [hanging "    " cause]
  | causes => causes.mapIdx (fun i cause => hanging ("    " ++ toString i ++ ": ") cause)

def text (f : Failure) : String :=
  let causes := if f.causes.isEmpty then []
    else ["", "Caused by:"] ++ causeLines f.causes
  "".intercalate ((("Error: " ++ f.message) :: causes).map (· ++ "\n"))

/-- A failure as the cause of another. -/
def behind (context : String) (f : Failure) : Failure := ⟨context, f.message :: f.causes⟩

/-- A failure of the machine. -/
def ofFile (e : FileError) : Failure := ⟨"IO error: " ++ e.message, [e.message]⟩

def ofConfig (e : ConfigError) : Failure :=
  match e with
  | .unreadable => ⟨e.message, [ConfigError.unreadableDetail]⟩
  | _ => ⟨e.message, []⟩

def ofClassSet (e : ClassSetError) : Failure :=
  match e with
  | .notAnArray => ⟨e.message, [ClassSetError.notAnArrayDetail]⟩
  | .unnamed _ => ⟨e.message, []⟩

end Failure

/-! ### Results -/

/-- The summary of a batch. -/
def summary (b : Batch) (elapsed : Nat) : String :=
  let c := b.counters
  "".intercalate ([
    "Constant calls: " ++ toString c.literal,
    "Dataflow calls: " ++ toString c.dataflow,
    "Unresolved calls: " ++ toString c.unresolved,
    "Solver failures: " ++ toString c.solverFailures,
    "Classes: " ++ toString b.analyzedCount ++ " analyzed, " ++ toString b.skippedCount
      ++ " skipped (" ++ toString elapsed ++ " ms)"]
    ++ b.skipped.map (fun s => "  skipped " ++ s.cls.text ++ ": " ++ s.error.message)
    |>.map (· ++ "\n"))

/-! ### Commands -/

variable {m : Type → Type} [Monad m]

/-- A run that may fail. -/
abbrev Attempt (m : Type → Type) := ExceptT Failure m

/-- Goes on with a result, or fails. -/
def settle {ε α : Type} (failure : ε → Failure) (r : Except ε α) : Attempt m α :=
  ExceptT.mk (pure (r.mapError failure))

/-- Fails as a consequence of what an attempt fails with. -/
def within {α : Type} (context : String) (a : Attempt m α) : Attempt m α :=
  ExceptT.mk (do return (← a.run).mapError (Failure.behind context))

def readFile (host : Host m) (path : String) : Attempt m String := do
  settle Failure.ofFile (← host.read path)

def presetConfig (name : String) : Attempt m Config := do
  let p ← settle Failure.ofConfig (Preset.parse name)
  return p.config

def fileConfig (host : Host m) (path : String) : Attempt m Config :=
  within ("loading config " ++ path) do
    settle Failure.ofConfig (Config.ofYaml (← readFile host path))

def readPool (host : Host m) (path : String) : Attempt m ClassPool :=
  within ("reading class set " ++ path) do
    settle Failure.ofClassSet (ClassPool.ofJsonText (← readFile host path))

/-- Goes on after an action on a report, or fails. -/
def settleReport (r : Except FileError Unit) : Attempt m Unit :=
  settle (fun e => ⟨e.message, []⟩) r

/-- Writes a report as far as there is room for it.  Only its file must find a place. -/
def writeFailedReport (host : Host m) (path text : String) : Attempt m Unit := do
  within ("creating " ++ path) do settleReport (← host.create path)
  let _ ← host.write path text

/-- Writes a report that must be written. -/
def writeResolvedReport (host : Host m) (path text : String) : Attempt m Unit := do
  settleReport (← host.write path text)

def AnalyzeOptions.perform (host : Host m) (o : AnalyzeOptions) : Attempt m Unit := do
  let config ← match o.config with
    | some path => fileConfig host path
    | none => presetConfig o.preset
  let config := { config with parallel := config.parallel && !o.sequential }
  let pool ← readPool host o.input
  let now ← host.now
  let begun ← host.clock
  let classes := if o.classes.isEmpty then pool.names else o.classes.map ClassName.mk
  let batch := Batch.run pool config classes
  let failed := Report.failed now batch.diagnostics
  match o.report with
  | some path => writeFailedReport host path failed
  | none => host.tell failed
  let elapsed := (← host.clock) - begun
  let resolved := Report.resolved batch.analyses
  match o.resolved with
  | some path => writeResolvedReport host path resolved
  | none => if !o.json then host.print resolved
  if o.json then host.print ((batch.encode elapsed).pretty ++ "\n")
  else host.tell (summary batch elapsed)

def ConfigOptions.perform (host : Host m) (o : ConfigOptions) : Attempt m Unit := do
  let text := (← presetConfig o.preset).toYaml
  match o.output with
  | some path => settle Failure.ofFile (← host.write path text)
  | none => host.print text

def Command.perform (host : Host m) : Command → Attempt m Unit
  | .analyze o => o.perform host
  | .config o => o.perform host

/-- Runs the program under a name with its arguments, and gives its code. -/
def run (host : Host m) (program : String) (args : List String) : m UInt32 := do
  match Command.parse program args with
  | .ok command =>
      match ← (command.perform host).run with
      | .ok () => return 0
      | .error f =>
          host.tell f.text
          return 1
  | .error (.help text) =>
      host.print text
      return 0
  | .error .misuse =>
      host.tell (programHelp program)
      return 2

end ServiceFlow.Cli
