import ServiceFlow.Cli.Flag
import ServiceFlow.Config.Basic

/-!
# Commands

The two commands of the program: to analyse a set of classes, and to write a configuration file.
-/

namespace ServiceFlow.Cli

/-- What to analyse and where the results go. -/
structure AnalyzeOptions where
  input : String
  /-- The configuration file that takes the place of the preset. -/
  config : Option String
  preset : String
  report : Option String
  resolved : Option String
  classes : List String
  sequential : Bool
  json : Bool
deriving DecidableEq, Inhabited

/-- What a configuration file is made from, and where it goes. -/
structure ConfigOptions where
  preset : String
  output : Option String
deriving DecidableEq, Inhabited

/-- A command with the values of its flags. -/
inductive Command where
  | analyze (options : AnalyzeOptions)
  | config (options : ConfigOptions)
deriving DecidableEq, Inhabited

/-! ### Flags -/

def analyzeFlags : List Flag := [
  { name := "input", letter := some 'i', value := some "INPUT", isPath := true, required := true
    about := "JSON array of class documents" },
  { name := "config", letter := some 'c', value := some "CONFIG", isPath := true
    about := "YAML config file (overrides --preset)" },
  { name := "preset", value := some "PRESET", default := some Preset.balanced.text
    about := "Preset: fast, balanced, thorough" },
  { name := "report", value := some "REPORT", isPath := true
    about := "Failed-propagation report (stderr if absent)" },
  { name := "resolved", value := some "RESOLVED", isPath := true
    about := "Resolved-call report (stdout if absent)" },
  { name := "class", value := some "CLASSES", repeatable := true
    about := "Only analyze these classes" },
  { name := "sequential", about := "Disable the thread pool" },
  { name := "json", about := "Print the full result as JSON instead of the summary" }]

def configFlags : List Flag := [
  { name := "preset", value := some "PRESET", default := some Preset.balanced.text },
  { name := "output", letter := some 'o', value := some "OUTPUT", isPath := true
    about := "Output file (stdout if absent)" }]

/-! ### Help -/

def analyzeAbout : String := "Analyze a JSON class set"

def configAbout : String := "Write the YAML config of a preset"

def helpAbout : String := "Print this message or the help of the given subcommand(s)"

def analyzeHelp (program : String) : String :=
  analyzeAbout ++ "\n\nUsage: " ++ program ++ " analyze [OPTIONS] --input <INPUT>\n\nOptions:\n"
    ++ flagLines analyzeFlags

def configHelp (program : String) : String :=
  configAbout ++ "\n\nUsage: " ++ program ++ " config [OPTIONS]\n\nOptions:\n"
    ++ flagLines configFlags

def helpHelp (program : String) : String :=
  helpAbout ++ "\n\nUsage: " ++ program ++ " help [COMMAND]...\n\nArguments:\n"
    ++ columns [("[COMMAND]...", "Print help for the subcommand(s)")]

def programHelp (program : String) : String :=
  "Resolve dynamic service-loading arguments in JVM bytecode IR\n\nUsage: " ++ program
    ++ " <COMMAND>\n\nCommands:\n"
    ++ columns [("analyze", analyzeAbout), ("config", configAbout), ("help", helpAbout)]
    ++ "\nOptions:\n" ++ flagLines []

/-! ### Reading -/

def AnalyzeOptions.ofSettings (settings : List Setting) : AnalyzeOptions where
  input := (Setting.value? "input" settings).getD ""
  config := Setting.value? "config" settings
  preset := (Setting.value? "preset" settings).getD Preset.balanced.text
  report := Setting.value? "report" settings
  resolved := Setting.value? "resolved" settings
  classes := Setting.values "class" settings
  sequential := Setting.isGiven "sequential" settings
  json := Setting.isGiven "json" settings

def ConfigOptions.ofSettings (settings : List Setting) : ConfigOptions where
  preset := (Setting.value? "preset" settings).getD Preset.balanced.text
  output := Setting.value? "output" settings

/-- The help that the words behind the command for help ask for. -/
def helpOn (program : String) : List String → Refusal
  | [] => .help (programHelp program)
  | ["analyze"] => .help (analyzeHelp program)
  | ["config"] => .help (configHelp program)
  | ["help"] => .help (helpHelp program)
  | _ => .misuse

/-- The command that the arguments make up. -/
def Command.parse (program : String) : List String → Except Refusal Command
  | "analyze" :: args =>
      (Flag.read analyzeFlags (analyzeHelp program) args).map (fun s => .analyze (.ofSettings s))
  | "config" :: args =>
      (Flag.read configFlags (configHelp program) args).map (fun s => .config (.ofSettings s))
  | "help" :: args => .error (helpOn program args)
  | args => (Flag.read [] (programHelp program) args).bind (fun _ => .error .misuse)

end ServiceFlow.Cli
