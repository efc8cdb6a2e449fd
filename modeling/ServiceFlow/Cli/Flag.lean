/-!
# Flags of a command line

A flag has a name behind two hyphens, or a letter behind one.  It may take a value, which stands
behind an equals sign or as the next argument.  Flags are read from left to right up to the first
that asks for help or is wrong.
-/

namespace ServiceFlow.Cli

/-- A flag that a command knows. -/
structure Flag where
  name : String
  letter : Option Char := none
  /-- What the help calls its value, if it takes one. -/
  value : Option String := none
  /-- The value is a path, which must not be empty. -/
  isPath : Bool := false
  /-- The flag may be given more than once. -/
  repeatable : Bool := false
  /-- The flag has to be given. -/
  required : Bool := false
  /-- The value that is used if none is given. -/
  default : Option String := none
  about : String := ""

/-- Why the arguments make up no command. -/
inductive Refusal where
  /-- The arguments ask for a text of help. -/
  | help (text : String)
  | misuse
deriving DecidableEq, Inhabited

/-- A flag that was given, by its name, and its value. -/
abbrev Setting := String × String

namespace Setting

/-- The value of a flag that is given once at most. -/
def value? (name : String) (settings : List Setting) : Option String :=
  (settings.find? (fun s => s.1 = name)).map (fun s => s.2)

/-- The values of a flag in their order. -/
def values (name : String) (settings : List Setting) : List String :=
  (settings.filter (fun s => s.1 = name)).map (fun s => s.2)

def isGiven (name : String) (settings : List Setting) : Bool := (value? name settings).isSome

end Setting

/-! ### Arguments -/

/-- An argument by its form. -/
inductive Argument where
  /-- A name behind two hyphens, with the text behind an equals sign. -/
  | long (name : String) (attached : Option String)
  /-- A letter behind one hyphen, with the text that follows it. -/
  | short (letter : Char) (attached : Option String)
  /-- Two hyphens alone. -/
  | divider
  | word

namespace Argument

/-- The part before the first equals sign, and the part behind it. -/
def splitValue (cs : List Char) : String × Option String :=
  let name := String.ofList (cs.takeWhile (· ≠ '='))
  match cs.dropWhile (· ≠ '=') with
  | [] => (name, none)
  | _ :: value => (name, some (String.ofList value))

def ofText (s : String) : Argument :=
  match s.toList with
  | ['-', '-'] => .divider
  | '-' :: '-' :: cs =>
      let (name, attached) := splitValue cs
      .long name attached
  | ['-', c] => .short c none
  | '-' :: c :: '=' :: cs => .short c (some (String.ofList cs))
  | '-' :: c :: cs => .short c (some (String.ofList cs))
  | _ => .word

/-- The argument can stand as the value of a flag. -/
def isWord (s : String) : Bool :=
  match ofText s with
  | .word => true
  | _ => false

end Argument

/-! ### Reading -/

namespace Flag

/-- Adds a flag with its value to those given before. -/
def give (f : Flag) (value : String) (settings : List Setting) : Except Refusal (List Setting) :=
  if (Setting.isGiven f.name settings && !f.repeatable) || (f.isPath && value.isEmpty) then
    .error .misuse
  else .ok (settings ++ [(f.name, value)])

/-- Reads the arguments behind a flag that waits for its value, or behind none. -/
def readAll (flags : List Flag) (help : String) :
    Option Flag → List Setting → List String → Except Refusal (List Setting)
  | some _, _, [] => .error .misuse
  | some f, settings, arg :: args =>
      if Argument.isWord arg then
        (f.give arg settings).bind (fun settings => readAll flags help none settings args)
      else .error .misuse
  | none, settings, [] => .ok settings
  | none, settings, arg :: args =>
      let start := fun (f : Flag) (attached : Option String) =>
        match f.value, attached with
        | none, some _ => .error .misuse
        | some _, none => readAll flags help (some f) settings args
        | _, _ =>
            (f.give (attached.getD "") settings).bind
              (fun settings => readAll flags help none settings args)
      match Argument.ofText arg with
      | .long name attached =>
          if name = "help" && attached.isNone then .error (.help help)
          else (flags.find? (fun f => f.name = name)).elim (.error .misuse) (start · attached)
      | .short letter attached =>
          if letter = 'h' then .error (.help help)
          else
            (flags.find? (fun f => f.letter = some letter)).elim (.error .misuse) (start · attached)
      | .divider => if args.isEmpty then .ok settings else .error .misuse
      | .word => .error .misuse

/-- The flags that the arguments give, among them all that are required. -/
def read (flags : List Flag) (help : String) (args : List String) :
    Except Refusal (List Setting) := do
  let settings ← readAll flags help none [] args
  if flags.all (fun f => !f.required || Setting.isGiven f.name settings) then .ok settings
  else .error .misuse

/-! ### Help -/

/-- How the flag is written. -/
def form (f : Flag) : String :=
  f.letter.elim "    " (fun c => "-" ++ c.toString ++ ", ") ++ "--" ++ f.name
    ++ f.value.elim "" (fun v => " <" ++ v ++ ">")

/-- What the flag is for. -/
def purpose (f : Flag) : String :=
  " ".intercalate ((if f.about.isEmpty then [] else [f.about])
    ++ f.default.toList.map (fun d => "[default: " ++ d ++ "]"))

end Flag

/-- Lines of two columns. -/
def columns (rows : List (String × String)) : String :=
  let width := (rows.map (fun r => r.1.length)).foldl max 0
  "".intercalate (rows.map (fun r =>
    "  " ++ r.1 ++ String.ofList (List.replicate (width - r.1.length) ' ') ++ "  " ++ r.2 ++ "\n"))

/-- The flag that asks for help. -/
def Flag.help : Flag := { name := "help", letter := some 'h', about := "Print help" }

/-- The lines on the flags, the flag that asks for help included. -/
def flagLines (flags : List Flag) : String :=
  columns ((flags ++ [Flag.help]).map (fun f => (f.form, f.purpose)))

end ServiceFlow.Cli
