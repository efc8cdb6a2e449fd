import ServiceFlow.Cli.Run
import Std.Time.Zoned

/-!
# The program

Runs the command line on the machine.
-/

namespace ServiceFlow.Cli

/-- The reason and the number of an error of the machine. -/
def FileError.ofError : IO.Error → FileError
  | .noFileOrDirectory _ code details => ⟨details, code.toNat⟩
  | .alreadyExists _ code details => ⟨details, code.toNat⟩
  | .invalidArgument _ code details => ⟨details, code.toNat⟩
  | .permissionDenied _ code details => ⟨details, code.toNat⟩
  | .resourceExhausted _ code details => ⟨details, code.toNat⟩
  | .inappropriateType _ code details => ⟨details, code.toNat⟩
  | .noSuchThing _ code details => ⟨details, code.toNat⟩
  | .interrupted _ code details => ⟨details, code.toNat⟩
  | .otherError code details => ⟨details, code.toNat⟩
  | .resourceBusy code details => ⟨details, code.toNat⟩
  | .resourceVanished code details => ⟨details, code.toNat⟩
  | .unsupportedOperation code details => ⟨details, code.toNat⟩
  | .hardwareFault code details => ⟨details, code.toNat⟩
  | .unsatisfiedConstraints code details => ⟨details, code.toNat⟩
  | .illegalOperation code details => ⟨details, code.toNat⟩
  | .protocolError code details => ⟨details, code.toNat⟩
  | .timeExpired code details => ⟨details, code.toNat⟩
  | e => ⟨toString e, 0⟩

/-- The result of an action, or the error it ends with. -/
def attempt {α : Type} (action : IO α) : IO (Except FileError α) := do
  try
    return .ok (← action)
  catch e =>
    return .error (.ofError e)

/-- The time on the machine's clock. -/
def localStamp : IO Stamp := do
  let t ← Std.Time.PlainDateTime.now
  return {
    year := t.year.toInt
    month := t.month.toNat
    day := t.day.toNat
    hour := t.hour.toNat
    minute := t.minute.toNat
    second := t.second.toNat }

/-- Writes a file to its end. -/
def writeText (path text : String) : IO Unit :=
  IO.FS.withFile path .write fun h => do
    h.putStr text
    h.flush

/-- The machine as a host. -/
def machine : Host IO where
  read := fun path => attempt (IO.FS.readFile path)
  create := fun path => attempt (writeText path "")
  write := fun path text => attempt (writeText path text)
  print := IO.print
  tell := IO.eprint
  now := return (← localStamp).text
  clock := IO.monoMsNow

end ServiceFlow.Cli

def main (args : List String) : IO UInt32 :=
  ServiceFlow.Cli.run ServiceFlow.Cli.machine "serviceflow" args
