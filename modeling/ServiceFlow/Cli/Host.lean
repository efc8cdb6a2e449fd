/-!
# Hosts

What a program asks of the machine it runs on: files, the two streams of output, and the time.  A
folder in memory is a host too.
-/

namespace ServiceFlow.Cli

/-- Why a file cannot be read or written, with the number of the error. -/
structure FileError where
  reason : String
  code : Nat
deriving DecidableEq, Inhabited

namespace FileError

def message (e : FileError) : String :=
  e.reason ++ " (os error " ++ toString e.code ++ ")"

def missing : FileError := ⟨"No such file or directory", 2⟩

def notFolder : FileError := ⟨"Not a directory", 20⟩

def isFolder : FileError := ⟨"Is a directory", 21⟩

def noSpace : FileError := ⟨"No space left on device", 28⟩

def nameTooLong : FileError := ⟨"File name too long", 36⟩

end FileError

/-- The machine that a program runs on, with what it does in the monad `m`. -/
structure Host (m : Type → Type) where
  /-- The text of a file. -/
  read : String → m (Except FileError String)
  /-- Makes an empty file, also in the place of another. -/
  create : String → m (Except FileError Unit)
  /-- Writes a file, also in the place of another. -/
  write : String → String → m (Except FileError Unit)
  /-- Prints results. -/
  print : String → m Unit
  /-- Prints messages. -/
  tell : String → m Unit
  /-- The date and the time of day as they stand in reports. -/
  now : m String
  /-- The milliseconds that have passed since some moment. -/
  clock : m Nat

/-! ### Paths -/

/-- The longest name of a file in bytes. -/
def maxNameLength : Nat := 255

/-- The longest path in bytes. -/
def maxPathLength : Nat := 4095

/-- A path by its parts. -/
structure Path where
  /-- The path begins at the top, and not at the folder. -/
  isAbsolute : Bool
  parts : List String
  /-- A slash follows the last part. -/
  isOpen : Bool

namespace Path

def ofText (s : String) : Path where
  isAbsolute := s.startsWith "/"
  parts := (s.splitOn "/").filter (fun part => !part.isEmpty)
  isOpen := s.endsWith "/"

/-- The part is no name but leads to the folder itself or to the one around it. -/
def isDots (part : String) : Bool := part = "." || part = ".."

end Path

/-! ### Folders in memory -/

/-- The files of a folder by their names, and what has been printed.  There are no folders in
it. -/
structure Folder where
  files : List (String × String)
  printed : String := ""
  told : String := ""

namespace Folder

def file? (d : Folder) (name : String) : Option String :=
  (d.files.find? (fun f => f.1 = name)).map (fun f => f.2)

/-- Puts the text in the place of the file's, or the file behind all others. -/
def put (name text : String) : List (String × String) → List (String × String)
  | [] => [(name, text)]
  | f :: rest => if f.1 = name then (name, text) :: rest else f :: put name text rest

/-- Files of the machine that hold no text of their own. -/
inductive Device where
  /-- Takes every text and keeps none. -/
  | null
  /-- Takes no text. -/
  | full
  /-- The stream of results. -/
  | results
  /-- The stream of messages. -/
  | messages
deriving DecidableEq, Inhabited

/-- The folders that every machine has at the top. -/
def topFolders : List String :=
  ["bin", "boot", "dev", "etc", "home", "lib", "media", "mnt", "opt", "proc", "root", "run", "sbin",
    "srv", "sys", "tmp", "usr", "var"]

/-- A place on the way along a path. -/
inductive Place where
  /-- The folder itself. -/
  | inside
  /-- One of the folders around it. -/
  | around
  /-- The folder that all others are in. -/
  | top
  /-- One of the folders at the top. -/
  | below (name : String)
deriving DecidableEq, Inhabited

namespace Place

/-- The place around a place. -/
def outer : Place → Place
  | inside | around => around
  | top | below _ => top

def device? : Place → String → Option Device
  | below "dev", "null" | below "dev", "zero" | below "dev", "stdin" => some .null
  | below "dev", "full" => some .full
  | below "dev", "stdout" => some .results
  | below "dev", "stderr" => some .messages
  | _, _ => none

end Place

/-- There is a file under the name. -/
def hasFile (d : Folder) (place : Place) (name : String) : Bool :=
  (place = .inside && (d.file? name).isSome) || (place.device? name).isSome

/-- Where a part of a path leads that is not its last. -/
def enter (d : Folder) (place : Place) (part : String) : Except FileError Place :=
  if part = "." then .ok place
  else if part = ".." then .ok place.outer
  else if maxNameLength < part.utf8ByteSize then .error .nameTooLong
  else if d.hasFile place part then .error .notFolder
  else if place = .top && topFolders.contains part then .ok (.below part)
  else .error .missing

/-- The place of the file that a path leads to, and the name of the file. -/
def locate (d : Folder) (path : String) : Except FileError (Place × String) := do
  if maxPathLength < path.utf8ByteSize then throw .nameTooLong
  let p := Path.ofText path
  let place ← p.parts.dropLast.foldlM d.enter (if p.isAbsolute then .top else .inside)
  match p.parts.getLast? with
  | none => throw .isFolder
  | some name =>
      if p.isOpen || Path.isDots name then throw .isFolder
      if maxNameLength < name.utf8ByteSize then throw .nameTooLong
      if place = .top && topFolders.contains name then throw .isFolder
      return (place, name)

def read (d : Folder) (path : String) : Except FileError String := do
  let (place, name) ← d.locate path
  if place = .inside then (d.file? name).elim (.error .missing) .ok
  else if (place.device? name).isSome then return ""
  else .error .missing

/-- Makes an empty file.  Of files outside of the folder nothing is kept. -/
def create (d : Folder) (path : String) : Except FileError Folder := do
  let (place, name) ← d.locate path
  if place = .inside then return { d with files := put name "" d.files } else return d

/-- Writes a file.  Of files outside of the folder nothing is kept. -/
def write (d : Folder) (path text : String) : Except FileError Folder := do
  let (place, name) ← d.locate path
  if place = .inside then return { d with files := put name text d.files }
  else
    match place.device? name with
    | some .full => if text.isEmpty then return d else throw .noSpace
    | some .results => return { d with printed := d.printed ++ text }
    | some .messages => return { d with told := d.told ++ text }
    | some .null | none => return d

/-- Takes over the folder that an action leaves, if it does not fail. -/
def change (action : Folder → Except FileError Folder) : StateM Folder (Except FileError Unit) := do
  match action (← get) with
  | .ok d =>
      set d
      return .ok ()
  | .error e => return .error e

/-- A folder as a host, for a given time. -/
def host (now : String) : Host (StateM Folder) where
  read := fun path => do return (← get).read path
  create := fun path => change (fun d => d.create path)
  write := fun path text => change (fun d => d.write path text)
  print := fun s => modify (fun d => { d with printed := d.printed ++ s })
  tell := fun s => modify (fun d => { d with told := d.told ++ s })
  now := return now
  clock := return 0

end Folder

end ServiceFlow.Cli
