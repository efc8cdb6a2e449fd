import ServiceFlow.Ir.Codec
import ServiceFlow.Json.Reader
import ServiceFlow.Program.View

/-!
# Class pools

The classes of a program under their names, in the order the names were first inserted.  A class
may be inserted as a text or a JSON value; it is decoded when it is asked for, so that a document
at fault fails the look-ups of its own class only.
-/

namespace ServiceFlow

/-- What a class is made from. -/
inductive ClassSource where
  | text (s : String)
  | document (j : Json)
  | decl (c : ClassDecl)
deriving Inhabited

namespace ClassDecl

/-- The class of a JSON value, which must declare the expected name. -/
def ofDocument (name : ClassName) (j : Option Json) : Except ScopeError ClassDecl :=
  match j.bind decode? with
  | none => .error (.malformed name .undecodable)
  | some c => if c.name = name then .ok c else .error (.malformed name (.declares c.name))

/-- The class of a JSON text, which must declare the expected name. -/
def ofText (name : ClassName) (s : String) : Except ScopeError ClassDecl :=
  ofDocument name (Json.parse? s)

end ClassDecl

/-- The class made from a source under the expected name. -/
def ClassSource.load (name : ClassName) : ClassSource → Except ScopeError ClassDecl
  | .text s => ClassDecl.ofText name s
  | .document j => ClassDecl.ofDocument name (some j)
  | .decl c => .ok c

/-- A class that was decoded already stands under its own name. -/
def ClassSource.Fits (name : ClassName) : ClassSource → Prop
  | .decl c => c.name = name
  | _ => True

/-- Sources of classes under different names, each under a name that fits it. -/
structure ClassPool where
  entries : List (ClassName × ClassSource)
  fitting : ∀ e ∈ entries, e.2.Fits e.1
  distinct : (entries.map Prod.fst).Nodup

/-- Why a class set cannot be read. -/
inductive ClassSetError where
  /-- It is not a JSON array. -/
  | notAnArray
  /-- The document at the index has no name. -/
  | unnamed (index : Nat)
deriving DecidableEq, Inhabited

/-- What is wrong with a text that is not a JSON array. -/
def ClassSetError.notAnArrayDetail : String := "not an array of class documents"

def ClassSetError.message : ClassSetError → String
  | .notAnArray => "Serialization error: " ++ notAnArrayDetail
  | .unnamed index => "Parse error in #" ++ toString index ++ ": class document has no name"

namespace ClassPool

def empty : ClassPool := ⟨[], nofun, List.nodup_nil⟩

/-- Puts the source in the place of the name, or behind all others. -/
def insertEntry (name : ClassName) (source : ClassSource) :
    List (ClassName × ClassSource) → List (ClassName × ClassSource)
  | [] => [(name, source)]
  | e :: rest =>
      if e.1 = name then (name, source) :: rest else e :: insertEntry name source rest

theorem mem_insertEntry {name : ClassName} {source : ClassSource}
    {l : List (ClassName × ClassSource)} {e : ClassName × ClassSource}
    (h : e ∈ insertEntry name source l) :
  e ∈ l ∨ e = (name, source)
  := by
  induction l with
  | nil => apply Or.inr (List.mem_singleton.1 h)
  | cons a l ih =>
      rw [insertEntry] at h
      split at h
      · rcases List.mem_cons.1 h with h | h
        · apply Or.inr h
        · apply Or.inl (List.mem_cons_of_mem _ h)
      · rcases List.mem_cons.1 h with rfl | h
        · apply Or.inl List.mem_cons_self
        · apply (ih h).imp_left (List.mem_cons_of_mem _)

/-- A new name comes last, and a known one keeps its place. -/
theorem names_insertEntry (name : ClassName) (source : ClassSource)
    (l : List (ClassName × ClassSource)) :
  (insertEntry name source l).map Prod.fst =
    if name ∈ l.map Prod.fst then l.map Prod.fst else l.map Prod.fst ++ [name]
  := by
  induction l with
  | nil => rfl
  | cons e l ih =>
      rw [insertEntry]
      split
      · next he => simp [he]
      · next he =>
        have hmem : name ∈ (e :: l).map Prod.fst ↔ name ∈ l.map Prod.fst := by
          simp [Ne.symm he]
        simp only [hmem]
        rw [List.map_cons, ih]
        split <;> rfl

/-- Keeps the source under the name, in the place of another one. -/
def insert (p : ClassPool) (name : ClassName) (source : ClassSource) (h : source.Fits name) :
    ClassPool where
  entries := insertEntry name source p.entries
  fitting e he := by
    rcases mem_insertEntry he with he | rfl
    · apply p.fitting e he
    · apply h
  distinct := by
    rw [names_insertEntry]
    split
    · apply p.distinct
    · next hnew =>
      rw [List.nodup_append]
      refine ⟨p.distinct, List.nodup_cons.2 ⟨List.not_mem_nil, List.nodup_nil⟩, ?_⟩
      rintro a ha b hb rfl
      rw [List.mem_singleton.1 hb] at ha
      apply hnew ha

def insertText (p : ClassPool) (name : ClassName) (s : String) : ClassPool :=
  p.insert name (.text s) trivial

/-- Keeps a class under its own name. -/
def insertClass (p : ClassPool) (c : ClassDecl) : ClassPool := p.insert c.name (.decl c) rfl

def ofClasses (classes : List ClassDecl) : ClassPool := classes.foldl insertClass empty

/-- Inserts the documents of a class set, the first of which has the given index. -/
def insertDocuments : ClassPool → Nat → List Json → Except ClassSetError ClassPool
  | p, _, [] => .ok p
  | p, index, j :: rest =>
      match (j.member? "name").bind Json.string? with
      | some name => insertDocuments (p.insert ⟨name⟩ (.document j) trivial) (index + 1) rest
      | none => .error (.unnamed index)

/-- The pool of a JSON array of class documents, each with a name. -/
def ofJson : Json → Except ClassSetError ClassPool
  | .arr documents => insertDocuments empty 0 documents
  | _ => .error .notAnArray

/-- The pool of the text of a JSON array. -/
def ofJsonText (s : String) : Except ClassSetError ClassPool :=
  match Json.parseSound? s with
  | some j => ofJson j
  | none => .error .notAnArray

/-! ### Look-up -/

def names (p : ClassPool) : List ClassName := p.entries.map (·.1)

def size (p : ClassPool) : Nat := p.entries.length

/-- What was inserted under the name. -/
def source? (p : ClassPool) (name : ClassName) : Option ClassSource :=
  (p.entries.find? (fun e => e.1 = name)).map (·.2)

def contains (p : ClassPool) (name : ClassName) : Bool := (p.source? name).isSome

/-- The class of the name, if its source can be decoded. -/
def load (p : ClassPool) (name : ClassName) : Except ScopeError ClassDecl :=
  match p.source? name with
  | some source => source.load name
  | none => .error (.classNotFound name)

/-- The view of the named classes, all of which must load. -/
def view (p : ClassPool) (names : List ClassName) : Except ScopeError View :=
  (names.mapM p.load).map View.ofList

end ClassPool

end ServiceFlow
