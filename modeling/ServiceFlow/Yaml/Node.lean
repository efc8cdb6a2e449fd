import ServiceFlow.Yaml.Token

/-!
# YAML documents

The document of a text as a tree of scalars, sequences and mappings.  Anchors give numbers to
nodes, and an alias refers to a node by its number.
-/

namespace ServiceFlow.Yaml

/-- A node of a document that was read. -/
inductive Node where
  | scalar (style : ScalarStyle) (tag : Option String) (text : String)
  | seq (items : List Node)
  | map (entries : List (Node × Node))
  /-- Stands for the node with the number. -/
  | alias (number : Nat)
deriving Inhabited

/-- The place of a node that is left out. -/
def Node.missing : Node := .scalar .plain none ""

/-- The handles of tags and what they stand for. -/
abbrev Handles := List (String × String)

def Handles.default : Handles := [("!", "!"), ("!!", "tag:yaml.org,2002:")]

/-! ### Anchors -/

/-- The anchors of a document so far.  The number of an anchor is the count of different names
before it.  So an anchor whose name was given before may share its number with the next one, and of
the nodes with one number the last to begin counts. -/
structure Anchors where
  /-- The numbers that names stand for. -/
  names : List (String × Nat) := []
  /-- The numbers of the nodes with an anchor, the last node to begin first. -/
  numbers : List Nat := []
  /-- The nodes with an anchor that are complete, each with the count of those that began before
  it. -/
  nodes : List (Nat × Node) := []

namespace Anchors

/-- The number that an alias refers to. -/
def number? (name : String) (a : Anchors) : Option Nat :=
  (a.names.find? (fun e => e.1 = name)).map (fun e => e.2)

/-- A node with an anchor begins. -/
def begin (name : String) (a : Anchors) : Anchors :=
  let number := a.names.length
  { a with
    names := (name, number) :: a.names.filter (fun e => e.1 ≠ name)
    numbers := number :: a.numbers }

/-- A node is complete that began behind so many with an anchor. -/
def complete (place : Nat) (n : Node) (a : Anchors) : Anchors :=
  { a with nodes := (place, n) :: a.nodes }

/-- The node with a number. -/
def node? (number : Nat) (a : Anchors) : Option Node :=
  let later := (a.numbers.takeWhile (· ≠ number)).length
  (a.nodes.find? (fun e => e.1 + later + 1 = a.numbers.length)).map (fun e => e.2)

end Anchors

/-- A node with the anchors of its document. -/
structure Tree where
  node : Node
  anchors : Anchors

/-- An anchor and a tag in front of a node. -/
structure Properties where
  anchor : Option String := none
  tag : Option String := none
deriving DecidableEq

/-- Reads a node, and gives back the anchors and the tokens behind it. -/
abbrev Reader (α : Type) := Anchors → List Token → Option (α × Anchors × List Token)

namespace Node

/-- The full name of a tag. -/
def resolveTag (handles : Handles) (handle suffix : String) : Option String :=
  if handle.isEmpty then some suffix
  else (handles.find? (fun h => h.1 = handle)).map (fun h => h.2 ++ suffix)

/-- The properties at the front of the tokens, in any order. -/
def properties? (handles : Handles) : List Token → Option (Properties × List Token)
  | .anchor a :: .tag handle suffix :: ts =>
      (resolveTag handles handle suffix).map (fun tag => (⟨some a, some tag⟩, ts))
  | .tag handle suffix :: .anchor a :: ts =>
      (resolveTag handles handle suffix).map (fun tag => (⟨some a, some tag⟩, ts))
  | .anchor a :: ts => some (⟨some a, none⟩, ts)
  | .tag handle suffix :: ts =>
      (resolveTag handles handle suffix).map (fun tag => (⟨none, some tag⟩, ts))
  | ts => some ({}, ts)

/-- The token stands where a node is left out in a block. -/
def endsBlockItem : Token → Bool
  | .key | .value | .blockEnd => true
  | _ => false

/-- The token stands where a node is left out in braces or brackets that the given token closes. -/
def endsFlowItem (close t : Token) : Bool := t = .value || t = .flowEntry || t = close

mutual

/-- A node.  In a block it may be a block itself, and as an item of a mapping it may be a sequence
that is not indented. -/
def read (handles : Handles) (block unindented : Bool) : Nat → Reader Node
  | 0, _, _ => none
  | _ + 1, anchors, .alias a :: ts =>
      (anchors.number? a).map (fun number => (.alias number, anchors, ts))
  | fuel + 1, anchors, ts => do
      let (p, ts) ← properties? handles ts
      let inside := p.anchor.elim anchors anchors.begin
      let blank := if p = {} then none else some (scalar .plain p.tag "", inside, ts)
      let (n, after, ts) ← match ts with
        | .blockEntry :: _ =>
            if unindented then
              (unindentedItems handles fuel inside ts).map (fun r => (seq r.1, r.2))
            else blank
        | .scalar style text :: ts => some (.scalar style p.tag text, inside, ts)
        | .flowSeqStart :: ts =>
            (flowItems handles fuel true inside ts).map (fun r => (seq r.1, r.2))
        | .flowMapStart :: ts =>
            (flowMembers handles fuel true inside ts).map (fun r => (map r.1, r.2))
        | .blockSeqStart :: ts =>
            if block then (blockItems handles fuel inside ts).map (fun r => (seq r.1, r.2))
            else blank
        | .blockMapStart :: ts =>
            if block then (blockMembers handles fuel inside ts).map (fun r => (map r.1, r.2))
            else blank
        | _ => blank
      return (n, if p.anchor.isSome then after.complete anchors.numbers.length n else after, ts)

/-- The items of a sequence in a block. -/
def blockItems (handles : Handles) : Nat → Reader (List Node)
  | 0, _, _ => none
  | _ + 1, anchors, .blockEnd :: ts => some ([], anchors, ts)
  | fuel + 1, anchors, .blockEntry :: t :: ts => do
      let (n, anchors, ts) ←
        if t = .blockEntry || t = .blockEnd then some (missing, anchors, t :: ts)
        else read handles true false fuel anchors (t :: ts)
      let (rest, anchors, ts) ← blockItems handles fuel anchors ts
      return (n :: rest, anchors, ts)
  | _, _, _ => none

/-- The items of a sequence that is not indented. -/
def unindentedItems (handles : Handles) : Nat → Reader (List Node)
  | 0, _, _ => none
  | fuel + 1, anchors, .blockEntry :: t :: ts => do
      let (n, anchors, ts) ←
        if t = .blockEntry || endsBlockItem t then some (missing, anchors, t :: ts)
        else read handles true false fuel anchors (t :: ts)
      let (rest, anchors, ts) ← unindentedItems handles fuel anchors ts
      return (n :: rest, anchors, ts)
  | _ + 1, _, [.blockEntry] => none
  | _ + 1, anchors, ts => some ([], anchors, ts)

/-- The members of a mapping in a block. -/
def blockMembers (handles : Handles) : Nat → Reader (List (Node × Node))
  | 0, _, _ => none
  | _ + 1, anchors, .blockEnd :: ts => some ([], anchors, ts)
  | fuel + 1, anchors, .key :: ts => do
      let (k, anchors, ts) ← blockItem handles fuel anchors ts
      let (v, anchors, ts) ← blockValue handles fuel anchors ts
      let (rest, anchors, ts) ← blockMembers handles fuel anchors ts
      return ((k, v) :: rest, anchors, ts)
  | _, _, _ => none

/-- A key or a value of a mapping in a block. -/
def blockItem (handles : Handles) : Nat → Reader Node
  | 0, _, _ => none
  | fuel + 1, anchors, t :: ts =>
      if endsBlockItem t then some (missing, anchors, t :: ts)
      else read handles true true fuel anchors (t :: ts)
  | _ + 1, _, [] => none

/-- The value of a member, if it has one. -/
def blockValue (handles : Handles) : Nat → Reader Node
  | 0, _, _ => none
  | fuel + 1, anchors, .value :: ts => blockItem handles fuel anchors ts
  | _ + 1, anchors, ts => some (missing, anchors, ts)

/-- The items of a sequence in brackets.  A key makes a mapping of one member; if the key is left
out, so is the token behind it. -/
def flowItems (handles : Handles) : Nat → Bool → Reader (List Node)
  | 0, _, _, _ => none
  | _ + 1, _, anchors, .flowSeqEnd :: ts => some ([], anchors, ts)
  | fuel + 1, first, anchors, ts => do
      let ts ← match first, ts with
        | true, ts => some ts
        | false, .flowEntry :: ts => some ts
        | false, _ => none
      match ts with
      | .flowSeqEnd :: ts => some ([], anchors, ts)
      | .key :: t :: ts =>
          let (k, anchors, ts) ←
            if endsFlowItem .flowSeqEnd t then some (missing, anchors, ts)
            else read handles false false fuel anchors (t :: ts)
          let (v, anchors, ts) ← flowValue handles .flowSeqEnd fuel anchors ts
          let (rest, anchors, ts) ← flowItems handles fuel false anchors ts
          return (.map [(k, v)] :: rest, anchors, ts)
      | ts =>
          let (n, anchors, ts) ← read handles false false fuel anchors ts
          let (rest, anchors, ts) ← flowItems handles fuel false anchors ts
          return (n :: rest, anchors, ts)

/-- The members of a mapping in braces. -/
def flowMembers (handles : Handles) : Nat → Bool → Reader (List (Node × Node))
  | 0, _, _, _ => none
  | _ + 1, _, anchors, .flowMapEnd :: ts => some ([], anchors, ts)
  | fuel + 1, first, anchors, ts => do
      let ts ← match first, ts with
        | true, ts => some ts
        | false, .flowEntry :: ts => some ts
        | false, _ => none
      match ts with
      | .flowMapEnd :: ts => some ([], anchors, ts)
      | .key :: ts =>
          let (k, anchors, ts) ← flowItem handles .flowMapEnd fuel anchors ts
          let (v, anchors, ts) ← flowValue handles .flowMapEnd fuel anchors ts
          let (rest, anchors, ts) ← flowMembers handles fuel false anchors ts
          return ((k, v) :: rest, anchors, ts)
      | ts =>
          let (k, anchors, ts) ← read handles false false fuel anchors ts
          let (rest, anchors, ts) ← flowMembers handles fuel false anchors ts
          return ((k, missing) :: rest, anchors, ts)

/-- A key or a value in the braces or brackets that the given token closes. -/
def flowItem (handles : Handles) (close : Token) : Nat → Reader Node
  | 0, _, _ => none
  | fuel + 1, anchors, t :: ts =>
      if endsFlowItem close t then some (missing, anchors, t :: ts)
      else read handles false false fuel anchors (t :: ts)
  | _ + 1, _, [] => none

/-- The value of a member in the braces or brackets that the given token closes, if it has one. -/
def flowValue (handles : Handles) (close : Token) : Nat → Reader Node
  | 0, _, _ => none
  | fuel + 1, anchors, .value :: ts => flowItem handles close fuel anchors ts
  | _ + 1, anchors, ts => some (missing, anchors, ts)

end

/-- Adds a handle, which must be new. -/
def addHandle (handles : Handles) (handle text : String) : Option Handles :=
  if handles.any (fun h => h.1 = handle) then none else some ((handle, text) :: handles)

/-- The handles that the directives in front of a document declare; a handle that is not declared
stands for what it always does.  There must be at most one version, and it must be known. -/
def directives? : List Token → Bool → Handles → Option (Handles × List Token)
  | .version major minor :: ts, versioned, handles =>
      if versioned || major ≠ 1 || (minor ≠ 1 && minor ≠ 2) then none
      else directives? ts true handles
  | .tagHandle handle text :: ts, versioned, handles =>
      (addHandle handles handle text).bind (directives? ts versioned)
  | ts, _, handles => some (handles ++ Handles.default, ts)

/-- The tree of a node that begins a document, and the tokens behind it. -/
def root? (handles : Handles) (ts : List Token) : Option (Tree × List Token) :=
  (read handles true false (4 * ts.length + 4) {} ts).map (fun r => (⟨r.1, r.2.1⟩, r.2.2))

/-- The content of a document may be left out. -/
def content? (handles : Handles) (ts : List Token) : Option (Tree × List Token) :=
  match ts with
  | [] | .version _ _ :: _ | .tagHandle _ _ :: _ | .documentStart :: _ | .documentEnd :: _ =>
      some (⟨missing, {}⟩, ts)
  | _ => root? handles ts

end Node

namespace Tree

/-- The only document of the tokens. -/
def ofTokens? (ts : List Token) : Option Tree := do
  let (t, rest) ← match ts with
    | [] => some (⟨.missing, {}⟩, [])
    | .version _ _ :: _ | .tagHandle _ _ :: _ | .documentStart :: _ => do
        let (handles, rest) ← Node.directives? ts false []
        match rest with
        | .documentStart :: rest => Node.content? handles rest
        | _ => none
    | _ => Node.root? Handles.default ts
  if rest.all (· = .documentEnd) then some t else none

/-- The document of a text. -/
def parse? (s : String) : Option Tree := (Token.scan? s).bind ofTokens?

/-- Another node of the same document; an alias gives the node that it stands for. -/
def at? (t : Tree) : Node → Option Tree
  | .alias number => (t.anchors.node? number).map (fun n => ⟨n, t.anchors⟩)
  | n => some ⟨n, t.anchors⟩

end Tree

end ServiceFlow.Yaml
