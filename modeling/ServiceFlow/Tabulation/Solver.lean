import ServiceFlow.Distinct
import ServiceFlow.Tabulation.Problem

/-!
# Tabulation

Facts are propagated along path edges: an edge says that a fact holds at a statement whenever some
fact holds at the start of its method.  Edges are processed in the order of their discovery.  A
method is entered once for each fact at its start; the contexts it was entered from and the facts
it ends with are kept, and whichever of a context and an end comes second connects the two.
-/

namespace ServiceFlow.Tabulation

/-- The fact holds at the point if the source holds at the start of the point's method. -/
structure PathEdge (μ φ : Type) where
  source : φ
  point : Point μ
  fact : φ
deriving DecidableEq, Hashable

/-- A call from which a method was entered: the call, the source of its path edge and the fact
that held there. -/
structure Context (μ φ : Type) where
  site : Point μ
  source : φ
  fact : φ
deriving DecidableEq, Hashable

/-- An exit that a method reaches, with the fact that holds there. -/
structure Ending (μ φ : Type) where
  exit : Point μ
  fact : φ
deriving DecidableEq, Hashable

/-- The tables of a run. -/
structure State (μ φ : Type) [DecidableEq μ] [Hashable μ] [DecidableEq φ] [Hashable φ] where
  /-- All path edges in the order of their discovery. -/
  edges : Distinct (PathEdge μ φ) := .empty
  /-- How many of the edges were processed. -/
  taken : Nat := 0
  /-- The facts of every statement. -/
  facts : Table (Point μ) φ := .empty
  /-- The contexts from which a method was entered with a fact. -/
  contexts : Table (μ × φ) (Context μ φ) := .empty
  /-- The endings of a method entered with a fact. -/
  endings : Table (μ × φ) (Ending μ φ) := .empty
  /-- How many endings there are. -/
  ended : Nat := 0
  /-- How many endings were met by a later context. -/
  reuses : Nat := 0
  /-- How often a fact was dropped at a full statement. -/
  dropped : Nat := 0
  /-- The last fact that a flow produced behind a statement of the method. -/
  latest : Std.HashMap μ φ := ∅

variable {μ φ : Type} [DecidableEq μ] [Hashable μ] [DecidableEq φ] [Hashable φ]

namespace State

/-- Adds a path edge.  A fact that is new at its statement is dropped if the statement is full. -/
def propagate (l : Limits) (s : State μ φ) (e : PathEdge μ φ) : State μ φ :=
  if e ∈ s.edges then s
  else if e.fact ∈ s.facts.row e.point then { s with edges := s.edges.insert e }
  else if l.factsPerPoint ≤ (s.facts.row e.point).size then { s with dropped := s.dropped + 1 }
  else { s with edges := s.edges.insert e, facts := s.facts.add e.point e.fact }

/-- Adds an edge to the point for each of the facts that a flow produced. -/
def emit (l : Limits) (source : φ) (next : Point μ) (facts : List φ) (s : State μ φ) :
    State μ φ :=
  let s := facts.foldl (fun s d => s.propagate l ⟨source, next, d⟩) s
  match facts.getLast? with
  | some d => { s with latest := s.latest.insert next.method d }
  | none => s

end State

variable (g : Graph μ) (p : Problem μ φ) (l : Limits)

/-- From a statement that is neither call nor exit to its successors. -/
def step (e : PathEdge μ φ) (s : State μ φ) : State μ φ :=
  (g.successors e.point).foldl (fun s q => s.emit l e.source q (p.normal e.point q e.fact)) s

/-- From an ending of a called method back behind the call. -/
def comeBack (callee : μ) (c : Context μ φ) (x : Ending μ φ) (s : State μ φ) : State μ φ :=
  (g.successors c.site).foldl
    (fun s q => s.emit l c.source q (p.ret c.site callee x.exit q c.fact x.fact)) s

/-- Enters a called method with a fact: begins it, and comes back with what it is known to end
with, unless the call was recorded as a context before. -/
def enter (e : PathEdge μ φ) (callee : μ) (s : State μ φ) (d : φ) : State μ φ :=
  let s := (g.starts callee).foldl (fun s q => s.propagate l ⟨d, q, d⟩) s
  let c : Context μ φ := ⟨e.point, e.source, e.fact⟩
  if c ∈ s.contexts.row (callee, d) then s
  else
    let endings := s.endings.row (callee, d)
    let s := { s with
      contexts := s.contexts.add (callee, d) c
      reuses := s.reuses + endings.size }
    endings.toList.foldl (fun s x => comeBack g p l callee c x s) s

/-- From a call past the called methods. -/
def passBy (e : PathEdge μ φ) (s : State μ φ) : State μ φ :=
  (g.successors e.point).foldl (fun s q => s.emit l e.source q (p.pass e.point q e.fact)) s

/-- From a call into the called methods, and past them. -/
def callOut (e : PathEdge μ φ) (s : State μ φ) : State μ φ :=
  passBy g p l e ((g.callees e.point).foldl
    (fun s m => (p.call e.point m e.fact).foldl (enter g p l e m) s) s)

/-- From an exit back to all contexts of the method. -/
def leave (e : PathEdge μ φ) (s : State μ φ) : State μ φ :=
  let key := (e.point.method, e.source)
  let x : Ending μ φ := ⟨e.point, e.fact⟩
  if x ∈ s.endings.row key then s
  else
    let contexts := s.contexts.row key
    let s := { s with endings := s.endings.add key x, ended := s.ended + 1 }
    contexts.toList.foldl (fun s c => comeBack g p l e.point.method c x s) s

/-- Processes a path edge. -/
def process (e : PathEdge μ φ) (s : State μ φ) : State μ φ :=
  if g.isCall e.point then callOut g p l e s
  else if g.isExit e.point then leave g p l e s
  else step g p l e s

/-- Processes at most so many path edges in the order of their discovery. -/
def run : Nat → State μ φ → State μ φ
  | 0, s => s
  | n + 1, s =>
      match s.edges.items[s.taken]? with
      | some e => run n (process g p l e { s with taken := s.taken + 1 })
      | none => s

/-- The state with the seeds only. -/
def seeded : State μ φ :=
  p.seeds.foldl (fun s e => s.propagate l ⟨e.2, e.1, e.2⟩) {}

/-- Runs until no path edge is left or the bound on iterations is reached. -/
def solve : State μ φ := run g p l l.iterations (seeded p l)

namespace State

/-! ### Results -/

/-- The facts at a statement in the order of their discovery. -/
def factsAt (s : State μ φ) (q : Point μ) : List φ := (s.facts.row q).toList

/-- The facts at the successors of a statement, each once. -/
def factsAfter (g : Graph μ) (s : State μ φ) (q : Point μ) : List φ :=
  (Distinct.ofList ((g.successors q).flatMap s.factsAt)).toList

/-- Some fact holds at the statement. -/
def isReached (s : State μ φ) (q : Point μ) : Bool := !(s.factsAt q).isEmpty

/-- A bound cut the run short. -/
def truncated (s : State μ φ) : Bool := 0 < s.dropped || s.taken < s.edges.size

end State

/-- How much a run did. -/
structure Statistics where
  pathEdges : Nat
  endings : Nat
  reuses : Nat
  iterations : Nat
  dropped : Nat
  truncated : Bool
deriving DecidableEq, Inhabited

def State.statistics (s : State μ φ) : Statistics where
  pathEdges := s.edges.size
  endings := s.ended
  reuses := s.reuses
  iterations := s.taken
  dropped := s.dropped
  truncated := s.truncated

end ServiceFlow.Tabulation
