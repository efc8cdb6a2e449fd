import ServiceFlow.Tabulation.Solver

/-!
# Problems with a memory

The flows of a problem may keep a memory during a run.  A flow reads the memory and leaves it
changed to the flows that are applied after it, so what a flow yields may depend on all that was
done before.  Tabulation applies the flows in a fixed order; apart from the memory it is the same as
for flows that depend on nothing but their fact.
-/

namespace ServiceFlow.Tabulation

/-- The facts to start with, and the flows, over a memory `σ`. -/
structure Stateful (μ φ σ : Type) where
  seeds : StateM σ (List (Point μ × φ))
  /-- From a statement to a successor. -/
  normal : (point next : Point μ) → φ → StateM σ (List φ)
  /-- From a call to the start of a called method. -/
  call : (site : Point μ) → (callee : μ) → φ → StateM σ (List φ)
  /-- From an exit of a called method to a successor of the call; the first fact held at the call
  and the second one at the exit. -/
  ret : (site : Point μ) → (callee : μ) → (exit next : Point μ) → φ → φ → StateM σ (List φ)
  /-- From a call past the called methods to a successor. -/
  pass : (site next : Point μ) → φ → StateM σ (List φ)

namespace Stateful

variable {μ φ σ : Type} [DecidableEq μ] [Hashable μ] [DecidableEq φ] [Hashable φ]
variable (g : Graph μ) (p : Stateful μ φ σ) (l : Limits)

/-- Applies a flow to each of the points in turn, and adds an edge for each fact it produces. -/
def emitAll (source : φ) (flow : Point μ → StateM σ (List φ)) (points : List (Point μ))
    (s : State μ φ) : StateM σ (State μ φ) :=
  points.foldlM (fun s q => return s.emit l source q (← flow q)) s

/-- From a statement that is neither call nor exit to its successors. -/
def step (e : PathEdge μ φ) (s : State μ φ) : StateM σ (State μ φ) :=
  emitAll l e.source (fun q => p.normal e.point q e.fact) (g.successors e.point) s

/-- From an ending of a called method back behind the call. -/
def comeBack (callee : μ) (c : Context μ φ) (x : Ending μ φ) (s : State μ φ) :
    StateM σ (State μ φ) :=
  emitAll l c.source (fun q => p.ret c.site callee x.exit q c.fact x.fact) (g.successors c.site) s

/-- Records a call as a context of a method that was entered with a fact, and comes back with what
the method is known to end with, unless the call was recorded before. -/
def connect (e : PathEdge μ φ) (callee : μ) (d : φ) (s : State μ φ) : StateM σ (State μ φ) :=
  let c : Context μ φ := ⟨e.point, e.source, e.fact⟩
  if c ∈ s.contexts.row (callee, d) then return s
  else
    let endings := s.endings.row (callee, d)
    let s := { s with
      contexts := s.contexts.add (callee, d) c
      reuses := s.reuses + endings.size }
    endings.toList.foldlM (fun s x => comeBack g p l callee c x s) s

/-- Enters a called method with a fact. -/
def enter (e : PathEdge μ φ) (callee : μ) (s : State μ φ) (d : φ) : StateM σ (State μ φ) :=
  connect g p l e callee d ((g.starts callee).foldl (fun s q => s.propagate l ⟨d, q, d⟩) s)

/-- From a call past the called methods. -/
def passBy (e : PathEdge μ φ) (s : State μ φ) : StateM σ (State μ φ) :=
  emitAll l e.source (fun q => p.pass e.point q e.fact) (g.successors e.point) s

/-- From a call into a called method. -/
def callInto (e : PathEdge μ φ) (s : State μ φ) (callee : μ) : StateM σ (State μ φ) := do
  let facts ← p.call e.point callee e.fact
  facts.foldlM (enter g p l e callee) s

/-- From a call into the called methods, and past them. -/
def callOut (e : PathEdge μ φ) (s : State μ φ) : StateM σ (State μ φ) := do
  let s ← (g.callees e.point).foldlM (callInto g p l e) s
  passBy g p l e s

/-- From an exit back to all contexts of the method. -/
def leave (e : PathEdge μ φ) (s : State μ φ) : StateM σ (State μ φ) :=
  let key := (e.point.method, e.source)
  let x : Ending μ φ := ⟨e.point, e.fact⟩
  if x ∈ s.endings.row key then return s
  else
    let contexts := s.contexts.row key
    let s := { s with endings := s.endings.add key x, ended := s.ended + 1 }
    contexts.toList.foldlM (fun s c => comeBack g p l e.point.method c x s) s

/-- Processes a path edge. -/
def process (e : PathEdge μ φ) (s : State μ φ) : StateM σ (State μ φ) :=
  if g.isCall e.point then callOut g p l e s
  else if g.isExit e.point then leave g p l e s
  else step g p l e s

/-- Processes at most so many path edges in the order of their discovery. -/
def run : Nat → State μ φ → StateM σ (State μ φ)
  | 0, s => return s
  | n + 1, s =>
      match s.edges.items[s.taken]? with
      | some e => do
          let s ← process g p l e { s with taken := s.taken + 1 }
          run n s
      | none => return s

/-- The state with the seeds only. -/
def seeded : StateM σ (State μ φ) := do
  let seeds ← p.seeds
  return seeds.foldl (fun s e => s.propagate l ⟨e.2, e.1, e.2⟩) {}

/-- Runs until no path edge is left or the bound on iterations is reached. -/
def solve : StateM σ (State μ φ) := do
  let s ← seeded p l
  run g p l l.iterations s

end Stateful

/-! ### Counting -/

/-- How often each flow was applied. -/
structure FlowCounts where
  normal : Nat := 0
  call : Nat := 0
  ret : Nat := 0
  pass : Nat := 0
deriving DecidableEq, Inhabited

/-- The problem with a memory that counts how often its flows are applied. -/
def Problem.counted {μ φ : Type} (p : Problem μ φ) : Stateful μ φ FlowCounts where
  seeds := return p.seeds
  normal point next d := do
    modify (fun n => { n with normal := n.normal + 1 })
    return p.normal point next d
  call site callee d := do
    modify (fun n => { n with call := n.call + 1 })
    return p.call site callee d
  ret site callee exit next d d' := do
    modify (fun n => { n with ret := n.ret + 1 })
    return p.ret site callee exit next d d'
  pass site next d := do
    modify (fun n => { n with pass := n.pass + 1 })
    return p.pass site next d

end ServiceFlow.Tabulation
