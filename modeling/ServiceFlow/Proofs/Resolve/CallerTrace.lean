import ServiceFlow.Proofs.Program.CallGraph
import ServiceFlow.Proofs.Resolve.CallerClosure

/-!
# What a search among callers spends

The runs of a search cost most of its time.  To say which runs there are, the search is written once
more for runs with effects: with runs that keep a record it does the same, and tells which methods
it runs, how many callers it looks at, and whether it stops for want of room.  The record shows that
the search is bounded and climbs along chains of callers only, and that it runs all methods that
such chains lead to if its bounds do not come into play.
-/

namespace ServiceFlow

namespace CallGraph

/-- The methods at both ends of every call are methods of the graph. -/
def IsClosed (g : CallGraph) : Prop :=
  ∀ e ∈ g.edges, e.site.method ∈ g.methods ∧ e.callee ∈ g.methods

instance (g : CallGraph) : Decidable g.IsClosed :=
  inferInstanceAs (Decidable (∀ e ∈ g.edges, e.site.method ∈ g.methods ∧ e.callee ∈ g.methods))

variable {g : CallGraph} {m caller : MethodSig}

theorem mem_callers :
  caller ∈ g.callers m ↔ ∃ e ∈ g.edges, e.callee = m ∧ e.site.method = caller
  := by
  simp [callers, callSites, and_assoc]

theorem IsClosed.caller_mem (h : g.IsClosed) (hcalls : caller ∈ g.callers m) :
  caller ∈ g.methods
  := by
  obtain ⟨e, he, _, rfl⟩ := mem_callers.1 hcalls
  apply (h e he).1

theorem IsClosed.callee_mem (h : g.IsClosed) (hcalls : caller ∈ g.callers m) :
  m ∈ g.methods
  := by
  obtain ⟨e, he, rfl, _⟩ := mem_callers.1 hcalls
  apply (h e he).2

/-- The graph of a view has the methods of all its calls. -/
theorem isClosed_build {v : View} {skip : Invoke → Bool} (h : build v skip = .ok g) :
  g.IsClosed
  := by
  obtain ⟨rows, hrows, hg⟩ := bind_eq_ok h
  obtain rfl := Except.ok.inj hg
  intro e he
  obtain ⟨⟨m, sites⟩, hrow, he⟩ := List.mem_flatMap.1 he
  obtain ⟨site, hsite, he⟩ := List.mem_flatMap.1 he
  have hmethod : site.point.method = m := by
    obtain ⟨row, hmem, hsome⟩ := List.mem_filterMap.1 hrow
    obtain ⟨d, _, hd⟩ := exists_of_mem_mapM hrows hmem
    obtain rfl : row = some (m, sites) := hsome
    rw [rowOf] at hd
    split at hd
    · obtain ⟨sites', hsites, heq⟩ := map_eq_ok hd
      cases heq
      have hpoint := List.mem_map_of_mem (f := CallSite.point) hsite
      rw [View.map_point_callSitesOf hsites] at hpoint
      obtain ⟨⟨q, i⟩, hinvoke, hq⟩ := List.mem_map.1 hpoint
      rw [← hq]
      apply (Body.mem_invokes_iff.1 hinvoke).1
    · cases hd
  constructor
  · rw [CallSite.site_of_mem_edges he, hmethod, List.mem_eraseDups]
    apply List.mem_flatMap.2 ⟨_, hrow, List.mem_cons_self⟩
  · have htarget : e.callee ∈ site.targets := by
      rw [← CallSite.map_callee_edges]
      apply List.mem_map_of_mem he
    rw [List.mem_eraseDups]
    refine List.mem_flatMap.2 ⟨_, hrow, List.mem_cons_of_mem _ ?_⟩
    apply List.mem_flatMap.2 ⟨site, hsite, htarget⟩

/-- If a chain climbs at all, its first method is called in the graph. -/
theorem Chain.start_mem_methods {through : MethodSig → Prop} {start : MethodSig}
    {path : List MethodSig} (hclosed : g.IsClosed) (h : g.Chain through start path) :
  path = [start] ∨ start ∈ g.methods
  := by
  induction h with
  | start => apply Or.inl rfl
  | climb _ _ calls ih =>
      apply Or.inr
      rcases ih with heq | hstart
      · cases heq
        apply hclosed.callee_mem calls
      · apply hstart

end CallGraph

namespace CallerSearch

/-! ### Searches with effects -/

/-- What a search does to its surroundings. -/
structure Effects (n : Type → Type) where
  run : MethodSig → n (Except ScopeError Outcome)
  /-- A caller is looked at. -/
  look : n Unit
  /-- There is no room for the caller. -/
  stop : n Unit

section

variable {n : Type → Type} [Monad n] (e : Effects n) (maxVisited : Nat)

/-- Climbs on from a method if its run was possible and left the call open. -/
def climbOn (climb : MethodSig → State → n State) (m : MethodSig) (s : State) :
    Except ScopeError Outcome → n State
  | .ok o => if o.isConclusive then pure s else climb m s
  | .error _ => pure s

/-- Visits one method and climbs on from it.  Static initializers are visited without a run. -/
def visitWith (climb : MethodSig → State → n State) (m : MethodSig) (s : State) : n State :=
  if m ∈ s.visited then pure s
  else if m.isStaticInitializer then pure { s with visited := m :: s.visited }
  else do
    let outcome ← e.run m
    climbOn climb m ⟨m :: s.visited, s.findings.note m outcome⟩ outcome

/-- Visits the methods in turn as long as there is room. -/
def visitAllWith (climb : MethodSig → State → n State) : List MethodSig → State → n State
  | [], s => pure s
  | m :: rest, s => do
      e.look
      if maxVisited ≤ s.visited.length then
        e.stop
        return s
      else
        let s ← visitWith e climb m s
        visitAllWith climb rest s

/-- Visits the callers of a method, over chains of at most the given length. -/
def walkWith (g : CallGraph) : Nat → MethodSig → State → n State
  | 0, _, s => pure s
  | depth + 1, m, s => visitAllWith e maxVisited (walkWith g depth) (g.callers m) s

end

/-! ### Records -/

/-- What a search has done. -/
structure Record where
  /-- The methods that were run, the last one first. -/
  ran : List MethodSig := []
  /-- How often a caller was looked at. -/
  looked : Nat := 0
  /-- There was no room for some caller. -/
  stopped : Bool := false
deriving DecidableEq, Inhabited

/-- Runs that are recorded. -/
def recorder (run : MethodSig → Except ScopeError Outcome) : Effects (StateM Record) where
  run m := modifyGet (fun r => (run m, { r with ran := m :: r.ran }))
  look := modify (fun r => { r with looked := r.looked + 1 })
  stop := modify (fun r => { r with stopped := true })

/-- The methods among those met that are run. -/
def runnable (met : List MethodSig) : List MethodSig :=
  met.filter (fun m => !m.isStaticInitializer)

/-- The recorded search `x` from the state `s` does what the search `y` does with room for
`maxVisited` methods.  It looks at so many callers, and at those of the methods that it runs.  If
it does not stop, more room changes nothing. -/
structure Follows (g : CallGraph) (maxVisited : Nat) (s : State) (looks : Nat)
    (x : StateM Record State) (y : Nat → State) : Prop where
  result : ∀ r, (x.run r).1 = y maxVisited
  met : ∃ met, (y maxVisited).visited = met ++ s.visited ∧
    ∀ r, (x.run r).2.ran = runnable met ++ r.ran ∧
      (x.run r).2.looked ≤ r.looked + looks + ((runnable met).flatMap g.callers).length
  stopped : ∀ r, (x.run r).2.stopped = false →
    r.stopped = false ∧ ∀ room, maxVisited ≤ room → y room = y maxVisited

namespace Follows

variable {g : CallGraph} {run : MethodSig → Except ScopeError Outcome}
  {maxVisited looks looks' : Nat} {s t : State} {x : StateM Record State} {y : Nat → State}
  {m : MethodSig}

theorem pure (s : State) :
  Follows g maxVisited s 0 (Pure.pure s) (fun _ => s)
  := by
  refine ⟨fun r => rfl, ⟨[], rfl, fun r => ⟨rfl, Nat.le_add_right _ _⟩⟩, ?_⟩
  intro r hr
  exact ⟨hr, fun _ _ => rfl⟩

theorem congr (h : Follows g maxVisited s looks x y) {y' : Nat → State}
    (hy : ∀ room, maxVisited ≤ room → y' room = y room) :
  Follows g maxVisited s looks x y'
  := by
  have hself := hy maxVisited (Nat.le_refl _)
  constructor
  · rw [hself]
    apply h.result
  · rw [hself]
    apply h.met
  · intro r hr
    use (h.stopped r hr).1
    intro room hroom
    rw [hy room hroom, hself]
    apply (h.stopped r hr).2 room hroom

/-- One search after another. -/
theorem bind {f : State → StateM Record State} {z : Nat → State → State}
    (h : Follows g maxVisited s looks x y)
    (hf : Follows g maxVisited (y maxVisited) looks' (f (y maxVisited))
      (fun room => z room (y maxVisited))) :
  Follows g maxVisited s (looks + looks') (x >>= f) (fun room => z room (y room))
  := by
  have hrun : ∀ r, (x >>= f).run r = (f (y maxVisited)).run (x.run r).2 := by
    intro r
    rw [← h.result r]
    rfl
  constructor
  · intro r
    rw [hrun]
    apply hf.result
  · obtain ⟨met, hvisited, hmet⟩ := h.met
    obtain ⟨more, hvisited', hmore⟩ := hf.met
    use more ++ met
    constructor
    · rw [hvisited', hvisited, List.append_assoc]
    · intro r
      obtain ⟨hran, hlooked⟩ := hmet r
      obtain ⟨hran', hlooked'⟩ := hmore (x.run r).2
      rw [hrun, runnable, List.filter_append]
      constructor
      · rw [hran', hran, List.append_assoc]
        rfl
      · rw [List.flatMap_append, List.length_append]
        simp only [runnable] at hlooked hlooked'
        omega
  · intro r hr
    rw [hrun] at hr
    obtain ⟨hfirst, hsame'⟩ := hf.stopped _ hr
    obtain ⟨hstart, hsame⟩ := h.stopped r hfirst
    use hstart
    intro room hroom
    rw [hsame room hroom, hsame' room hroom]

/-- To look at a caller before. -/
theorem look (h : Follows g maxVisited s looks x y) :
  Follows g maxVisited s (looks + 1) ((recorder run).look >>= fun _ => x) y
  := by
  have hrun : ∀ r, ((recorder run).look >>= fun _ => x).run r =
      x.run { r with looked := r.looked + 1 } := fun _ => rfl
  obtain ⟨met, hvisited, hmet⟩ := h.met
  constructor
  · intro r
    rw [hrun]
    apply h.result
  · use met, hvisited
    intro r
    obtain ⟨hran, hlooked⟩ := hmet { r with looked := r.looked + 1 }
    rw [hrun]
    use hran
    dsimp only at hlooked
    omega
  · intro r hr
    apply h.stopped _ hr

/-- To meet a static initializer before. -/
theorem pass (h : Follows g maxVisited t looks x y) (hvisited : t.visited = m :: s.visited)
    (hinit : m.isStaticInitializer = true) :
  Follows g maxVisited s looks x y
  := by
  refine ⟨h.result, ?_, h.stopped⟩
  obtain ⟨met, hmet, hrecord⟩ := h.met
  use met ++ [m]
  have hrunnable : runnable (met ++ [m]) = runnable met := by simp [runnable, hinit]
  rw [hrunnable]
  use (by rw [hmet, hvisited, List.append_assoc]; rfl), hrecord

/-- To meet and run a method before: its callers may be looked at as well. -/
theorem ran {f : Except ScopeError Outcome → StateM Record State}
    (h : Follows g maxVisited t (looks + (g.callers m).length) (f (run m)) y)
    (hvisited : t.visited = m :: s.visited) (hinit : m.isStaticInitializer = false) :
  Follows g maxVisited s looks ((recorder run).run m >>= f) y
  := by
  have hrun : ∀ r, ((recorder run).run m >>= f).run r =
      (f (run m)).run { r with ran := m :: r.ran } := fun _ => rfl
  obtain ⟨met, hmet, hrecord⟩ := h.met
  constructor
  · intro r
    rw [hrun]
    apply h.result
  · use met ++ [m]
    have hrunnable : runnable (met ++ [m]) = runnable met ++ [m] := by simp [runnable, hinit]
    rw [hrunnable]
    constructor
    · rw [hmet, hvisited, List.append_assoc]
      rfl
    · intro r
      obtain ⟨hran, hlooked⟩ := hrecord { r with ran := m :: r.ran }
      rw [hrun]
      constructor
      · rw [hran, List.append_assoc]
        rfl
      · rw [List.flatMap_append, List.length_append, List.flatMap_singleton]
        dsimp only at hlooked
        omega
  · intro r hr
    apply h.stopped _ hr

theorem stop (hy : y maxVisited = s) :
  Follows g maxVisited s looks ((recorder run).stop >>= fun _ => Pure.pure s) y
  := by
  refine ⟨fun r => hy.symm, ⟨[], by rw [hy]; rfl, fun r => ⟨rfl, ?_⟩⟩, fun r => nofun⟩
  apply Nat.le_trans (Nat.le_add_right _ _) (Nat.le_add_right _ _)

theorem mono (h : Follows g maxVisited s looks x y) (hle : looks ≤ looks') :
  Follows g maxVisited s looks' x y
  := by
  refine ⟨h.result, ?_, h.stopped⟩
  obtain ⟨met, hmet, hrecord⟩ := h.met
  use met, hmet
  intro r
  obtain ⟨hran, hlooked⟩ := hrecord r
  use hran
  omega

end Follows

section

variable {g : CallGraph} {run : MethodSig → Except ScopeError Outcome} {maxVisited : Nat}

/-- The visit of a caller for which there is room. -/
theorem follows_visit {climb : MethodSig → State → StateM Record State}
    {climb' : Nat → MethodSig → State → State}
    (hclimb : ∀ m s, Follows g maxVisited s (g.callers m).length (climb m s)
      (fun room => climb' room m s)) (m : MethodSig) {s : State}
    (hroom : s.visited.length < maxVisited) :
  Follows g maxVisited s 0 (visitWith (recorder run) climb m s)
    (fun room => visit run room (climb' room) s m)
  := by
  rw [visitWith]
  by_cases hmem : m ∈ s.visited
  · rw [if_pos hmem]
    apply (Follows.pure s).congr
    intro room _
    rw [visit, if_pos (.inr hmem)]
  · have hvisit : ∀ room, maxVisited ≤ room → visit run room (climb' room) s m =
        if isOpen run m then climb' room m (meet run m s) else meet run m s := by
      intro room hle
      rw [visit, if_neg]
      rintro (hfull | hm)
      · omega
      · apply hmem hm
    rw [if_neg hmem]
    cases hinit : m.isStaticInitializer with
    | true =>
        rw [if_pos rfl]
        apply (Follows.pass (Follows.pure _) rfl hinit).congr
        intro room hle
        rw [hvisit room hle]
        simp [isOpen, meet, hinit]
    | false =>
        rw [if_neg Bool.false_ne_true]
        apply Follows.congr _ hvisit
        have hmeet : meet run m s = ⟨m :: s.visited, s.findings.note m (run m)⟩ := by
          simp [meet, hinit]
        apply Follows.ran (t := meet run m s) _ rfl hinit
        rw [← hmeet, Nat.zero_add]
        cases hrun : run m with
        | error err =>
            simpa [climbOn, isOpen, hinit, hrun] using (Follows.pure _).mono (Nat.zero_le _)
        | ok o =>
            cases hopen : o.isConclusive with
            | true =>
                simpa [climbOn, isOpen, hinit, hrun, hopen] using
                  (Follows.pure _).mono (Nat.zero_le _)
            | false => simpa [climbOn, isOpen, hinit, hrun, hopen] using hclimb m (meet run m s)

theorem follows_visitAll {climb : MethodSig → State → StateM Record State}
    {climb' : Nat → MethodSig → State → State}
    (hclimb : ∀ m s, Follows g maxVisited s (g.callers m).length (climb m s)
      (fun room => climb' room m s)) (l : List MethodSig) (s : State) :
  Follows g maxVisited s l.length (visitAllWith (recorder run) maxVisited climb l s)
    (fun room => visitAll run room (climb' room) l s)
  := by
  induction l generalizing s with
  | nil => apply Follows.pure
  | cons m rest ih =>
      rw [visitAllWith]
      apply Follows.look
      by_cases hfull : maxVisited ≤ s.visited.length
      · rw [if_pos hfull]
        apply Follows.stop
        rw [visitAll, if_pos hfull]
      · have hvisit : Follows g maxVisited s 0 (visitWith (recorder run) climb m s)
            (fun room => visit run room (climb' room) s m) :=
          follows_visit hclimb m (Nat.lt_of_not_le hfull)
        rw [if_neg hfull, ← Nat.zero_add rest.length]
        apply (hvisit.bind (z := fun room => visitAll run room (climb' room) rest) (ih _)).congr
        intro room _
        rw [visitAll_eq_foldl, visitAll_eq_foldl, List.foldl_cons]

theorem follows_walk (depth : Nat) (m : MethodSig) (s : State) :
  Follows g maxVisited s (g.callers m).length
    (walkWith (recorder run) maxVisited g depth m s) (fun room => walk run room g depth m s)
  := by
  induction depth generalizing m s with
  | zero => apply (Follows.pure s).mono (Nat.zero_le _)
  | succ depth ih => apply follows_visitAll ih

/-- The search visits no more methods than there is room for. -/
theorem length_visited_walk (depth : Nat) (m : MethodSig) (s : State) :
  (walk run maxVisited g depth m s).visited.length ≤ max s.visited.length maxVisited
  := by
  induction depth generalizing m s with
  | zero => apply Nat.le_max_left
  | succ depth ih =>
      rw [walk, visitAll_eq_foldl]
      generalize g.callers m = callers
      induction callers generalizing s with
      | nil => apply Nat.le_max_left
      | cons c callers ihs =>
          apply Nat.le_trans (ihs _)
          have hvisit : (visit run maxVisited (walk run maxVisited g depth) s c).visited.length ≤
              max s.visited.length maxVisited := by
            rw [visit]
            split
            · apply Nat.le_max_left
            · next hroom =>
              have hmeet : (meet run c s).visited.length ≤ maxVisited := by
                rw [meet, List.length_cons]
                omega
              split
              · have hclimb := ih c (meet run c s)
                omega
              · omega
          omega

end

/-! ### The whole search -/

namespace Search

variable (p : Search) (f : Findings)

/-- The search with a record of what it does. -/
def recorded : State × Record :=
  (walkWith (recorder p.run) p.maxVisited p.graph p.maxDepth p.start ⟨[p.start], f⟩).run {}

/-- The run of the method was possible and left the call open. -/
def LeavesOpen (m : MethodSig) : Prop := ∃ o, p.run m = .ok o ∧ o.isConclusive = false

/-- The search keeps its bounds, runs only what chains of callers lead to, and all of that if the
bounds do not come into play. -/
structure Bounded (r : Record) : Prop where
  /-- No method is run twice. -/
  nodup : r.ran.Nodup
  start : p.start ∉ r.ran
  initializer : ∀ m ∈ r.ran, m.isStaticInitializer = false
  /-- The first method takes up room as well. -/
  count : r.ran.length ≤ p.maxVisited - 1
  /-- The search ends when it has looked at the callers of the methods that it climbed from. -/
  looked : r.looked ≤ ((p.start :: r.ran).flatMap p.graph.callers).length
  /-- The methods on the way to a method were run before and left the call open. -/
  chain : ∀ m ∈ r.ran, ∃ path, path.length ≤ p.maxDepth ∧
    p.graph.Chain (fun c => c ∈ r.ran ∧ p.LeavesOpen c) p.start (m :: path)
  complete : p.graph.IsClosed → p.graph.methods.length ≤ p.maxDepth → r.stopped = false →
    ∀ m path, m ≠ p.start → m.isStaticInitializer = false →
      p.graph.Chain (fun c => c.isStaticInitializer = false ∧ p.LeavesOpen c) p.start (m :: path) →
      m ∈ r.ran

variable {p f}

theorem isOpen_iff {m : MethodSig} :
  isOpen p.run m = true ↔ m.isStaticInitializer = false ∧ p.LeavesOpen m
  := by
  rw [isOpen, LeavesOpen]
  cases p.run m with
  | error e => simp
  | ok o => simp

/-- The record does not change the search, and its runs are those of the methods that were met. -/
theorem follows_recorded (p : Search) (f : Findings) :
  Follows p.graph p.maxVisited ⟨[p.start], f⟩ (p.graph.callers p.start).length
    (walkWith (recorder p.run) p.maxVisited p.graph p.maxDepth p.start ⟨[p.start], f⟩)
    (fun room => ({ p with maxVisited := room } : Search).result f)
  := follows_walk p.maxDepth p.start ⟨[p.start], f⟩

theorem exists_met (p : Search) (f : Findings) :
  ∃ met, (p.result f).visited = met ++ [p.start] ∧ (p.recorded f).2.ran = runnable met ∧
    (p.recorded f).2.looked ≤ ((p.start :: runnable met).flatMap p.graph.callers).length
  := by
  obtain ⟨met, hvisited, hmet⟩ := (p.follows_recorded f).met
  obtain ⟨hran, hlooked⟩ := hmet {}
  use met, hvisited
  constructor
  · rw [recorded, hran, List.append_nil]
  · rw [List.flatMap_cons, List.length_append, recorded]
    simpa using hlooked

/-- The methods in the record are those that were visited, less the first one and the static
initializers. -/
theorem ran_recorded (p : Search) (f : Findings) :
  (p.recorded f).2.ran = p.ran f
  := by
  obtain ⟨met, hvisited, hran, _⟩ := p.exists_met f
  have hnodup := p.nodup_visited_result f
  rw [hvisited, List.nodup_append] at hnodup
  rw [hran, runnable, ran, hvisited, List.filter_append]
  have hstart : [p.start].filter (fun m => m ≠ p.start && !m.isStaticInitializer) = [] := by simp
  rw [hstart, List.append_nil]
  apply List.filter_congr
  intro m hm
  have hne : m ≠ p.start := hnodup.2.2 m hm p.start List.mem_cons_self
  simp [hne]

/-- The methods that a chain of visited methods passes were run. -/
theorem chain_of_visited {path : List MethodSig} (h : p.Chain path) (hnodup : path.Nodup)
    (hvisited : path ⊆ (p.result f).visited) :
  p.graph.Chain (fun c => c ∈ p.ran f ∧ p.LeavesOpen c) p.start path
  := by
  induction h with
  | start => apply CallGraph.Chain.start
  | @climb c m path below passes calls ih =>
      obtain ⟨_, hnodup⟩ := List.nodup_cons.1 hnodup
      obtain ⟨_, hvisited⟩ := List.cons_subset.1 hvisited
      apply (ih hnodup hvisited).climb _ calls
      by_cases hpath : path = []
      · apply Or.inl hpath
      · have hopen := isOpen_iff.1 (passes.resolve_left hpath)
        have hstart : p.start ∈ path := by
          cases below with
          | start => contradiction
          | climb below _ _ => apply below.start_mem
        have hne : c ≠ p.start := by
          rintro rfl
          apply (List.nodup_cons.1 hnodup).1 hstart
        apply Or.inr ⟨mem_ran.2 ⟨hvisited List.mem_cons_self, hne, hopen.1⟩, hopen.2⟩

/-- If the search has room and may climb over all methods of the graph, no chain is too long. -/
theorem mem_ran_of_not_stopped (hclosed : p.graph.IsClosed)
    (hdepth : p.graph.methods.length ≤ p.maxDepth) (hstopped : (p.recorded f).2.stopped = false)
    {m : MethodSig} {path : List MethodSig} (hne : m ≠ p.start)
    (hinit : m.isStaticInitializer = false) (hchain : p.Chain (m :: path)) :
  m ∈ p.ran f
  := by
  -- The same search with more room visits the same methods, and then there is room left.
  let q : Search := { p with maxVisited := p.maxVisited + (p.result f).visited.length + 1 }
  have hresult : q.result f = p.result f :=
    ((p.follows_recorded f).stopped {} hstopped).2 q.maxVisited (by simp only [q]; omega)
  have hran : q.ran f = p.ran f := by
    rw [ran, ran, hresult]
  have hstart : p.start ∈ p.graph.methods := by
    apply (CallGraph.Chain.start_mem_methods hclosed hchain).resolve_left
    intro heq
    apply hne (List.cons.inj heq).1
  rw [← hran]
  apply mem_ran_of_chain (p := q) (by rw [hresult]; simp only [q]; omega) hchain hne hinit
  intro c _ way hway hnodup
  have hsubset := Chain.subset (p := q) hway hstart fun _ _ => hclosed.caller_mem
  have hlength := (List.subperm_of_subset hnodup hsubset).length_le
  rw [List.length_cons] at hlength
  simp only [q]
  omega

/-- The search is bounded and climbs along chains of callers through methods that left the call
open, and it runs all methods that such chains lead to unless a bound keeps it from doing so.  The
graph of a view is closed, as this asks for. -/
theorem recorded_bounded (p : Search) (f : Findings) :
  (p.recorded f).1 = p.result f ∧ p.Bounded (p.recorded f).2 ∧
  ∀ {v : View} {skip : Invoke → Bool}, CallGraph.build v skip = .ok p.graph → p.graph.IsClosed
  := by
  obtain ⟨met, hvisited, hmet, hlooked⟩ := p.exists_met f
  have hran := p.ran_recorded f
  refine ⟨(p.follows_recorded f).result {}, ?_, CallGraph.isClosed_build⟩
  constructor
  · rw [hran, ran]
    apply (p.nodup_visited_result f).filter
  · rw [hran, mem_ran]
    rintro ⟨_, hne, _⟩
    apply hne rfl
  · intro m hm
    rw [hran] at hm
    apply (mem_ran.1 hm).2.2
  · have hroom : (p.result f).visited.length ≤ max [p.start].length p.maxVisited :=
      length_visited_walk p.maxDepth p.start ⟨[p.start], f⟩
    have hfilter : (runnable met).length ≤ met.length := List.length_filter_le _ _
    have hlength := congrArg List.length hvisited
    simp only [List.length_append, List.length_cons, List.length_nil] at hlength hroom
    rw [hmet]
    omega
  · rw [hmet]
    apply hlooked
  · intro m hm
    rw [hran] at hm ⊢
    obtain ⟨trail, hexplores, _⟩ := p.exists_trails f
    have htrails := hexplores.trails
    have hm := (mem_ran.1 hm).1
    use trail m, htrails.bounded m hm
    apply chain_of_visited (htrails.chain m hm) (htrails.nodup m hm)
    apply List.cons_subset.2 ⟨hm, htrails.visited m hm⟩
  · intro hclosed hdepth hstopped m path hne hinit hchain
    rw [hran]
    apply mem_ran_of_not_stopped hclosed hdepth hstopped hne hinit
    apply hchain.mono
    intro c hc
    apply isOpen_iff.2 hc

end Search

/-! ### Methods in a circle -/

namespace Detour

/-- The enclosing method calls the shared one back, and the relay calls itself. -/
def circle : CallGraph :=
  { graph with edges := ⟨⟨enclosing, 2⟩, shared⟩ :: ⟨⟨relay, 2⟩, relay⟩ :: graph.edges }

/-- A search that may climb over all methods. -/
def circling : Search := ⟨fun _ => .ok ⟨[], 1, 1⟩, 5, circle, 4, enclosing⟩

/-- The bounds are just large enough for the search to end by itself with the top method run. -/
theorem circling_runs_top :
  circle.IsClosed ∧ circle.methods.length ≤ circling.maxDepth ∧
  (circling.recorded {}).2.stopped = false ∧ top ∈ (circling.recorded {}).2.ran ∧
  (circling.recorded {}).2.ran.length ≤ 4
  := by
  have hclosed : circle.IsClosed := by decide
  have hstopped : (circling.recorded {}).2.stopped = false := by decide
  have hshared : circle.Chain
      (fun c => c.isStaticInitializer = false ∧ circling.LeavesOpen c) enclosing
      [shared, enclosing] :=
    CallGraph.Chain.start.climb (.inl rfl) (by decide)
  have hbounded := (Search.recorded_bounded circling {}).2.1
  refine ⟨hclosed, by decide, hstopped, ?_, hbounded.count⟩
  apply hbounded.complete hclosed (by decide) hstopped top [shared, enclosing] (by decide)
    (by decide)
  apply hshared.climb (.inr ⟨by decide, _, rfl, by decide⟩) (by decide)

end Detour

end CallerSearch

end ServiceFlow
