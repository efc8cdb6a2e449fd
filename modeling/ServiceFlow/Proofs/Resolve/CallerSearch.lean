import Mathlib.Data.List.Basic
import Mathlib.Logic.Function.Basic
import ServiceFlow.Resolve.CallerSearch

/-!
# What the search among callers visits

The search climbs from a method to its callers as deep as the bound allows, and meets no method
twice.  A method keeps the level of the chain over which it was met first.  If that is the last
level, the search does not climb on from the method, though a shorter chain may lead to it.  Hence
the search runs the callers of the methods that it met below the last level, and not always all
methods within the bound.
-/

namespace ServiceFlow

/-- A chain of callers that starts at a method, the last caller first.  All methods between the
first and the last one satisfy `through`. -/
inductive CallGraph.Chain (g : CallGraph) (through : MethodSig → Prop) (start : MethodSig) :
    List MethodSig → Prop where
  | start : Chain g through start [start]
  | climb {c m : MethodSig} {path : List MethodSig} (below : Chain g through start (c :: path))
      (passes : path = [] ∨ through c) (calls : m ∈ g.callers c) :
      Chain g through start (m :: c :: path)

namespace CallGraph.Chain

variable {g : CallGraph} {through : MethodSig → Prop} {start : MethodSig} {path : List MethodSig}

theorem start_mem (h : g.Chain through start path) :
  start ∈ path
  := by
  induction h with
  | start => apply List.mem_cons_self
  | climb _ _ _ ih => apply List.mem_cons_of_mem _ ih

theorem mono {through' : MethodSig → Prop} (h : g.Chain through start path)
    (himp : ∀ m, through m → through' m) :
  g.Chain through' start path
  := by
  induction h with
  | start => apply Chain.start
  | climb _ hpasses hcalls ih => apply ih.climb (hpasses.imp_right (himp _)) hcalls

end CallGraph.Chain

namespace CallerSearch

/-- The method is no static initializer, and its run was possible and left the call open. -/
def isOpen (run : MethodSig → Except ScopeError Outcome) (m : MethodSig) : Bool :=
  !m.isStaticInitializer &&
    match run m with
    | .ok o => !o.isConclusive
    | .error _ => false

/-! ### One visit -/

section

variable (run : MethodSig → Except ScopeError Outcome) (maxVisited : Nat)

/-- The state when a method was met and, unless it is a static initializer, run. -/
def meet (m : MethodSig) (s : State) : State where
  visited := m :: s.visited
  findings := if m.isStaticInitializer then s.findings else s.findings.note m (run m)

/-- Visits one method, and climbs on from it if it is open. -/
def visit (climb : MethodSig → State → State) (s : State) (m : MethodSig) : State :=
  if maxVisited ≤ s.visited.length ∨ m ∈ s.visited then s
  else if isOpen run m then climb m (meet run m s) else meet run m s

theorem foldl_visit_of_full (climb : MethodSig → State → State) (l : List MethodSig) {s : State}
    (h : maxVisited ≤ s.visited.length) :
  l.foldl (visit run maxVisited climb) s = s
  := by
  induction l with
  | nil => rfl
  | cons m l ih =>
      rw [List.foldl_cons, visit, if_pos (.inl h)]
      apply ih

/-- To visit methods in turn is to visit one after another: when the bound is reached, the remaining
visits change nothing. -/
theorem visitAll_eq_foldl (climb : MethodSig → State → State) (l : List MethodSig) (s : State) :
  visitAll run maxVisited climb l s = l.foldl (visit run maxVisited climb) s
  := by
  induction l generalizing s with
  | nil => rfl
  | cons m l ih =>
      rw [visitAll, List.foldl_cons, visit]
      by_cases hfull : maxVisited ≤ s.visited.length
      · rw [if_pos hfull, if_pos (.inl hfull), foldl_visit_of_full _ _ _ _ hfull]
      by_cases hmem : m ∈ s.visited
      · rw [if_neg hfull, if_pos hmem, if_pos (.inr hmem), ih]
      rw [if_neg hfull, if_neg hmem, if_neg (not_or_intro hfull hmem)]
      cases hinit : m.isStaticInitializer with
      | true => simp [isOpen, meet, hinit, ih]
      | false =>
          cases hrun : run m with
          | error e => simp [isOpen, meet, hinit, hrun, ih]
          | ok o => cases hopen : o.isConclusive <;> simp [isOpen, meet, hinit, hrun, hopen, ih]

end

/-! ### What a search adds -/

/-- The second state has met some new methods after the first one, and has run those of them that
are no static initializers. -/
def Grows (run : MethodSig → Except ScopeError Outcome) (s t : State) : Prop :=
  ∃ met, t.visited = met ++ s.visited ∧ (∀ m ∈ met, m ∉ s.visited) ∧
    t.findings = (met.filter (fun m => !m.isStaticInitializer)).foldr
      (fun m f => f.note m (run m)) s.findings

namespace Grows

variable {run : MethodSig → Except ScopeError Outcome} {s t u : State}

theorem refl (s : State) :
  Grows run s s
  := by
  use []
  simp

theorem trans (hst : Grows run s t) (htu : Grows run t u) :
  Grows run s u
  := by
  obtain ⟨met, hvisited, hmet, hfindings⟩ := hst
  obtain ⟨more, hvisited', hmore, hfindings'⟩ := htu
  use more ++ met
  refine ⟨?_, ?_, ?_⟩
  · rw [hvisited', hvisited, List.append_assoc]
  · intro m hm
    rcases List.mem_append.1 hm with hm | hm
    · intro hs
      apply hmore m hm
      rw [hvisited]
      apply List.mem_append_right _ hs
    · apply hmet m hm
  · rw [hfindings', hfindings, List.filter_append, List.foldr_append]

theorem mem_visited (h : Grows run s t) {m : MethodSig} (hm : m ∈ s.visited) :
  m ∈ t.visited
  := by
  obtain ⟨met, hvisited, _⟩ := h
  rw [hvisited]
  apply List.mem_append_right _ hm

theorem length_visited (h : Grows run s t) :
  s.visited.length ≤ t.visited.length
  := by
  obtain ⟨met, hvisited, _⟩ := h
  rw [hvisited, List.length_append]
  omega

end Grows

theorem grows_meet {run : MethodSig → Except ScopeError Outcome} {m : MethodSig} {s : State}
    (h : m ∉ s.visited) :
  Grows run s (meet run m s)
  := by
  use [m], rfl
  constructor
  · simpa using h
  · cases hinit : m.isStaticInitializer <;> simp [meet, hinit]

/-! ### Trails -/

/-- A search from a method: the runs, the bounds and the graph to climb in. -/
structure Search where
  run : MethodSig → Except ScopeError Outcome
  maxVisited : Nat
  graph : CallGraph
  maxDepth : Nat
  start : MethodSig

namespace Search

/-- The state in which the search ends. -/
def result (p : Search) (f : Findings) : State :=
  walk p.run p.maxVisited p.graph p.maxDepth p.start ⟨[p.start], f⟩

/-- The methods that the search has run, the last one first. -/
def ran (p : Search) (f : Findings) : List MethodSig :=
  (p.result f).visited.filter (fun m => m ≠ p.start && !m.isStaticInitializer)

/-- A chain of callers through open methods. -/
def Chain (p : Search) : List MethodSig → Prop := p.graph.Chain (fun m => isOpen p.run m) p.start

end Search

variable (p : Search)

/-- The chains over which the visited methods were met: no method occurs twice in such a chain, and
all its methods were visited before, over shorter chains. -/
structure Trails (s : State) (trail : MethodSig → List MethodSig) : Prop where
  chain : ∀ c ∈ s.visited, p.Chain (c :: trail c)
  nodup : ∀ c ∈ s.visited, (c :: trail c).Nodup
  visited : ∀ c ∈ s.visited, trail c ⊆ s.visited
  shorter : ∀ c ∈ s.visited, ∀ x ∈ trail c, (trail x).length < (trail c).length
  bounded : ∀ c ∈ s.visited, (trail c).length ≤ p.maxDepth

/-- If the method was met below the last level, all its callers were visited, unless there was no
room for them. -/
def Climbed (s : State) (trail : MethodSig → List MethodSig) (c : MethodSig) : Prop :=
  c = p.start ∨ isOpen p.run c → (trail c).length < p.maxDepth →
    s.visited.length < p.maxVisited → ∀ m ∈ p.graph.callers c, m ∈ s.visited

/-- From the first state to the second the search met new methods and climbed on from them. -/
structure Explores (s : State) (trail : MethodSig → List MethodSig) (t : State)
    (trail' : MethodSig → List MethodSig) : Prop where
  grows : Grows p.run s t
  kept : ∀ c ∈ s.visited, trail' c = trail c
  trails : Trails p t trail'
  climbed : ∀ c ∈ t.visited, c ∉ s.visited → Climbed p t trail' c

/-- Climbing from a method that was met at the level explores its callers. -/
def ClimbsFrom (level : Nat) (climb : MethodSig → State → State) : Prop :=
  ∀ c s trail, Trails p s trail → c ∈ s.visited → c = p.start ∨ isOpen p.run c →
    (trail c).length = level →
    ∃ trail', Explores p s trail (climb c s) trail' ∧ Climbed p (climb c s) trail' c

variable {p} {s t u : State} {trail trail' trail'' : MethodSig → List MethodSig} {c m : MethodSig}

theorem Climbed.mono (h : Climbed p s trail c) (hgrows : Grows p.run s t)
    (hkept : trail' c = trail c) :
  Climbed p t trail' c
  := by
  intro hpass hlevel hroom m hm
  rw [hkept] at hlevel
  have hlength := hgrows.length_visited
  apply hgrows.mem_visited (h hpass hlevel (by omega) m hm)

theorem Explores.refl (h : Trails p s trail) :
  Explores p s trail s trail
  := ⟨.refl s, fun _ _ => rfl, h, fun _ hc hnew => absurd hc hnew⟩

theorem Explores.trans (hst : Explores p s trail t trail') (htu : Explores p t trail' u trail'') :
  Explores p s trail u trail''
  := by
  refine ⟨hst.grows.trans htu.grows, ?_, htu.trails, ?_⟩
  · intro c hc
    rw [htu.kept c (hst.grows.mem_visited hc), hst.kept c hc]
  · intro c hc hnew
    by_cases hct : c ∈ t.visited
    · apply (hst.climbed c hct hnew).mono htu.grows (htu.kept c hct)
    · apply htu.climbed c hc hct

theorem Trails.start_mem (h : Trails p s trail) (hc : c ∈ s.visited) :
  p.start ∈ s.visited
  := by
  rcases List.mem_cons.1 (h.chain c hc).start_mem with hstart | hmem
  · rw [hstart]
    apply hc
  · apply h.visited c hc hmem

theorem Trails.trail_start (h : Trails p s trail) (hstart : p.start ∈ s.visited) :
  trail p.start = []
  := by
  have hchain := h.chain p.start hstart
  have hnodup := h.nodup p.start hstart
  cases htrail : trail p.start with
  | nil => rfl
  | cons c path =>
      rw [htrail] at hchain hnodup
      cases hchain with
      | climb below _ _ => exact absurd below.start_mem (List.nodup_cons.1 hnodup).1

theorem update_of_visited {path : List MethodSig} (hnew : m ∉ s.visited) (hc : c ∈ s.visited) :
  Function.update trail m path c = trail c
  := by
  apply Function.update_of_ne
  rintro rfl
  apply hnew hc

/-- A method that is met as the caller of another one extends its trail. -/
theorem Trails.meet (h : Trails p s trail) (hc : c ∈ s.visited)
    (hpass : c = p.start ∨ isOpen p.run c) (hlevel : (trail c).length < p.maxDepth)
    (hcalls : m ∈ p.graph.callers c) (hnew : m ∉ s.visited) :
  Trails p (meet p.run m s) (Function.update trail m (c :: trail c))
  := by
  have hpasses : trail c = [] ∨ isOpen p.run c := by
    apply hpass.imp_left
    rintro rfl
    apply h.trail_start hc
  constructor
  · intro x hx
    rcases List.mem_cons.1 hx with rfl | hx
    · rw [Function.update_self]
      apply (h.chain c hc).climb hpasses hcalls
    · rw [update_of_visited hnew hx]
      apply h.chain x hx
  · intro x hx
    rcases List.mem_cons.1 hx with rfl | hx
    · rw [Function.update_self, List.nodup_cons]
      constructor
      · intro hmem
        rcases List.mem_cons.1 hmem with rfl | hmem
        · apply hnew hc
        · apply hnew (h.visited c hc hmem)
      · apply h.nodup c hc
    · rw [update_of_visited hnew hx]
      apply h.nodup x hx
  · intro x hx
    apply List.Subset.trans _ (List.subset_cons_self _ _)
    rcases List.mem_cons.1 hx with rfl | hx
    · rw [Function.update_self]
      apply List.cons_subset.2 ⟨hc, h.visited c hc⟩
    · rw [update_of_visited hnew hx]
      apply h.visited x hx
  · intro x hx y hy
    rcases List.mem_cons.1 hx with rfl | hx
    · rw [Function.update_self] at hy ⊢
      rw [List.length_cons]
      rcases List.mem_cons.1 hy with rfl | hy
      · rw [update_of_visited hnew hc]
        omega
      · rw [update_of_visited hnew (h.visited c hc hy)]
        have hshorter := h.shorter c hc y hy
        omega
    · rw [update_of_visited hnew hx] at hy ⊢
      rw [update_of_visited hnew (h.visited x hx hy)]
      apply h.shorter x hx y hy
  · intro x hx
    rcases List.mem_cons.1 hx with rfl | hx
    · rw [Function.update_self, List.length_cons]
      omega
    · rw [update_of_visited hnew hx]
      apply h.bounded x hx

/-- The visit of a caller explores it, and ends with the caller visited if there is room. -/
theorem explores_visit {climb : MethodSig → State → State}
    (hclimb : ClimbsFrom p ((trail c).length + 1) climb) (hlevel : (trail c).length < p.maxDepth)
    (h : Trails p s trail) (hc : c ∈ s.visited) (hpass : c = p.start ∨ isOpen p.run c)
    (hcalls : m ∈ p.graph.callers c) :
  ∃ trail', Explores p s trail (visit p.run p.maxVisited climb s m) trail' ∧
    ((visit p.run p.maxVisited climb s m).visited.length < p.maxVisited →
      m ∈ (visit p.run p.maxVisited climb s m).visited)
  := by
  rw [visit]
  split
  · next hskip =>
    use trail, .refl h
    intro hroom
    apply hskip.resolve_left
    omega
  · next hvisit =>
    have hnew : m ∉ s.visited := fun hm => hvisit (.inr hm)
    have hmeet := h.meet hc hpass hlevel hcalls hnew
    have hmem : m ∈ (meet p.run m s).visited := List.mem_cons_self
    split
    · next hopen =>
      obtain ⟨trail', hexplores, hclimbed⟩ := hclimb m _ _ hmeet hmem (.inr hopen) (by
        rw [Function.update_self, List.length_cons])
      use trail'
      refine ⟨⟨(grows_meet hnew).trans hexplores.grows, ?_, hexplores.trails, ?_⟩, ?_⟩
      · intro x hx
        rw [hexplores.kept x (List.mem_cons_of_mem _ hx), update_of_visited hnew hx]
      · intro x hx hxs
        by_cases hxm : x = m
        · rw [hxm]
          apply hclimbed
        · apply hexplores.climbed x hx
          simp [meet, hxm, hxs]
      · intro _
        apply hexplores.grows.mem_visited hmem
    · next hclosed =>
      use Function.update trail m (c :: trail c)
      refine ⟨⟨grows_meet hnew, fun _ => update_of_visited hnew, hmeet, ?_⟩, fun _ => hmem⟩
      -- The only new method is closed and not the start, so nothing is to be climbed.
      intro x hx hxs hpass
      have hxm : x = m := (List.mem_cons.1 hx).resolve_right hxs
      rw [hxm] at hpass
      rcases hpass with rfl | hopen
      · exact absurd (h.start_mem hc) hnew
      · exact absurd hopen hclosed

theorem explores_foldl_visit {level : Nat} {climb : MethodSig → State → State}
    (hclimb : ClimbsFrom p (level + 1) climb) (hbound : level < p.maxDepth)
    (hpass : c = p.start ∨ isOpen p.run c) {l : List MethodSig} (hl : l ⊆ p.graph.callers c)
    (h : Trails p s trail) (hc : c ∈ s.visited) (hlevel : (trail c).length = level) :
  ∃ trail', Explores p s trail (l.foldl (visit p.run p.maxVisited climb) s) trail' ∧
    ((l.foldl (visit p.run p.maxVisited climb) s).visited.length < p.maxVisited →
      ∀ m ∈ l, m ∈ (l.foldl (visit p.run p.maxVisited climb) s).visited)
  := by
  induction l generalizing s trail with
  | nil => use trail, .refl h, fun _ _ => nofun
  | cons m l ih =>
      obtain ⟨hm, hl⟩ := List.cons_subset.1 hl
      subst hlevel
      obtain ⟨trail', hvisit, hmem⟩ := explores_visit hclimb hbound h hc hpass hm
      obtain ⟨trail'', hrest, hall⟩ := ih hl hvisit.trails (hvisit.grows.mem_visited hc)
        (by rw [hvisit.kept c hc])
      use trail'', hvisit.trans hrest
      intro hroom x hx
      rcases List.mem_cons.1 hx with rfl | hx
      · apply hrest.grows.mem_visited (hmem _)
        have hlength := hrest.grows.length_visited
        rw [List.foldl_cons] at hroom
        omega
      · apply hall hroom x hx

theorem climbsFrom_walk (depth level : Nat) (h : level + depth = p.maxDepth) :
  ClimbsFrom p level (walk p.run p.maxVisited p.graph depth)
  := by
  induction depth generalizing level with
  | zero =>
      intro c s trail htrails hc hpass hlevel
      use trail, .refl htrails
      intro _ hbelow
      omega
  | succ depth ih =>
      intro c s trail htrails hc hpass hlevel
      obtain ⟨trail', hexplores, hall⟩ := explores_foldl_visit (ih (level + 1) (by omega))
        (by omega) hpass (List.Subset.refl _) htrails hc hlevel
      rw [walk, visitAll_eq_foldl]
      use trail', hexplores
      intro _ _ hroom
      apply hall hroom

/-! ### The whole search -/

namespace Search

variable (p : Search) (f : Findings)

/-- The search climbed on from all methods that it met below the last level. -/
theorem exists_trails :
  ∃ trail, Explores p ⟨[p.start], f⟩ (fun _ => []) (p.result f) trail ∧
    ∀ c ∈ (p.result f).visited, Climbed p (p.result f) trail c
  := by
  have htrails : Trails p ⟨[p.start], f⟩ (fun _ => []) := by
    constructor <;> intro c hc <;> obtain rfl := List.mem_singleton.1 hc
    · apply CallGraph.Chain.start
    · apply List.nodup_cons.2 ⟨List.not_mem_nil, List.nodup_nil⟩
    · apply List.nil_subset
    · nofun
    · apply Nat.zero_le
  obtain ⟨trail, hexplores, hclimbed⟩ := climbsFrom_walk p.maxDepth 0 (Nat.zero_add _)
    p.start _ _ htrails List.mem_cons_self (.inl rfl) rfl
  use trail, hexplores
  intro c hc
  by_cases hstart : c = p.start
  · rw [hstart]
    apply hclimbed
  · apply hexplores.climbed c hc
    simpa using hstart

/-- The findings are those of the methods that were run. -/
theorem findings_result :
  (p.result f).findings = (p.ran f).foldr (fun m f => f.note m (p.run m)) f
  := by
  obtain ⟨trail, hexplores, _⟩ := p.exists_trails f
  obtain ⟨met, hvisited, hmet, hfindings⟩ := hexplores.grows
  have hran : p.ran f = met.filter (fun m => !m.isStaticInitializer) := by
    rw [ran, hvisited, List.filter_append]
    have hstart : [p.start].filter (fun m => m ≠ p.start && !m.isStaticInitializer) = [] := by simp
    rw [hstart, List.append_nil]
    apply List.filter_congr
    intro m hm
    have hne : m ≠ p.start := by simpa using hmet m hm
    simp [hne]
  rw [hfindings, hran]

variable {p f}

theorem mem_ran {m : MethodSig} :
  m ∈ p.ran f ↔ m ∈ (p.result f).visited ∧ m ≠ p.start ∧ m.isStaticInitializer = false
  := by
  simp [ran]

/-- The search has visited all methods of a chain that passes methods below the last level only. -/
theorem mem_visited_of_chain {trail : MethodSig → List MethodSig}
    (hstart : p.start ∈ (p.result f).visited)
    (hclimbed : ∀ c ∈ (p.result f).visited, Climbed p (p.result f) trail c)
    (hroom : (p.result f).visited.length < p.maxVisited) {path : List MethodSig}
    (hchain : p.Chain path)
    (hlevel : ∀ c ∈ path.tail, c ∈ (p.result f).visited → (trail c).length < p.maxDepth) :
  ∀ m ∈ path, m ∈ (p.result f).visited
  := by
  induction hchain with
  | start =>
      intro m hm
      rw [List.mem_singleton.1 hm]
      apply hstart
  | @climb c m path below passes calls ih =>
      have hvisited := ih (fun x hx => hlevel x (List.mem_cons_of_mem _ hx))
      have hc : c ∈ (p.result f).visited := hvisited c List.mem_cons_self
      have hpass : c = p.start ∨ isOpen p.run c := by
        apply passes.imp_left
        rintro rfl
        cases below
        rfl
      intro x hx
      rcases List.mem_cons.1 hx with rfl | hx
      · apply hclimbed c hc hpass (hlevel c List.mem_cons_self hc) hroom x calls
      · apply hvisited x hx

/-- A method is run if it has a chain through methods to which no chain without repetitions leads
that is as long as the bound. -/
theorem mem_ran_of_chain (hroom : (p.result f).visited.length < p.maxVisited) {m : MethodSig}
    {path : List MethodSig} (hchain : p.Chain (m :: path)) (hne : m ≠ p.start)
    (hinit : m.isStaticInitializer = false)
    (hshort : ∀ c ∈ path, ∀ way, p.Chain (c :: way) → (c :: way).Nodup →
      way.length ≠ p.maxDepth) :
  m ∈ p.ran f
  := by
  obtain ⟨trail, hexplores, hclimbed⟩ := p.exists_trails f
  have htrails := hexplores.trails
  rw [mem_ran]
  refine ⟨?_, hne, hinit⟩
  apply mem_visited_of_chain (hexplores.grows.mem_visited List.mem_cons_self) hclimbed hroom hchain
    _ m List.mem_cons_self
  intro c hc hvisited
  have hlevel := hshort c hc (trail c) (htrails.chain c hvisited) (htrails.nodup c hvisited)
  have hbound := htrails.bounded c hvisited
  omega

/-- The search runs the methods at the end of a chain within the bound that passes only methods met
below the last level.  The level of a method is the length of one of its chains, which need not be
the shortest. -/
theorem mem_ran_iff_chain_below (p : Search) (f : Findings)
    (hroom : (p.result f).visited.length < p.maxVisited) :
  (p.result f).findings = (p.ran f).foldr (fun m f => f.note m (p.run m)) f ∧
  ∃ trail : MethodSig → List MethodSig,
    (∀ c ∈ (p.result f).visited, p.Chain (c :: trail c) ∧ (c :: trail c).Nodup) ∧
    ∀ m, m ∈ p.ran f ↔ m ≠ p.start ∧ m.isStaticInitializer = false ∧
      ∃ path, p.Chain (m :: path) ∧ path.length ≤ p.maxDepth ∧
        ∀ c ∈ path, (trail c).length < p.maxDepth
  := by
  use p.findings_result f
  obtain ⟨trail, hexplores, hclimbed⟩ := p.exists_trails f
  have htrails := hexplores.trails
  have hstart : p.start ∈ (p.result f).visited :=
    hexplores.grows.mem_visited List.mem_cons_self
  use trail
  constructor
  · intro c hc
    use htrails.chain c hc, htrails.nodup c hc
  · intro m
    rw [mem_ran]
    constructor
    · rintro ⟨hm, hne, hinit⟩
      use hne, hinit, trail m, htrails.chain m hm, htrails.bounded m hm
      intro c hc
      apply Nat.lt_of_lt_of_le (htrails.shorter m hm c hc) (htrails.bounded m hm)
    · rintro ⟨hne, hinit, path, hchain, hlength, hlevel⟩
      refine ⟨?_, hne, hinit⟩
      apply mem_visited_of_chain hstart hclimbed hroom hchain _ m List.mem_cons_self
      intro c hc _
      apply hlevel c hc

end Search

/-! ### A method that is met over a detour -/

namespace Detour

def enclosing : MethodSig := ⟨⟨"A"⟩, "install", [.cls], .void⟩
def relay : MethodSig := ⟨⟨"A"⟩, "relay", [.cls], .void⟩
def shared : MethodSig := ⟨⟨"A"⟩, "shared", [.cls], .void⟩
def top : MethodSig := ⟨⟨"A"⟩, "top", [], .void⟩

/-- The shared method calls the enclosing one both on its own and over the relay. -/
def graph : CallGraph where
  methods := [enclosing, relay, shared, top]
  edges := [⟨⟨relay, 1⟩, enclosing⟩, ⟨⟨shared, 1⟩, relay⟩, ⟨⟨shared, 2⟩, enclosing⟩,
    ⟨⟨top, 0⟩, shared⟩]

/-- A search with runs that all leave the call open. -/
def search (maxDepth : Nat) : Search := ⟨fun _ => .ok ⟨[], 1, 1⟩, 10, graph, maxDepth, enclosing⟩

theorem chain_top :
  (search 2).Chain [top, shared, enclosing]
  := by
  have hshared : (search 2).Chain [shared, enclosing] :=
    CallGraph.Chain.start.climb (.inl rfl) (by decide)
  apply hshared.climb (.inr (by decide)) (by decide)

/-- The top method is within the bound and is not run: the search meets the shared method over the
relay first, at the last level. -/
theorem top_not_ran :
  ((search 2).result {}).visited.length < (search 2).maxVisited ∧
  (search 2).Chain [top, shared, enclosing] ∧ [shared, enclosing].length ≤ (search 2).maxDepth ∧
  top ≠ enclosing ∧ top.isStaticInitializer = false ∧ top ∉ (search 2).ran {}
  := by
  refine ⟨by decide, chain_top, ?_⟩
  decide

/-- Some method of the short chain to the top method has the bound as its level. -/
theorem exists_trail_at_bound :
  ((search 2).result {}).visited.length < (search 2).maxVisited ∧
  ∃ trail : MethodSig → List MethodSig,
    (∀ c ∈ ((search 2).result {}).visited,
      (search 2).Chain (c :: trail c) ∧ (c :: trail c).Nodup) ∧
    ∃ c ∈ [shared, enclosing], 2 ≤ (trail c).length
  := by
  have hroom : ((search 2).result {}).visited.length < (search 2).maxVisited := by decide
  obtain ⟨_, trail, htrail, hiff⟩ := Search.mem_ran_iff_chain_below (search 2) {} hroom
  use hroom, trail, htrail
  by_contra hlevel
  have hran : top ∈ (search 2).ran {} := by
    apply (hiff top).2
    refine ⟨by decide, by decide, [shared, enclosing], chain_top, by decide, ?_⟩
    intro c hc
    by_contra hlong
    apply hlevel ⟨c, hc, Nat.le_of_not_lt hlong⟩
  revert hran
  decide

end Detour

end CallerSearch

end ServiceFlow
