import ServiceFlow.Proofs.Tabulation.Growth
import ServiceFlow.Tabulation.Stateful

/-!
# Runs in step

Whatever the flows of a problem yield, a run makes the same kinds of moves: it propagates path edges
along the graph, and records contexts and endings.  The limit on facts shows only where a fact is
dropped, so two runs with different limits do the same, memory included, until the tighter one drops
a fact.  A run that was not cut short is therefore the run under all larger limits.
-/

namespace ServiceFlow.Tabulation

variable {μ φ σ : Type} [DecidableEq μ] [Hashable μ] [DecidableEq φ] [Hashable φ]

/-! ### Moves -/

section

variable (g : Graph μ) (seeds : List (Point μ × φ)) (l : Limits)

/-- The path edges that may be propagated in a state, whatever facts the flows yield. -/
inductive Admitted (s : State μ φ) : PathEdge μ φ → Prop where
  | seed {q : Point μ} {d : φ} (hseed : (q, d) ∈ seeds) : Admitted s ⟨d, q, d⟩
  | along {e : PathEdge μ φ} {q : Point μ} {d : φ} (hedge : e ∈ s.edges)
      (hnext : q ∈ g.successors e.point) : Admitted s ⟨e.source, q, d⟩
  | start {e : PathEdge μ φ} {callee : μ} {q : Point μ} {d : φ} (hedge : e ∈ s.edges)
      (hcallee : callee ∈ g.callees e.point) (hstart : q ∈ g.starts callee) : Admitted s ⟨d, q, d⟩
  | back {k : μ × φ} {c : Context μ φ} {q : Point μ} {d : φ} (hcontext : c ∈ s.contexts.row k)
      (hnext : q ∈ g.successors c.site) : Admitted s ⟨c.source, q, d⟩

/-- One thing that is done to the tables for a path edge, whatever facts the flows yield. -/
inductive Move : State μ φ → State μ φ → Prop where
  | edge {s : State μ φ} {e : PathEdge μ φ} (h : Admitted g seeds s e) : Move s (s.propagate l e)
  | context {s : State μ φ} {e : PathEdge μ φ} (k : μ × φ) (reuses : Nat) (hedge : e ∈ s.edges) :
      Move s { s with
        contexts := s.contexts.add k ⟨e.point, e.source, e.fact⟩
        reuses := reuses }
  | ending {s : State μ φ} (k : μ × φ) (x : Ending μ φ) (ended : Nat) :
      Move s { s with endings := s.endings.add k x, ended := ended }
  | latest {s : State μ φ} (known : Std.HashMap μ φ) : Move s { s with latest := known }

/-- Any number of moves. -/
abbrev Moves : State μ φ → State μ φ → Prop := Relation.ReflTransGen (Move g seeds l)

end

variable {g : Graph μ} {seeds : List (Point μ × φ)} {l l' : Limits}

theorem Move.extends {s t : State μ φ} (h : Move g seeds l s t) :
  s.Extends t
  := by
  have hself := State.Extends.refl s
  cases h with
  | edge _ => apply State.extends_propagate
  | context k _ _ => exact { hself with contexts := fun i => s.contexts.row_isPrefix_add k i _ }
  | ending k x _ => exact { hself with endings := fun i => s.endings.row_isPrefix_add k i x }
  | latest _ => exact { hself with }

theorem Move.taken {s t : State μ φ} (h : Move g seeds l s t) :
  t.taken = s.taken
  := by
  cases h with
  | edge _ => apply State.taken_propagate
  | context _ _ _ => rfl
  | ending _ _ _ => rfl
  | latest _ => rfl

theorem Moves.extends {s t : State μ φ} (h : Moves g seeds l s t) :
  s.Extends t
  := by
  induction h with
  | refl => apply State.Extends.refl
  | tail _ hmove ih => apply ih.trans hmove.extends

theorem Moves.taken {s t : State μ φ} (h : Moves g seeds l s t) :
  t.taken = s.taken
  := by
  induction h with
  | refl => rfl
  | tail _ hmove ih => rw [hmove.taken, ih]

/-- What every move keeps is kept by any number of them. -/
theorem Moves.keeps {P : State μ φ → Prop} (move : ∀ {s t}, Move g seeds l s t → P s → P t)
    {s t : State μ φ} (h : Moves g seeds l s t) (hs : P s) :
  P t
  := by
  induction h with
  | refl => apply hs
  | tail _ hmove ih => apply move hmove ih

theorem Admitted.mono {s t : State μ φ} {e : PathEdge μ φ} (h : Admitted g seeds s e)
    (hst : s.Extends t) :
  Admitted g seeds t e
  := by
  cases h with
  | seed hseed => apply Admitted.seed hseed
  | along hedge hnext => apply Admitted.along (hst.mem_edges hedge) hnext
  | start hedge hcallee hstart => apply Admitted.start (hst.mem_edges hedge) hcallee hstart
  | back hcontext hnext => apply Admitted.back (hst.mem_contexts hcontext) hnext

/-! ### Two runs in step -/

/-- The first of two computations makes moves from the state, and the second does the same unless
the first drops a fact. -/
structure Lockstep (g : Graph μ) (seeds : List (Point μ × φ)) (l : Limits) (s : State μ φ)
    (x x' : StateM σ (State μ φ)) : Prop where
  moves : ∀ m, Moves g seeds l s (x.run m).1
  agrees : ∀ m, (x.run m).1.dropped = 0 → x'.run m = x.run m

theorem Lockstep.extends {s : State μ φ} {x x' : StateM σ (State μ φ)}
    (h : Lockstep g seeds l s x x') (m : σ) :
  s.Extends (x.run m).1
  := (h.moves m).extends

namespace Lockstep

variable {s t t' : State μ φ} {x x' : StateM σ (State μ φ)}

theorem pure (hmoves : Moves g seeds l s t) (hagrees : t.dropped = 0 → t' = t) :
  Lockstep g seeds l s (Pure.pure t : StateM σ (State μ φ)) (Pure.pure t')
  := by
  constructor
  · intro m
    apply hmoves
  · intro m hdropped
    rw [hagrees hdropped]

/-- One computation after another. -/
theorem bind {f f' : State μ φ → StateM σ (State μ φ)} (h : Lockstep g seeds l s x x')
    (hf : ∀ t, s.Extends t → Lockstep g seeds l t (f t) (f' t)) :
  Lockstep g seeds l s (x >>= f) (x' >>= f')
  := by
  constructor
  · intro m
    apply (h.moves m).trans
    apply (hf _ (h.extends m)).moves
  · intro m hdropped
    have hrest := hf _ (h.extends m)
    have hfirst := (hrest.extends (x.run m).2).dropped_eq_zero hdropped
    rw [StateT.run_bind, StateT.run_bind, h.agrees m hfirst]
    apply hrest.agrees _ hdropped

/-- A move before two computations. -/
theorem head (hmove : Move g seeds l s t) (h : Lockstep g seeds l t x x') :
  Lockstep g seeds l s x x'
  := ⟨fun m => .head hmove (h.moves m), h.agrees⟩

/-- A flow before two computations. -/
theorem flow {α : Type} (y : StateM σ α) {f f' : α → StateM σ (State μ φ)}
    (hf : ∀ a, Lockstep g seeds l s (f a) (f' a)) :
  Lockstep g seeds l s (y >>= f) (y >>= f')
  := by
  constructor
  · intro m
    apply (hf (y.run m).1).moves
  · intro m hdropped
    apply (hf (y.run m).1).agrees _ hdropped

theorem foldlM {α : Type} {f f' : State μ φ → α → StateM σ (State μ φ)} {as : List α}
    (hf : ∀ t, s.Extends t → ∀ a ∈ as, Lockstep g seeds l t (f t a) (f' t a)) :
  Lockstep g seeds l s (as.foldlM f s) (as.foldlM f' s)
  := by
  induction as generalizing s with
  | nil => apply Lockstep.pure .refl fun _ => rfl
  | cons a as ih =>
      rw [List.foldlM_cons, List.foldlM_cons]
      apply (hf s (.refl s) a List.mem_cons_self).bind
      intro t ht
      apply ih
      intro u hu b hb
      apply hf u (ht.trans hu) b (List.mem_cons_of_mem a hb)

theorem foldl {α : Type} {f f' : State μ φ → α → State μ φ} {as : List α}
    (hf : ∀ t, s.Extends t → ∀ a ∈ as,
      Lockstep g seeds l t (Pure.pure (f t a) : StateM σ (State μ φ)) (Pure.pure (f' t a))) :
  Lockstep g seeds l s (Pure.pure (as.foldl f s) : StateM σ (State μ φ)) (Pure.pure (as.foldl f' s))
  := by
  rw [← List.foldlM_pure, ← List.foldlM_pure]
  apply Lockstep.foldlM hf

end Lockstep

/-! ### The operations -/

section Operations

variable {s : State μ φ} (hle : l.factsPerPoint ≤ l'.factsPerPoint)

include hle

/-- With a larger limit a path edge that is not dropped is propagated in the same way. -/
theorem State.propagate_eq {e : PathEdge μ φ} (h : (s.propagate l e).dropped = 0) :
  s.propagate l' e = s.propagate l e
  := by
  rw [propagate] at h ⊢
  rw [propagate]
  split
  · rfl
  · next hin =>
    split
    · rfl
    · next hknown =>
      have hroom : ¬l.factsPerPoint ≤ (s.facts.row e.point).size := by
        intro hfull
        rw [if_neg hin, if_neg hknown, if_pos hfull] at h
        cases h
      rw [if_neg hroom, if_neg (by omega)]

theorem lockstep_propagate {e : PathEdge μ φ} (h : Admitted g seeds s e) :
  Lockstep g seeds l s (pure (s.propagate l e) : StateM σ (State μ φ)) (pure (s.propagate l' e))
  := Lockstep.pure (.single (.edge h)) (State.propagate_eq hle)

theorem lockstep_emit {source : φ} {next : Point μ} (facts : List φ)
    (h : ∀ d, Admitted g seeds s ⟨source, next, d⟩) :
  Lockstep g seeds l s (pure (s.emit l source next facts) : StateM σ (State μ φ))
    (pure (s.emit l' source next facts))
  := by
  have hfold : Lockstep g seeds l s
      (pure (facts.foldl (fun s d => s.propagate l ⟨source, next, d⟩) s) : StateM σ (State μ φ))
      (pure (facts.foldl (fun s d => s.propagate l' ⟨source, next, d⟩) s)) := by
    apply Lockstep.foldl
    intro t ht d _
    apply lockstep_propagate hle ((h d).mono ht)
  cases hlast : facts.getLast? with
  | none =>
      simp only [State.emit, hlast]
      apply hfold
  | some d =>
      simp only [State.emit, hlast]
      have hlatest : ∀ t : State μ φ, s.Extends t → Lockstep g seeds l t
          (pure { t with latest := t.latest.insert next.method d } : StateM σ (State μ φ))
          (pure { t with latest := t.latest.insert next.method d }) := by
        intro t _
        apply Lockstep.pure (.single (.latest _)) fun _ => rfl
      exact hfold.bind hlatest

variable {p : Stateful μ φ σ}

theorem lockstep_emitAll {source : φ} (flow : Point μ → StateM σ (List φ))
    {points : List (Point μ)} (h : ∀ q ∈ points, ∀ d, Admitted g seeds s ⟨source, q, d⟩) :
  Lockstep g seeds l s (Stateful.emitAll l source flow points s)
    (Stateful.emitAll l' source flow points s)
  := by
  apply Lockstep.foldlM
  intro t ht q hq
  apply Lockstep.flow
  intro facts
  apply lockstep_emit hle facts
  intro d
  apply (h q hq d).mono ht

theorem lockstep_comeBack (callee : μ) {k : μ × φ} {c : Context μ φ} (x : Ending μ φ)
    (hc : c ∈ s.contexts.row k) :
  Lockstep g seeds l s (Stateful.comeBack g p l callee c x s)
    (Stateful.comeBack g p l' callee c x s)
  := by
  apply lockstep_emitAll hle
  intro q hq d
  apply Admitted.back hc hq

/-- The beginning of a called method. -/
theorem lockstep_starts {e : PathEdge μ φ} {callee : μ} (d : φ) (he : e ∈ s.edges)
    (hcallee : callee ∈ g.callees e.point) :
  Lockstep g seeds l s
    (pure ((g.starts callee).foldl (fun s q => s.propagate l ⟨d, q, d⟩) s) : StateM σ (State μ φ))
    (pure ((g.starts callee).foldl (fun s q => s.propagate l' ⟨d, q, d⟩) s))
  := by
  apply Lockstep.foldl
  intro t ht q hq
  apply lockstep_propagate hle
  apply Admitted.start (ht.mem_edges he) hcallee hq

/-- To record a call as a context, and to come back with the endings known before. -/
theorem lockstep_connect {e : PathEdge μ φ} (callee : μ) (d : φ) (he : e ∈ s.edges) :
  Lockstep g seeds l s (Stateful.connect g p l e callee d s) (Stateful.connect g p l' e callee d s)
  := by
  rw [Stateful.connect, Stateful.connect]
  split
  · apply Lockstep.pure .refl fun _ => rfl
  · apply Lockstep.head (.context (callee, d) _ he)
    apply Lockstep.foldlM
    intro t ht x _
    apply lockstep_comeBack hle
    apply ht.mem_contexts
    apply Table.mem_row_add.2 (.inl ⟨rfl, rfl⟩)

theorem lockstep_enter {e : PathEdge μ φ} {callee : μ} (d : φ) (he : e ∈ s.edges)
    (hcallee : callee ∈ g.callees e.point) :
  Lockstep g seeds l s (Stateful.enter g p l e callee s d) (Stateful.enter g p l' e callee s d)
  := by
  have hconnect : ∀ t : State μ φ, s.Extends t → Lockstep g seeds l t
      (Stateful.connect g p l e callee d t) (Stateful.connect g p l' e callee d t) := by
    intro t ht
    apply lockstep_connect hle callee d (ht.mem_edges he)
  exact (lockstep_starts hle d he hcallee).bind hconnect

theorem lockstep_callOut {e : PathEdge μ φ} (he : e ∈ s.edges) :
  Lockstep g seeds l s (Stateful.callOut g p l e s) (Stateful.callOut g p l' e s)
  := by
  apply Lockstep.bind
  · apply Lockstep.foldlM
    intro t ht callee hcallee
    apply Lockstep.flow
    intro facts
    apply Lockstep.foldlM
    intro u hu d _
    apply lockstep_enter hle d ((ht.trans hu).mem_edges he) hcallee
  · intro t ht
    apply lockstep_emitAll hle
    intro q hq d
    apply Admitted.along (ht.mem_edges he) hq

theorem lockstep_leave (e : PathEdge μ φ) :
  Lockstep g seeds l s (Stateful.leave g p l e s) (Stateful.leave g p l' e s)
  := by
  rw [Stateful.leave, Stateful.leave]
  split
  · apply Lockstep.pure .refl fun _ => rfl
  · apply Lockstep.head (.ending (e.point.method, e.source) ⟨e.point, e.fact⟩ _)
    apply Lockstep.foldlM
    intro t ht c hc
    apply lockstep_comeBack hle
    apply ht.mem_contexts (Distinct.mem_toList.1 hc)

/-- With a larger limit a path edge is processed in the same way, unless a fact is dropped. -/
theorem lockstep_process {e : PathEdge μ φ} (he : e ∈ s.edges) :
  Lockstep g seeds l s (Stateful.process g p l e s) (Stateful.process g p l' e s)
  := by
  rw [Stateful.process, Stateful.process]
  split
  · apply lockstep_callOut hle he
  · split
    · apply lockstep_leave hle
    · apply lockstep_emitAll hle
      intro q hq d
      apply Admitted.along he hq

end Operations

/-! ### Runs -/

namespace Stateful

variable {p : Stateful μ φ σ} {s : State μ φ}

theorem moves_process (seeds : List (Point μ × φ)) {e : PathEdge μ φ} (he : e ∈ s.edges) (m : σ) :
  Moves g seeds l s ((process g p l e s).run m).1
  := (lockstep_process (Nat.le_refl _) he).moves m

/-- The next path edge is one of the path edges. -/
theorem exists_next (h : s.edges.items[s.taken]? ≠ none) :
  ∃ e ∈ s.edges, s.edges.items[s.taken]? = some e ∧ s.taken < s.edges.size
  := by
  obtain ⟨e, he⟩ := Option.ne_none_iff_exists'.1 h
  obtain ⟨hlt, rfl⟩ := Array.getElem?_eq_some_iff.1 he
  refine ⟨_, ?_, he, hlt⟩
  rw [← Distinct.mem_toList]
  apply Array.getElem_mem_toList

theorem run_of_next {e : PathEdge μ φ} (he : s.edges.items[s.taken]? = some e) (n : Nat) :
  run g p l (n + 1) s = process g p l e { s with taken := s.taken + 1 } >>= run g p l n
  := by
  rw [run, he]

theorem run_run_of_next {e : PathEdge μ φ} (he : s.edges.items[s.taken]? = some e) (n : Nat)
    (m : σ) :
  (run g p l (n + 1) s).run m =
    (run g p l n ((process g p l e { s with taken := s.taken + 1 }).run m).1).run
      ((process g p l e { s with taken := s.taken + 1 }).run m).2
  := by
  rw [run_of_next he]
  rfl

theorem run_of_done (h : s.edges.items[s.taken]? = none) (n : Nat) :
  run g p l n s = pure s
  := by
  cases n with
  | zero => rfl
  | succ n => rw [run, h]

/-- What every move keeps, and the taking up of a path edge, is kept by a run. -/
theorem run_keeps (seeds : List (Point μ × φ)) {P : State μ φ → Prop}
    (move : ∀ {s t}, Move g seeds l s t → P s → P t)
    (take : ∀ {s}, s.taken < s.edges.size → P s → P { s with taken := s.taken + 1 })
    (n : Nat) (hs : P s) (m : σ) :
  P ((run g p l n s).run m).1
  := by
  induction n generalizing s m with
  | zero => apply hs
  | succ n ih =>
      by_cases hdone : s.edges.items[s.taken]? = none
      · rw [run_of_done hdone]
        apply hs
      · obtain ⟨e, hmem, he, hlt⟩ := exists_next hdone
        rw [run_run_of_next he]
        apply ih
        apply (moves_process seeds (s.extends_take.mem_edges hmem) m).keeps move
        apply take hlt hs

theorem extends_run (n : Nat) (s : State μ φ) (m : σ) :
  s.Extends ((run g p l n s).run m).1
  := by
  apply run_keeps [] (P := s.Extends)
  · intro t u hmove ht
    apply ht.trans hmove.extends
  · intro t _ ht
    apply ht.trans t.extends_take
  · apply State.Extends.refl

/-- A run goes on where a shorter one ended. -/
theorem run_add (n k : Nat) (s : State μ φ) :
  run g p l (n + k) s = run g p l n s >>= run g p l k
  := by
  induction n generalizing s with
  | zero => rw [Nat.zero_add, run, pure_bind]
  | succ n ih =>
      by_cases hdone : s.edges.items[s.taken]? = none
      · rw [run_of_done hdone, run_of_done hdone, pure_bind, run_of_done hdone]
      · obtain ⟨e, _, he, _⟩ := exists_next hdone
        rw [Nat.add_right_comm, run_of_next he, run_of_next he, bind_assoc]
        apply bind_congr
        intro t
        apply ih

/-- With a larger limit a run does the same, unless a fact is dropped. -/
theorem run_agrees (hle : l.factsPerPoint ≤ l'.factsPerPoint) (n : Nat) (s : State μ φ) (m : σ)
    (h : ((run g p l n s).run m).1.dropped = 0) :
  (run g p l' n s).run m = (run g p l n s).run m
  := by
  induction n generalizing s m with
  | zero => rfl
  | succ n ih =>
      by_cases hdone : s.edges.items[s.taken]? = none
      · rw [run_of_done hdone, run_of_done hdone]
      · obtain ⟨e, hmem, he, _⟩ := exists_next hdone
        rw [run_run_of_next he] at h ⊢
        have hstep : Lockstep g [] l { s with taken := s.taken + 1 }
            (process g p l e { s with taken := s.taken + 1 })
            (process g p l' e { s with taken := s.taken + 1 }) :=
          lockstep_process hle (s.extends_take.mem_edges hmem)
        have hfirst := (extends_run n _ _).dropped_eq_zero h
        rw [run_run_of_next he, hstep.agrees m hfirst]
        apply ih _ _ h

/-- A run has nothing left to take up, or took up as many path edges as it was allowed to. -/
theorem taken_run (n : Nat) (s : State μ φ) (m : σ) :
  ((run g p l n s).run m).1.edges.size ≤ ((run g p l n s).run m).1.taken ∨
    ((run g p l n s).run m).1.taken = s.taken + n
  := by
  induction n generalizing s m with
  | zero => apply Or.inr rfl
  | succ n ih =>
      by_cases hdone : s.edges.items[s.taken]? = none
      · rw [run_of_done hdone]
        apply Or.inl (Array.getElem?_eq_none_iff.1 hdone)
      · obtain ⟨e, hmem, he, _⟩ := exists_next hdone
        have htaken := (moves_process (g := g) (p := p) (l := l) []
          (s.extends_take.mem_edges hmem) m).taken
        rw [run_run_of_next he]
        apply (ih _ _).imp_right
        intro h
        rw [h, htaken, Nat.add_right_comm, Nat.add_assoc]

/-! ### Whole runs -/

/-- The seeds are propagated in the same way with a larger limit, unless a fact is dropped. -/
theorem lockstep_seeds (hle : l.factsPerPoint ≤ l'.factsPerPoint) (seeds : List (Point μ × φ)) :
  Lockstep g seeds l {}
    (pure (seeds.foldl (fun s e => s.propagate l ⟨e.2, e.1, e.2⟩) {}) : StateM σ (State μ φ))
    (pure (seeds.foldl (fun s e => s.propagate l' ⟨e.2, e.1, e.2⟩) {}))
  := by
  apply Lockstep.foldl
  intro t _ e he
  apply lockstep_propagate hle (.seed he)

theorem moves_seeded (m : σ) :
  Moves g (p.seeds.run m).1 l {} ((seeded p l).run m).1
  := (lockstep_seeds (Nat.le_refl _) _).moves m

/-- What holds of the empty tables and is kept by every move holds at the end of a run. -/
theorem solve_keeps {P : State μ φ → Prop} {m : σ} (empty : P {})
    (move : ∀ {s t}, Move g (p.seeds.run m).1 l s t → P s → P t)
    (take : ∀ {s}, s.taken < s.edges.size → P s → P { s with taken := s.taken + 1 }) :
  P ((solve g p l).run m).1
  := by
  apply run_keeps (p.seeds.run m).1 move take
  apply (moves_seeded m).keeps move empty

theorem taken_le_solve (m : σ) :
  ((solve g p l).run m).1.taken ≤ ((solve g p l).run m).1.edges.size
  := by
  apply solve_keeps (P := fun s => s.taken ≤ s.edges.size)
  · apply Nat.zero_le
  · intro s t hmove hs
    rw [hmove.taken]
    apply Nat.le_trans hs
    rw [Distinct.size_eq_length, Distinct.size_eq_length]
    apply hmove.extends.edges.length_le
  · intro s hlt _
    apply hlt

end Stateful

end ServiceFlow.Tabulation
