import Mathlib.Data.List.Nodup
import ServiceFlow.Program.Supergraph
import ServiceFlow.Proofs.Closure
import ServiceFlow.Proofs.Traversal

/-!
# The shape of supergraphs

Control stays inside a body, or goes through the call sites of a supergraph.  Every call site of a
built supergraph stands at a statement with an invocation, and has the targets that the view gives
for it.
-/

namespace ServiceFlow

theorem mem_of_mem_dropRepeats {α : Type} [DecidableEq α] {a : α} {l : List α}
    (h : a ∈ dropRepeats l) :
  a ∈ l
  := by
  induction l using dropRepeats.induct with
  | case1 => apply h
  | case2 b => apply h
  | case3 b rest ih =>
      rw [dropRepeats, if_pos rfl] at h
      apply List.mem_cons_of_mem _ (ih h)
  | case4 b c rest hne ih =>
      rw [dropRepeats, if_neg hne] at h
      rcases List.mem_cons.1 h with rfl | h
      · apply List.mem_cons_self
      · apply List.mem_cons_of_mem _ (ih h)

namespace View

theorem stmt?_eq_some {v : View} {q : StmtId} {stmt : Stmt} (h : v.stmt? q = some stmt) :
  ∃ b, v.body? q.method = some b ∧ b.stmts[q.offset]? = some stmt
  := Option.bind_eq_some_iff.1 h

/-- A name stands for the class of the view that has it. -/
theorem class?_eq_some_iff {v : View} {c : ClassName} {d : ClassDecl} :
  v.class? c = some d ↔ d ∈ v.classes ∧ d.name = c
  := by
  constructor
  · intro h
    use List.mem_of_find?_eq_some h
    simpa using List.find?_some h
  · rintro ⟨hd, rfl⟩
    apply find?_of_key hd
    intro e he hname
    apply List.inj_on_of_nodup_map v.distinct he hd hname

theorem contains_iff_exists {v : View} {c : ClassName} :
  v.contains c ↔ ∃ d ∈ v.classes, d.name = c
  := by
  rw [contains, Option.isSome_iff_exists]
  simp only [class?_eq_some_iff]

/-- The bodies that can be looked up belong to methods of the view. -/
theorem exists_method_of_body? {v : View} {m : MethodSig} {b : Body} (h : v.body? m = some b) :
  ∃ d ∈ v.methods, d.signature = m ∧ d.body = some b
  := by
  obtain ⟨d, hd, hb⟩ := Option.bind_eq_some_iff.1 h
  obtain ⟨c, hc, hm⟩ := Option.bind_eq_some_iff.1 hd
  use d
  constructor
  · apply List.mem_flatMap.2
    use c, List.mem_of_find?_eq_some hc, List.mem_of_find?_eq_some hm
  · constructor
    · simpa using List.find?_some hm
    · apply hb

end View

/-! ### The invocations of a method -/

/-- The statements with an invocation, by their offsets. -/
theorem Body.mem_invokes_iff {b : Body} {m : MethodSig} {q : StmtId} {i : Invoke} :
  (q, i) ∈ b.invokes m ↔
    q.method = m ∧ ∃ stmt, b.stmts[q.offset]? = some stmt ∧ stmt.invoke? = some i
  := by
  constructor
  · intro h
    obtain ⟨⟨stmt, offset⟩, hstmt, hmap⟩ := List.mem_filterMap.1 h
    obtain ⟨i', hi, heq⟩ := Option.map_eq_some_iff.1 hmap
    cases heq
    use rfl, stmt
    constructor
    · apply List.mem_zipIdx_iff_getElem?.1 hstmt
    · apply hi
  · rintro ⟨rfl, stmt, hstmt, hi⟩
    apply List.mem_filterMap.2
    use (stmt, q.offset), List.mem_zipIdx_iff_getElem?.2 hstmt
    rw [hi]
    rfl

namespace View

variable {v : View} {skip : Invoke → Bool}

/-- The invocation at a statement. -/
def invokeAt? (v : View) (p : StmtId) : Option Invoke := (v.stmt? p).bind Stmt.invoke?

/-- The statements of a method in view that carry an invocation. -/
def invokes (v : View) (m : MethodSig) : List (StmtId × Invoke) :=
  (v.body? m).elim [] (fun b => b.invokes m)

theorem mem_invokes_iff {m : MethodSig} {p : StmtId} {i : Invoke} :
  (p, i) ∈ v.invokes m ↔ p.method = m ∧ v.invokeAt? p = some i
  := by
  constructor
  · intro h
    rw [invokes] at h
    cases hb : v.body? m with
    | none =>
        rw [hb] at h
        cases h
    | some b =>
        rw [hb] at h
        obtain ⟨rfl, stmt, hstmt, hi⟩ := Body.mem_invokes_iff.1 h
        use rfl
        rw [invokeAt?, stmt?, hb, Option.bind_some, hstmt, Option.bind_some, hi]
  · rintro ⟨rfl, h⟩
    obtain ⟨stmt, hp, hi⟩ := Option.bind_eq_some_iff.1 h
    obtain ⟨b, hb, hstmt⟩ := stmt?_eq_some hp
    rw [invokes, hb]
    apply Body.mem_invokes_iff.2 ⟨rfl, stmt, hstmt, hi⟩

theorem callSites_eq_mapM (v : View) (skip : Invoke → Bool) (m : MethodSig) :
  v.callSites skip m =
    (v.invokes m).mapM (fun s => (v.targets skip s.2).map (fun ts => ⟨s.1, ts⟩))
  := by
  rw [callSites, invokes]
  cases v.body? m <;> rfl

theorem targets_of_skipped {i : Invoke} (h : skip i = true) :
  v.targets skip i = .ok []
  := if_pos h

theorem targets_of_followed {i : Invoke} (h : skip i = false) :
  v.targets skip i = (v.resolve i).map (fun ts => ts.filter v.hasBody)
  := by
  rw [targets, h]
  rfl

/-- The call sites of a method cannot be found because of one of its invocations. -/
theorem exists_of_callSites_eq_error {m : MethodSig} {e : ScopeError}
    (h : v.callSites skip m = .error e) :
  ∃ p i, p.method = m ∧ v.invokeAt? p = some i ∧ skip i = false ∧ v.resolve i = .error e
  := by
  rw [callSites_eq_mapM, mapM_eq_error_iff] at h
  obtain ⟨before, ⟨p, i⟩, after, hinvokes, _, he⟩ := h
  have hmem : (p, i) ∈ v.invokes m := by simp [hinvokes]
  obtain ⟨hp, hi⟩ := mem_invokes_iff.1 hmem
  have htargets : v.targets skip i = .error e := map_eq_error he
  cases hskip : skip i with
  | true =>
      rw [targets_of_skipped hskip] at htargets
      cases htargets
  | false =>
      rw [targets_of_followed hskip] at htargets
      use p, i, hp, hi, hskip, map_eq_error htargets

theorem exists_targets_of_callSites {m : MethodSig} {row : List CallSite}
    (h : v.callSites skip m = .ok row) {p : StmtId} (hp : p.method = m) {i : Invoke}
    (hi : v.invokeAt? p = some i) :
  ∃ ts, v.targets skip i = .ok ts
  := by
  rw [callSites_eq_mapM] at h
  obtain ⟨s, hs⟩ := exists_mapM_eq_ok.1 ⟨row, h⟩ (p, i) (mem_invokes_iff.2 ⟨hp, hi⟩)
  obtain ⟨ts, hts, _⟩ := map_eq_ok hs
  use ts, hts

/-- The call sites of a method are its invocations with their targets. -/
theorem mem_callSites_iff {m : MethodSig} {row : List CallSite} (h : v.callSites skip m = .ok row)
    {s : CallSite} :
  s ∈ row ↔ s.point.method = m ∧
    ∃ i, v.invokeAt? s.point = some i ∧ v.targets skip i = .ok s.targets
  := by
  rw [callSites_eq_mapM] at h
  constructor
  · intro hs
    obtain ⟨⟨p, i⟩, hmem, hsite⟩ := exists_of_mem_mapM h hs
    obtain ⟨ts, hts, rfl⟩ := map_eq_ok hsite
    obtain ⟨hp, hi⟩ := mem_invokes_iff.1 hmem
    use hp, i, hi, hts
  · rintro ⟨hp, i, hi, hts⟩
    apply mem_of_mapM h (mem_invokes_iff.2 ⟨hp, hi⟩)
    dsimp only
    rw [hts]
    rfl

/-- The methods that an invocation enters; none if it cannot be resolved. -/
def targetsOf (v : View) (skip : Invoke → Bool) (i : Invoke) : List MethodSig :=
  (v.targets skip i).toOption.getD []

theorem targetsOf_eq {i : Invoke} {ts : List MethodSig} (h : v.targets skip i = .ok ts) :
  v.targetsOf skip i = ts
  := by
  rw [targetsOf, h]
  rfl

/-- An invocation enters the methods with a body that it is resolved to, unless it is skipped. -/
theorem mem_targetsOf_iff {i : Invoke} {t : MethodSig} :
  t ∈ v.targetsOf skip i ↔ skip i = false ∧ ∃ ts, v.resolve i = .ok ts ∧ t ∈ ts ∧ v.hasBody t
  := by
  cases hskip : skip i with
  | true =>
      rw [targetsOf_eq (targets_of_skipped hskip)]
      simp
  | false =>
      rw [targetsOf, targets_of_followed hskip]
      cases v.resolve i with
      | error e => simp [Except.map, Except.toOption]
      | ok ts => simp [Except.map, Except.toOption]

theorem calledMethods_eq_flatMap (v : View) (skip : Invoke → Bool) (m : MethodSig) :
  v.calledMethods skip m = (v.invokes m).flatMap (fun s => v.targetsOf skip s.2)
  := by
  rw [calledMethods, invokes]
  cases v.body? m <;> rfl

/-- A method calls the targets of its invocations that have a body. -/
theorem mem_calledMethods_iff {m t : MethodSig} :
  t ∈ v.calledMethods skip m ↔ ∃ p i ts, p.method = m ∧ v.invokeAt? p = some i ∧ skip i = false ∧
    v.resolve i = .ok ts ∧ t ∈ ts ∧ v.hasBody t
  := by
  rw [calledMethods_eq_flatMap, List.mem_flatMap]
  constructor
  · rintro ⟨⟨p, i⟩, hmem, ht⟩
    obtain ⟨hp, hi⟩ := mem_invokes_iff.1 hmem
    obtain ⟨hskip, ts, hts⟩ := mem_targetsOf_iff.1 ht
    use p, i, ts
  · rintro ⟨p, i, ts, hp, hi, hskip, hts⟩
    use (p, i), mem_invokes_iff.2 ⟨hp, hi⟩
    apply mem_targetsOf_iff.2 ⟨hskip, ts, hts⟩

end View

/-! ### Reachable methods -/

namespace View

variable (v : View) (skip : Invoke → Bool)

theorem hasBody_of_mem_calledMethods {m callee : MethodSig} (h : callee ∈ v.calledMethods skip m) :
  v.hasBody callee
  := by
  obtain ⟨_, _, _, _, _, _, _, _, hbody⟩ := mem_calledMethods_iff.1 h
  apply hbody

theorem mem_signatures_of_hasBody {m : MethodSig} (h : v.hasBody m) :
  m ∈ v.methods.map Method.signature
  := by
  obtain ⟨b, hb⟩ := Option.isSome_iff_exists.1 h
  obtain ⟨d, hd, hsignature, _⟩ := exists_method_of_body? hb
  apply List.mem_map.2 ⟨d, hd, hsignature⟩

/-- The methods of a supergraph are those that calls lead to: there are no more of them than entries
and methods in view. -/
theorem explores_reachableMethods (entries : List MethodSig) :
  Closure.Explores (v.calledMethods skip) entries [] (v.reachableMethods skip entries)
  := by
  apply Closure.explores_reachable
  intro l hnodup hl
  have hsubset : l ⊆ entries ++ v.methods.map Method.signature := by
    intro n hn
    apply Closure.Reaches.mem _ _ (hl n hn)
    · apply List.subset_append_left
    · intro a _ callee hcallee
      apply List.mem_append_right
      apply v.mem_signatures_of_hasBody (v.hasBody_of_mem_calledMethods skip hcallee)
  have hlength := (hnodup.subperm hsubset).length_le
  rw [List.length_append, List.length_map] at hlength
  apply hlength

end View

namespace Supergraph

variable {v : View} {entries : List MethodSig} {skip : Invoke → Bool} {g : Supergraph}

theorem build_of_bodies (h : ∀ m ∈ entries, v.hasBody m) :
  build v entries skip = ((v.reachableMethods skip entries).mapM (v.callSites skip)).map
    (fun rows => ⟨v, v.reachableMethods skip entries, rows.flatten⟩)
  := by
  have hfind : entries.find? (fun m => !v.hasBody m) = none := by
    apply List.find?_eq_none.2
    simpa using h
  rw [build, hfind]
  dsimp only
  cases (v.reachableMethods skip entries).mapM (v.callSites skip) <;> rfl

theorem build_eq_ok (h : build v entries skip = .ok g) :
  ∃ rows, (v.reachableMethods skip entries).mapM (v.callSites skip) = .ok rows ∧
    g = ⟨v, v.reachableMethods skip entries, rows.flatten⟩
  := by
  rw [build] at h
  split at h
  · cases h
  · obtain ⟨rows, hrows, hg⟩ := bind_eq_ok h
    use rows, hrows, (Except.ok.inj hg).symm

theorem view_build (h : build v entries skip = .ok g) :
  g.view = v
  := by
  obtain ⟨rows, _, rfl⟩ := build_eq_ok h
  rfl

theorem nodup_methods (h : build v entries skip = .ok g) :
  g.methods.Nodup
  := by
  obtain ⟨rows, _, rfl⟩ := build_eq_ok h
  apply (v.explores_reachableMethods skip entries).nodup

/-! ### Control -/

theorem mem_successors {q next : StmtId} (h : next ∈ g.successors q) :
  ∃ b, g.view.body? q.method = some b ∧ next.method = q.method ∧
    next.offset ∈ b.successors q.offset
  := by
  rw [successors] at h
  split at h
  · next b hb =>
    obtain ⟨o, ho, rfl⟩ := List.mem_map.1 h
    use b, hb, rfl
  · cases h

theorem mem_starts {m : MethodSig} {q : StmtId} (h : q ∈ g.starts m) :
  q = ⟨m, 0⟩
  := by
  rw [starts] at h
  split at h
  · split at h
    · cases h
    · apply List.mem_singleton.1 h
  · cases h

end Supergraph

end ServiceFlow
