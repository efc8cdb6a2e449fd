import ServiceFlow.Proofs.Propagation.Run
import ServiceFlow.Proofs.Value.Store

/-!
# What a static initializer leaves

The constants of the static fields are read off the facts at the returns of a method, one fact after
another.  A field that a fact knows nothing of waits for the next fact, so that it gets the first
constant that any fact has for it.  Hence a field is left unknown only if it is constant at no
return: that it is unknown at one of them does not count.
-/

namespace ServiceFlow

theorem Value.isKnown_of_isConstant {v : Value} (h : v.isConstant) :
  v.isKnown
  := by
  cases v with
  | unknown => cases h
  | object type fields => cases h
  | _ => rfl

namespace Store

/-- The constant static fields are a part of the entries. -/
theorem constantStatics_eq_foldl (s : Store) :
  s.constantStatics = (s.entries.filter (fun e => e.1.isStatic && e.2.isConstant)).foldl
    (fun s e => s.set e.1 e.2) empty
  := by
  have hwrites : ∀ l : List (Location × Value),
      ((l.filterMap (fun e => e.1.static?.map (fun f => (f, e.2)))).filter
          (fun e => e.2.isConstant)).map (fun e => (Location.static e.1, e.2))
        = l.filter (fun e => e.1.isStatic && e.2.isConstant) := by
    intro l
    induction l with
    | nil => rfl
    | cons e rest ih =>
        obtain ⟨x, v⟩ := e
        cases x with
        | var m k => apply ih
        | static f =>
            by_cases hv : v.isConstant
            · simpa [hv, Location.static?, Location.isStatic] using ih
            · simpa [hv, Location.static?] using ih
  rw [constantStatics, ofList, staticEntries, hwrites]

theorem getStatic_constantStatics (s : Store) (f : FieldSig) :
  s.constantStatics.getStatic f =
    if (s.getStatic f).isConstant then s.getStatic f else .unknown
  := by
  have hget : s.getStatic f = (Sorted.lookup (.static f) s.entries).getD .unknown := rfl
  rw [constantStatics_eq_foldl, getStatic, get_foldl_set (s.ascending.filter _),
    s.ascending.lookup_filter, hget]
  cases Sorted.lookup (.static f) s.entries with
  | none => rfl
  | some v =>
      simp only [Option.filter, Location.isStatic, Bool.true_and, Option.getD_some]
      split
      · rfl
      · rfl

/-- The first constant that some facts have for a static field. -/
def firstConstant (facts : List Store) (f : FieldSig) : Value :=
  ((facts.map (fun s => s.getStatic f)).find? Value.isConstant).getD .unknown

theorem firstConstant_cons (s : Store) (facts : List Store) (f : FieldSig) :
  firstConstant (s :: facts) f =
    if (s.getStatic f).isConstant then s.getStatic f else firstConstant facts f
  := by
  rw [firstConstant, List.map_cons, List.find?_cons]
  by_cases h : (s.getStatic f).isConstant
  · simp [h]
  · simp [h, firstConstant]

theorem firstConstant_eq_unknown_iff {facts : List Store} {f : FieldSig} :
  firstConstant facts f = .unknown ↔ ∀ s ∈ facts, ¬(s.getStatic f).isConstant
  := by
  induction facts with
  | nil => simp [firstConstant]
  | cons s facts ih =>
      rw [firstConstant_cons, List.forall_mem_cons, ← ih]
      by_cases h : (s.getStatic f).isConstant
      · have hknown := Value.isKnown_of_isConstant h
        simpa [h, Value.isKnown] using hknown
      · simp [h]

/-- Each fact fills in the constants that are still missing. -/
theorem getStatic_foldl_fillMissing (facts : List Store) (s : Store) (f : FieldSig) :
  (facts.foldl (fun s fact => s.fillMissing fact.constantStatics) s).getStatic f =
    if (s.getStatic f).isKnown then s.getStatic f else firstConstant facts f
  := by
  induction facts generalizing s with
  | nil => simp [firstConstant]
  | cons fact facts ih =>
      have hfill : (s.fillMissing fact.constantStatics).getStatic f =
          if (s.getStatic f).isKnown then s.getStatic f
          else if (fact.getStatic f).isConstant then fact.getStatic f else .unknown := by
        rw [← getStatic_constantStatics]
        apply get_fillMissing
      rw [List.foldl_cons, ih, hfill, firstConstant_cons]
      by_cases hs : (s.getStatic f).isKnown
      · simp [hs]
      · by_cases hfact : (fact.getStatic f).isConstant
        · simp [hs, hfact, Value.isKnown_of_isConstant hfact]
        · have hunknown : ¬Value.unknown.isKnown := nofun
          simp [hs, hfact, hunknown]

end Store

namespace Run

variable {r : Run} {m : MethodSig}

theorem getStatic_harvest (hreached : r.factsAtReturns m ≠ []) (f : FieldSig) :
  (r.harvest m).getStatic f = Store.firstConstant (r.factsAtReturns m) f
  := by
  rw [harvest]
  split
  · contradiction
  · rw [Store.getStatic_foldl_fillMissing]
    rfl

/-- Where some return is reached, a static field gets the first constant that a fact at a return has
for it.  It is left unknown exactly if no such fact has a constant for it, and not if just one of
them leaves it unknown. -/
theorem getStatic_harvest_eq_unknown_iff (hreached : r.factsAtReturns m ≠ []) (f : FieldSig) :
  (r.harvest m).getStatic f = Store.firstConstant (r.factsAtReturns m) f ∧
  ((r.harvest m).getStatic f = .unknown ↔
    ∀ s ∈ r.factsAtReturns m, ¬(s.getStatic f).isConstant)
  := by
  rw [getStatic_harvest hreached]
  exact ⟨rfl, Store.firstConstant_eq_unknown_iff⟩

end Run

/-! ### An assignment that may be passed by -/

namespace Skipped

/-! A static initializer that assigns one of its fields on one of two ways to its return. -/

def owner : ClassName := ⟨"A"⟩
def clinit : MethodSig := ⟨owner, "<clinit>", [], .void⟩
def assigned : FieldSig := ⟨owner, "F", .string⟩
def untouched : FieldSig := ⟨owner, "G", .string⟩

def body : Body := ⟨[], [
  .branch [] 2,
  .assign (.staticField assigned) (.operand (.const (.string "x"))),
  .retVoid]⟩

def view : View := .ofList [⟨owner, none, [], none, [⟨clinit, true, some body⟩]⟩]

def graph : Supergraph := ⟨view, [clinit], []⟩

def known : Store := Store.empty.setStatic assigned (.str "x")

def run : Run :=
  ⟨graph, Tabulation.solve (Propagation.flowGraph graph)
    (Propagation.problem graph clinit .empty) ⟨20, 2⟩⟩

theorem execute_eq_run :
  Run.execute view clinit .empty {} ⟨20, 2⟩ = .ok run
  := rfl

theorem factsAtReturns_run :
  run.factsAtReturns clinit = [.empty, known]
  := by
  have hexits : run.factsAtReturns clinit = run.factsAt ⟨clinit, 2⟩ := List.append_nil _
  rw [hexits]
  simp only [run, Run.factsAt, Tabulation.factsAt_solve]
  decide +kernel

/-- The first fact at the return knows nothing of the field, and yet the field gets a constant. -/
theorem harvest_of_unknown :
  Run.execute view clinit .empty {} ⟨20, 2⟩ = .ok run ∧
  (∃ s ∈ run.factsAtReturns clinit, s.getStatic assigned = .unknown) ∧
  (run.harvest clinit).getStatic assigned = .str "x"
  := by
  have hreached : run.factsAtReturns clinit ≠ [] := by simp [factsAtReturns_run]
  use execute_eq_run
  constructor
  · use .empty
    simp only [factsAtReturns_run]
    decide
  · rw [Run.getStatic_harvest hreached, factsAtReturns_run]
    decide

/-- A field that no fact knows is left unknown. -/
theorem harvest_of_untouched :
  run.factsAtReturns clinit ≠ [] ∧ (run.harvest clinit).getStatic untouched = .unknown
  := by
  have hreached : run.factsAtReturns clinit ≠ [] := by simp [factsAtReturns_run]
  use hreached
  apply (Run.getStatic_harvest_eq_unknown_iff hreached untouched).2.2
  rw [factsAtReturns_run]
  decide

end Skipped

end ServiceFlow
