import ServiceFlow.Proofs.Resolve.Independence
import ServiceFlow.Resolve.Batch

/-!
# Batches of batches

To take in a class is to append a batch of this one class.  Hence a batch over two lists of classes
is put together from the batches over each of them, and no class changes what becomes of another.
-/

namespace ServiceFlow

/-! ### Sums of counters -/

namespace Counters

theorem add_zero (a : Counters) :
  a + {} = a
  := by
  apply ext_of
  · intro t
    rw [of_add]
    cases t <;> apply UInt64.add_zero
  · apply UInt64.add_zero

theorem zero_add (a : Counters) :
  {} + a = a
  := by
  apply ext_of
  · intro t
    rw [of_add]
    cases t <;> apply UInt64.zero_add
  · apply UInt64.zero_add

theorem add_assoc (a b c : Counters) :
  a + b + c = a + (b + c)
  := by
  apply ext_of
  · intro t
    simp only [of_add]
    apply UInt64.add_assoc
  · apply UInt64.add_assoc

end Counters

theorem ClassPool.cls_of_analyze {pool : ClassPool} {config : Config} {c : ClassName}
    {a : ClassAnalysis} (h : pool.analyze config c = .ok a) :
  a.cls = c
  := by
  cases hd : pool.load c with
  | error e =>
      rw [analyze, hd] at h
      cases h
  | ok d => rw [analyze_eq_account hd h, cls_account, name_of_load hd]

namespace Batch

/-! ### Appending batches -/

/-- The classes of the second batch after those of the first one. -/
def append (b b' : Batch) : Batch where
  analyses := b.analyses ++ b'.analyses
  skipped := b.skipped ++ b'.skipped
  counters := b.counters + b'.counters
  analyzedCount := b.analyzedCount + b'.analyzedCount
  skippedCount := b.skippedCount + b'.skippedCount
  diagnostics := b.diagnostics ++ b'.diagnostics

instance : Append Batch := ⟨append⟩

theorem append_eq (b b' : Batch) :
  b ++ b' = append b b'
  := rfl

theorem append_empty (b : Batch) :
  b ++ ({} : Batch) = b
  := by
  simp [append_eq, append, Counters.add_zero]

theorem empty_append (b : Batch) :
  ({} : Batch) ++ b = b
  := by
  simp [append_eq, append, Counters.zero_add]

theorem append_assoc (b b' b'' : Batch) :
  b ++ b' ++ b'' = b ++ (b' ++ b'')
  := by
  simp [append_eq, append, Counters.add_assoc, Nat.add_assoc]

/-- The batch of one class. -/
def single (c : ClassName) (r : Except AnalysisError ClassAnalysis) : Batch := ({} : Batch).take c r

theorem take_eq_append (b : Batch) (c : ClassName) (r : Except AnalysisError ClassAnalysis) :
  b.take c r = b ++ single c r
  := by
  cases r with
  | ok a => simp [single, take, append_eq, append, Counters.zero_add]
  | error e => simp [single, take, append_eq, append, Counters.add_zero]

/-! ### Runs -/

section

variable (pool : ClassPool) (config : Config)

theorem run_eq_foldl (l : List ClassName) :
  run pool config l = l.foldl (fun b c => b.take c (pool.analyze config c)) {}
  := by
  rw [run, ← List.map_prod_left_eq_zip, List.foldl_map]

theorem foldl_take (l : List ClassName) (b : Batch) :
  l.foldl (fun b c => b.take c (pool.analyze config c)) b = b ++ run pool config l
  := by
  rw [run_eq_foldl]
  induction l generalizing b with
  | nil => rw [List.foldl_nil, List.foldl_nil, append_empty]
  | cons c l ih =>
      rw [List.foldl_cons, List.foldl_cons, ih, ih (({} : Batch).take _ _), take_eq_append,
        take_eq_append, empty_append, append_assoc]

theorem run_append (l l' : List ClassName) :
  run pool config (l ++ l') = run pool config l ++ run pool config l'
  := by
  rw [run_eq_foldl, List.foldl_append, foldl_take, ← run_eq_foldl]

theorem run_cons (c : ClassName) (l : List ClassName) :
  run pool config (c :: l) = single c (pool.analyze config c) ++ run pool config l
  := by
  rw [run_eq_foldl, List.foldl_cons, foldl_take]
  rfl

end

/-- The classes of a list in their order, each with its analysis or the reason why it has none. -/
inductive Deals (pool : ClassPool) (config : Config) :
    List ClassName → List ClassAnalysis → List Skipped → Prop where
  | nil : Deals pool config [] [] []
  | analyzed {c : ClassName} {l : List ClassName} {a : ClassAnalysis}
      {analyses : List ClassAnalysis} {skipped : List Skipped}
      (found : pool.analyze config c = .ok a) (named : a.cls = c)
      (rest : Deals pool config l analyses skipped) :
      Deals pool config (c :: l) (a :: analyses) skipped
  | skipped {c : ClassName} {l : List ClassName} {e : AnalysisError} {analyses : List ClassAnalysis}
      {skipped : List Skipped} (failed : pool.analyze config c = .error e)
      (rest : Deals pool config l analyses skipped) :
      Deals pool config (c :: l) analyses (⟨c, e⟩ :: skipped)

theorem deals_run (pool : ClassPool) (config : Config) (l : List ClassName) :
  Deals pool config l (run pool config l).analyses (run pool config l).skipped
  := by
  induction l with
  | nil => apply Deals.nil
  | cons c l ih =>
      rw [run_cons]
      cases h : pool.analyze config c with
      | ok a => exact Deals.analyzed h (ClassPool.cls_of_analyze h) ih
      | error e => exact Deals.skipped h ih

/-- The counters, the counts and the diagnostics of a batch are those of its classes. -/
structure Balanced (b : Batch) : Prop where
  counters : b.counters = b.analyses.foldl (fun n a => n + a.counters) {}
  analyzedCount : b.analyzedCount = b.analyses.length
  skippedCount : b.skippedCount = b.skipped.length
  diagnostics : b.diagnostics = b.analyses.flatMap ClassAnalysis.diagnostics

theorem Balanced.take {b : Batch} (h : b.Balanced) (c : ClassName)
    (r : Except AnalysisError ClassAnalysis) :
  (b.take c r).Balanced
  := by
  cases r with
  | ok a =>
      constructor
      · simp [Batch.take, h.counters]
      · simp [Batch.take, h.analyzedCount]
      · apply h.skippedCount
      · simp [Batch.take, h.diagnostics]
  | error e =>
      constructor
      · apply h.counters
      · apply h.analyzedCount
      · simp [Batch.take, h.skippedCount]
      · apply h.diagnostics

theorem balanced_run (pool : ClassPool) (config : Config) (l : List ClassName) :
  (run pool config l).Balanced
  := by
  rw [run_eq_foldl]
  apply List.foldlRecOn
  · constructor <;> rfl
  · intro b hb c _
    apply hb.take

/-- The batch over two lists of classes is the batch over the first one and then that over the
second one: analyses, skipped classes and diagnostics follow each other, and counters are added up.
In the batch over a list each class comes once, in the order of the list, with what an analysis of
this class alone gives, and the sums are those of these analyses. -/
theorem run_append_deals (pool : ClassPool) (config : Config) (l l' : List ClassName) :
  (run pool config (l ++ l')).analyses =
    (run pool config l).analyses ++ (run pool config l').analyses ∧
  (run pool config (l ++ l')).skipped =
    (run pool config l).skipped ++ (run pool config l').skipped ∧
  (run pool config (l ++ l')).counters =
    (run pool config l).counters + (run pool config l').counters ∧
  (run pool config (l ++ l')).analyzedCount =
    (run pool config l).analyzedCount + (run pool config l').analyzedCount ∧
  (run pool config (l ++ l')).skippedCount =
    (run pool config l).skippedCount + (run pool config l').skippedCount ∧
  (run pool config (l ++ l')).diagnostics =
    (run pool config l).diagnostics ++ (run pool config l').diagnostics ∧
  (run pool config l).Balanced ∧
  Deals pool config l (run pool config l).analyses (run pool config l).skipped
  := by
  rw [run_append]
  exact ⟨rfl, rfl, rfl, rfl, rfl, rfl, balanced_run pool config l, deals_run pool config l⟩

end Batch

end ServiceFlow
