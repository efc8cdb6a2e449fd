import ServiceFlow.Resolve.Codec
import ServiceFlow.Resolve.Memo

/-!
# Batches

The analyses of several classes in a row.  A batch takes in one class after another: it keeps the
analysis or the reason why there is none, adds up the counters, and passes the diagnostics on.
-/

namespace ServiceFlow

/-- A class that could not be analysed. -/
structure Skipped where
  cls : ClassName
  error : AnalysisError
deriving DecidableEq, Inhabited

/-- What became of the classes so far. -/
structure Batch where
  analyses : List ClassAnalysis := []
  skipped : List Skipped := []
  counters : Counters := {}
  /-- How many classes were analysed. -/
  analyzedCount : Nat := 0
  /-- How many classes were skipped. -/
  skippedCount : Nat := 0
  /-- All diagnostics in the order they were passed on. -/
  diagnostics : List Diagnostic := []
deriving DecidableEq, Inhabited

namespace Batch

/-- Takes in what became of a class. -/
def take (b : Batch) (c : ClassName) : Except AnalysisError ClassAnalysis → Batch
  | .ok a => { b with
      diagnostics := b.diagnostics ++ a.diagnostics
      counters := b.counters + a.counters
      analyzedCount := b.analyzedCount + 1
      analyses := b.analyses ++ [a] }
  | .error e => { b with
      skippedCount := b.skippedCount + 1
      skipped := b.skipped ++ [⟨c, e⟩] }

/-- The analyses of the classes in their order. -/
def run (pool : ClassPool) (config : Config) (classes : List ClassName) : Batch :=
  (classes.zip (classes.map (pool.analyze config))).foldl (fun b r => b.take r.1 r.2) {}

/-- The batch as JSON, with the time it took in milliseconds. -/
def encode (b : Batch) (elapsed : Nat) : Json := .obj [
  ("analyses", .ofList ClassAnalysis.encode b.analyses),
  ("skipped", .ofList (fun (s : Skipped) =>
    .obj [("class", s.cls.encode), ("reason", .str s.error.message)]) b.skipped),
  ("summary", .obj [
    ("counters", b.counters.encode),
    ("classes_analyzed", .ofNat b.analyzedCount),
    ("classes_skipped", .ofNat b.skippedCount),
    ("elapsed_ms", .ofNat elapsed)])]

end Batch

end ServiceFlow
