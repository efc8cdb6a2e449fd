import ServiceFlow.Load.Call

/-!
# The analysis of a class

What was found out about the load calls of a class: the resolved calls grouped by the methods they
stand in, what could not be resolved, and how many calls there are of each sort.
-/

namespace ServiceFlow

/-- What is reported of a load call without result. -/
inductive Diagnostic where
  /-- Some part of the program that the call depends on could not be looked at. -/
  | solverUnavailable (cls : ClassName) (call : LoadCall) (reason : String)
  /-- Nothing was found for the call. -/
  | unresolved (cls : ClassName) (call : LoadCall)
deriving DecidableEq, Inhabited

namespace Diagnostic

def cls : Diagnostic → ClassName
  | .solverUnavailable c _ _ => c
  | .unresolved c _ => c

def call : Diagnostic → LoadCall
  | .solverUnavailable _ call _ => call
  | .unresolved _ call => call

def reason? : Diagnostic → Option String
  | .solverUnavailable _ _ reason => some reason
  | .unresolved _ _ => none

end Diagnostic

/-- Numbers of calls by what became of them, as words of 64 bits: a sum too large wraps around. -/
structure Counters where
  /-- Calls with a class literal. -/
  literal : UInt64 := 0
  /-- Calls resolved by the propagation of constants. -/
  dataflow : UInt64 := 0
  unresolved : UInt64 := 0
  solverFailures : UInt64 := 0
deriving DecidableEq, Inhabited

namespace Counters

def add (a b : Counters) : Counters where
  literal := a.literal + b.literal
  dataflow := a.dataflow + b.dataflow
  unresolved := a.unresolved + b.unresolved
  solverFailures := a.solverFailures + b.solverFailures

instance : Add Counters := ⟨add⟩

end Counters

namespace Finding

/-- Appends a finding unless there is one of the same call already. -/
def insert (l : List Finding) (f : Finding) : List Finding :=
  if l.any (fun g => g.call = f.call) then l else l ++ [f]

end Finding

/-- The findings for the calls of a method. -/
structure Resolution where
  method : MethodSig
  findings : List Finding
deriving DecidableEq, Inhabited

/-- The findings of a class with its diagnostics, and the number of calls of each sort. -/
structure ClassAnalysis where
  cls : ClassName
  /-- In the order in which the methods had their first finding. -/
  resolutions : List Resolution := []
  diagnostics : List Diagnostic := []
  counters : Counters := {}
deriving DecidableEq, Inhabited

namespace Resolution

/-- Adds a finding to the group of its method. -/
def insert (m : MethodSig) (f : Finding) : List Resolution → List Resolution
  | [] => [⟨m, [f]⟩]
  | r :: rest =>
      if r.method = m then { r with findings := Finding.insert r.findings f } :: rest
      else r :: insert m f rest

end Resolution

namespace ClassAnalysis

/-- The findings for the calls of a method. -/
def findingsFor (a : ClassAnalysis) (m : MethodSig) : List Finding :=
  (a.resolutions.find? (fun r => r.method = m)).elim [] Resolution.findings

def findings (a : ClassAnalysis) : List Finding := a.resolutions.flatMap Resolution.findings

/-- Adds a finding for a call that stands in the method. -/
def record (a : ClassAnalysis) (m : MethodSig) (f : Finding) : ClassAnalysis :=
  { a with resolutions := Resolution.insert m f a.resolutions }

def isEmpty (a : ClassAnalysis) : Bool := a.resolutions.isEmpty

end ClassAnalysis

end ServiceFlow
