import ServiceFlow.Resolve.Analysis
import ServiceFlow.Value.Codec

/-!
# Analyses as JSON
-/

namespace ServiceFlow

open Json (record? required)

namespace LoadArg

def members : List String := ["arg", "param_type", "value"]

def encode (a : LoadArg) : Json :=
  .obj [("arg", a.operand.encode), ("param_type", a.type.encode), ("value", a.value.encode)]

/-- Reads an argument, its value by `readValue`. -/
def decodeWith? (readValue : Json → Option Value) (j : Json) : Option LoadArg :=
  match record? members j with
  | some [operand, type, value] => do
      let operand ← required Operand.decode? operand
      let type ← required Ty.decode? type
      let value ← required readValue value
      return ⟨operand, type, value⟩
  | _ => none

end LoadArg

namespace LoadCall

def members : List String := ["site", "invoke", "args"]

def encode (c : LoadCall) : Json :=
  .obj [("site", StmtId.encode c.site), ("invoke", c.invoke.encode),
    ("args", .ofList LoadArg.encode c.args)]

/-- Reads a call, the values of its arguments by `readValue`. -/
def decodeWith? (readValue : Json → Option Value) (j : Json) : Option LoadCall :=
  match record? members j with
  | some [site, invoke, args] => do
      let site ← required StmtId.decode? site
      let invoke ← required Invoke.decode? invoke
      let args ← required (Json.list? (LoadArg.decodeWith? readValue)) args
      return ⟨site, invoke, args⟩
  | _ => none

def decode? (j : Json) : Option LoadCall := decodeWith? Value.decode? j

end LoadCall

namespace Finding

def members : List String := ["entry", "call"]

def encode (f : Finding) : Json := .obj [("entry", f.entry.encode), ("call", f.call.encode)]

def decode? (j : Json) : Option Finding :=
  match record? members j with
  | some [entry, call] => do
      let entry ← required MethodSig.decode? entry
      let call ← required LoadCall.decode? call
      return ⟨entry, call⟩
  | _ => none

end Finding

namespace Diagnostic

def solverUnavailableMembers : List String := ["kind", "class", "call", "reason"]

def unresolvedMembers : List String := ["kind", "class", "call"]

def encode : Diagnostic → Json
  | .solverUnavailable c call reason =>
      .obj [("kind", .str "solver_unavailable"), ("class", c.encode), ("call", call.encode),
        ("reason", .str reason)]
  | .unresolved c call =>
      .obj [("kind", .str "unresolved"), ("class", c.encode), ("call", call.encode)]

/-- The kind of a diagnostic: a member of an object, or the first item of an array. -/
def kind? : Json → Option String
  | .obj members => ((Json.uniqueMember? members "kind").bind id).bind Json.string?
  | .arr (kind :: _) => kind.string?
  | _ => none

/-- The call of a diagnostic.  Its values may have the numbers of their kinds. -/
def call? (j : Json) : Option LoadCall := LoadCall.decodeWith? Value.decodeNumbered? j

/-- In a diagnostic an alternative without content may also have an empty object as its
content. -/
def decode? (j : Json) : Option Diagnostic :=
  let j := j.withoutEmptyContents
  match kind? j with
  | some "solver_unavailable" =>
      match record? solverUnavailableMembers j with
      | some [_, c, call, reason] => do
          let c ← required ClassName.decode? c
          let call ← required call? call
          let reason ← required Json.string? reason
          return .solverUnavailable c call reason
      | _ => none
  | some "unresolved" =>
      match record? unresolvedMembers j with
      | some [_, c, call] => do
          let c ← required ClassName.decode? c
          let call ← required call? call
          return .unresolved c call
      | _ => none
  | _ => none

end Diagnostic

namespace Counters

def members : List String := ["literal", "dataflow", "unresolved", "solver_failures"]

def encode (c : Counters) : Json :=
  .obj [("literal", .ofWord c.literal), ("dataflow", .ofWord c.dataflow),
    ("unresolved", .ofWord c.unresolved), ("solver_failures", .ofWord c.solverFailures)]

def decode? (j : Json) : Option Counters :=
  match record? members j with
  | some [literal, dataflow, unresolved, solverFailures] => do
      let literal ← required Json.uint64? literal
      let dataflow ← required Json.uint64? dataflow
      let unresolved ← required Json.uint64? unresolved
      let solverFailures ← required Json.uint64? solverFailures
      return ⟨literal, dataflow, unresolved, solverFailures⟩
  | _ => none

end Counters

namespace Resolution

def members : List String := ["method", "calls"]

def encode (r : Resolution) : Json :=
  .obj [("method", r.method.encode), ("calls", .ofList Finding.encode r.findings)]

def decode? (j : Json) : Option Resolution :=
  match record? members j with
  | some [method, calls] => do
      let method ← required MethodSig.decode? method
      let calls ← required (Json.list? Finding.decode?) calls
      return ⟨method, calls⟩
  | _ => none

end Resolution

namespace ClassAnalysis

def members : List String := ["class", "resolutions", "diagnostics", "counters"]

def encode (a : ClassAnalysis) : Json :=
  .obj [("class", a.cls.encode), ("resolutions", .ofList Resolution.encode a.resolutions),
    ("diagnostics", .ofList Diagnostic.encode a.diagnostics), ("counters", a.counters.encode)]

def decode? (j : Json) : Option ClassAnalysis :=
  match record? members j with
  | some [c, resolutions, diagnostics, counters] => do
      let c ← required ClassName.decode? c
      let resolutions ← required (Json.list? Resolution.decode?) resolutions
      let diagnostics ← required (Json.list? Diagnostic.decode?) diagnostics
      let counters ← required Counters.decode? counters
      return ⟨c, resolutions, diagnostics, counters⟩
  | _ => none

end ClassAnalysis

end ServiceFlow
