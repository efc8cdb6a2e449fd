import ServiceFlow.Ir.Statement

/-!
# Library calls

The calls of library methods whose meaning the analysis knows.
-/

namespace ServiceFlow

/-- A call whose effect on values is known without a body. -/
inductive LibraryCall where
  /-- The class of a name. -/
  | classForName
  /-- The canonical name of a class. -/
  | canonicalName
  /-- The simple name of a class. -/
  | simpleName
  /-- The construction of a string builder. -/
  | builderInit
  | builderAppend
  | builderToString
  /-- The concatenation of two strings. -/
  | stringConcat
deriving DecidableEq, Inhabited

namespace LibraryCall

/-- The library call that an invocation is, by the class, the name and the number of parameters of
the method. -/
def ofInvoke? (i : Invoke) : Option LibraryCall :=
  let arity := i.method.params.length
  if i.method.owner = .cls then
    match i.method.name with
    | "forName" => if i.kind = .static && 1 ≤ arity then some .classForName else none
    | "getCanonicalName" => if arity = 0 then some .canonicalName else none
    | "getSimpleName" => if arity = 0 then some .simpleName else none
    | _ => none
  else if i.method.owner.isBuilder then
    match i.method.name with
    | "<init>" => some .builderInit
    | "append" => if arity = 1 then some .builderAppend else none
    | "toString" => if arity = 0 then some .builderToString else none
    | _ => none
  else if i.method.owner = .string && i.method.name = "concat" && arity = 1 then
    some .stringConcat
  else none

end LibraryCall

end ServiceFlow
