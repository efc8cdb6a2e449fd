import ServiceFlow.Ir.Class

/-!
# Load targets

The shape of the calls that load classes by name at run time: a static method of some class with
a given name, whose first parameter has a given type.
-/

namespace ServiceFlow

/-- The method whose calls are looked for. -/
structure LoadTarget where
  owner : ClassName := .serviceLoader
  method : String := "load"
  firstParam : ClassName := .cls
deriving DecidableEq, Inhabited

namespace LoadTarget

/-- The invocation has the shape of a load call. -/
def accepts (t : LoadTarget) (i : Invoke) : Bool :=
  i.kind = .static && i.method.owner = t.owner && i.method.name = t.method
    && i.method.params.head?.elim false (fun p => p.isObject t.firstParam)

end LoadTarget

end ServiceFlow
