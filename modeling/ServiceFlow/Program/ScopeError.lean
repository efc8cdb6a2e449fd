import ServiceFlow.Ir.Class

/-!
# Failures of scope

What can be missing when a part of a program is looked at on its own.
-/

namespace ServiceFlow

/-- What is wrong with the document of a class. -/
inductive DocumentFault where
  /-- It is not a class document. -/
  | undecodable
  /-- It declares a class of another name. -/
  | declares (c : ClassName)
deriving DecidableEq, Inhabited

/-- What is missing in a view, or cannot be read. -/
inductive ScopeError where
  | classNotFound (c : ClassName)
  | malformed (c : ClassName) (fault : DocumentFault)
  /-- The search for a method left the view through a superclass. -/
  | unresolvedSuperclass (method : MethodSig) (c superclass : ClassName)
  /-- A method to start from has no body in view. -/
  | missingBody (method : MethodSig)
deriving DecidableEq, Inhabited

def DocumentFault.message : DocumentFault → String
  | .undecodable => "not a class document"
  | .declares c => "document declares class " ++ c.text

def ScopeError.message : ScopeError → String
  | .classNotFound c => "class " ++ c.text ++ " is not part of the program"
  | .malformed c fault => "malformed class " ++ c.text ++ ": " ++ fault.message
  | .unresolvedSuperclass method c superclass =>
      "cannot resolve " ++ method.text ++ ": superclass " ++ superclass.text ++ " of " ++ c.text
        ++ " is outside the view"
  | .missingBody method => "method " ++ method.text ++ " has no body in the view"

end ServiceFlow
