import ServiceFlow.Load.Call
import ServiceFlow.Propagation.Flow

/-!
# Statements that load a class

A class is loaded with one argument, a local that holds the class.  Such an invocation is not
followed, and the load call is resolved as soon as the local is known.
-/

namespace ServiceFlow

/-- The invocations that are not followed when the load calls are the usual ones. -/
abbrev skips : Invoke → Bool := ({} : LoadTarget).skips

/-- The method that loads a class. -/
def loadMethod : MethodSig := ⟨.serviceLoader, "load", [.cls], .object .serviceLoader⟩

/-- The invocation that loads the class of a local. -/
def loadOf (cls : Local) : Invoke := ⟨.static, loadMethod, none, [.var cls]⟩

theorem skips_loadOf (cls : Local) :
  skips (loadOf cls)
  := rfl

/-- A statement that loads the class of a local. -/
structure LoadSite where
  site : StmtId
  cls : Local
deriving DecidableEq, Inhabited

namespace LoadSite

variable (x : LoadSite)

/-- The load call, with what is known of its argument. -/
def callWith (value : Value) : LoadCall := ⟨x.site, loadOf x.cls, [⟨.var x.cls, .cls, value⟩]⟩

/-- The load call before anything is known of its argument. -/
def call : LoadCall := x.callWith .unknown

/-- The load call with a class. -/
def loaded (name : String) : LoadCall := x.callWith (.cls name)

theorem ofInvoke_loadOf :
  LoadCall.ofInvoke x.site (loadOf x.cls) = x.call
  := rfl

theorem loaded_injective :
  Function.Injective x.loaded
  := by
  intro a b h
  simpa [loaded, callWith] using h

/-- A store has the argument of the call. -/
theorem withValues_call (s : Store) :
  x.call.withValues s = x.callWith (s.getVar x.site.method x.cls)
  := rfl

theorem isResolved_callWith (value : Value) :
  (x.callWith value).isResolved = value.isKnown
  := by
  have hrequired : Ty.cls.isObject .cls := rfl
  simp [callWith, LoadCall.isResolved, LoadArg.isRequired, hrequired]

end LoadSite

end ServiceFlow
