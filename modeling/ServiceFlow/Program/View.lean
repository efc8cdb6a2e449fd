import ServiceFlow.Closure
import ServiceFlow.Program.ScopeError

/-!
# Views

A view is a part of a program: some of its classes, each name once.  Look-ups and the dispatch of
invocations see the classes of the view only.  Invocations are resolved by the class hierarchy.
-/

namespace ServiceFlow

/-- Classes with different names. -/
structure View where
  classes : List ClassDecl
  distinct : (classes.map ClassDecl.name).Nodup

namespace View

/-- The classes without those whose name occurred before. -/
def firstOfName : List ClassName → List ClassDecl → List ClassDecl
  | _, [] => []
  | seen, c :: rest =>
      if c.name ∈ seen then firstOfName seen rest else c :: firstOfName (c.name :: seen) rest

theorem not_mem_seen_of_mem_firstOfName {seen : List ClassName} {l : List ClassDecl}
    {c : ClassDecl} (h : c ∈ firstOfName seen l) :
  c.name ∉ seen
  := by
  induction l generalizing seen with
  | nil => cases h
  | cons d rest ih =>
      rw [firstOfName] at h
      split at h
      · exact ih h
      · next hd =>
        rcases List.mem_cons.1 h with rfl | h
        · exact hd
        · exact fun hc => ih h (List.mem_cons_of_mem _ hc)

theorem nodup_firstOfName (seen : List ClassName) (l : List ClassDecl) :
  ((firstOfName seen l).map ClassDecl.name).Nodup
  := by
  induction l generalizing seen with
  | nil => exact List.nodup_nil
  | cons d rest ih =>
      rw [firstOfName]
      split
      · exact ih seen
      · refine List.nodup_cons.2 ⟨fun h => ?_, ih _⟩
        obtain ⟨c, hc, hname⟩ := List.mem_map.1 h
        exact not_mem_seen_of_mem_firstOfName hc (hname ▸ List.mem_cons_self)

/-- The view of some classes; of several with the same name the first counts. -/
def ofList (classes : List ClassDecl) : View :=
  ⟨firstOfName [] classes, nodup_firstOfName [] classes⟩

/-! ### Look-up -/

def class? (v : View) (c : ClassName) : Option ClassDecl := v.classes.find? (fun d => d.name = c)

def contains (v : View) (c : ClassName) : Bool := (v.class? c).isSome

/-- All methods in the order of their declaration. -/
def methods (v : View) : List Method := v.classes.flatMap ClassDecl.methods

def method? (v : View) (m : MethodSig) : Option Method :=
  (v.class? m.owner).bind (fun c => c.method? m)

def body? (v : View) (m : MethodSig) : Option Body := (v.method? m).bind Method.body

def hasBody (v : View) (m : MethodSig) : Bool := (v.body? m).isSome

def stmt? (v : View) (p : StmtId) : Option Stmt :=
  (v.body? p.method).bind (fun b => b.stmts[p.offset]?)

/-! ### The class hierarchy -/

/-- The declared supertypes of a class in view. -/
def supertypes (v : View) (c : ClassName) : List ClassName :=
  match v.class? c with
  | some d => d.superclass.toList ++ d.interfaces
  | none => []

/-- A bound for the number of supertypes of a class, itself included. -/
def supertypeBound (v : View) : Nat :=
  v.classes.foldl (fun n d => n + d.superclass.toList.length + d.interfaces.length) 1

/-- The second type is the first one, or can be reached from it through supertypes in view. -/
def isSubtype (v : View) (sub sup : ClassName) : Bool :=
  sup ∈ Closure.reachable v.supertypes v.supertypeBound [sub]

/-- The method that an object of a class answers with, looked for from the class upwards.  A chain
of superclasses longer than the number of classes runs in a circle. -/
def dispatchWithin (v : View) (m : MethodSig) :
    Nat → ClassName → Except ScopeError (Option MethodSig)
  | 0, _ => .ok none
  | fuel + 1, c =>
      match v.class? c with
      | none => .ok none
      | some d =>
          match d.methodBySubSignature? m with
          | some found => .ok (if found.isConcrete then some found.signature else none)
          | none =>
              match d.superclass with
              | none => .ok none
              | some s =>
                  if v.contains s then v.dispatchWithin m fuel s
                  else if s = .object then .ok none
                  else .error (.unresolvedSuperclass m d.name s)

/-- The concrete method that a class has under a signature.  Nothing is found for a class outside
the view, or where the nearest declaration has no body.  To leave the view through a superclass
other than the topmost class is an error. -/
def dispatch (v : View) (c : ClassName) (m : MethodSig) : Except ScopeError (Option MethodSig) :=
  v.dispatchWithin m v.classes.length c

/-- Methods that may be overridden are looked for in subclasses too. -/
def isOverridable : InvokeKind → Bool
  | .virtual => true
  | .interface => true
  | _ => false

/-- The proper subtypes of a class in view. -/
def properSubtypes (v : View) (c : ClassName) : List ClassName :=
  (v.classes.map ClassDecl.name).filter (fun d => d ≠ c && v.isSubtype d c)

/-- The classes whose method may be meant by an invocation. -/
def receivers (v : View) (i : Invoke) : List ClassName :=
  i.method.owner :: if isOverridable i.kind then v.properSubtypes i.method.owner else []

/-- The methods that an invocation may enter, each once.  Dynamic invocations and those of classes
outside the view have none. -/
def resolve (v : View) (i : Invoke) : Except ScopeError (List MethodSig) :=
  if i.kind = .dynamic || !v.contains i.method.owner then .ok []
  else do
    let found ← (v.receivers i).mapM (fun c => v.dispatch c i.method)
    return (found.filterMap id).eraseDups

end View

end ServiceFlow
