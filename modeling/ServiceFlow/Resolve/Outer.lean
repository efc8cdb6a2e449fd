import ServiceFlow.Config.Basic
import ServiceFlow.Program.Pool
import ServiceFlow.Propagation.Run

/-!
# Receivers from the outer class

An inner class is often constructed by its outer class.  The objects that the outer class makes,
and the constants in its static fields, say what an instance of the inner class may hold.
-/

namespace ServiceFlow

/-- A run with the bounds and the target of a configuration. -/
def Config.run (c : Config) (v : View) (entry : MethodSig) (seeds : Store) :
    Except ScopeError Run :=
  Run.execute v entry seeds c.target c.solver.limits

/-- The constants that the static initializer of a class leaves in static fields; none if there is
no initializer with a body or no run from it is possible. -/
def Config.initialStatics (c : Config) (v : View) (d : ClassDecl) : Store :=
  match d.staticInitializer? with
  | some m =>
      if m.isConcrete then
        match c.run v m.signature .empty with
        | .ok r => r.harvest m.signature
        | .error _ => .empty
      else .empty
  | none => .empty

/-- An object, and the method that made it. -/
structure Receiver where
  maker : MethodSig
  object : Value
deriving DecidableEq, Inhabited

/-- Appends a receiver unless there is one with the same object already. -/
def Receiver.insert (l : List Receiver) (r : Receiver) : List Receiver :=
  if l.any (fun q => q.object = r.object) then l else l ++ [r]

/-- What an outer class knows of the instances of an inner one: the static fields, and the objects
that it makes. -/
structure OuterContext where
  statics : Store := .empty
  receivers : List Receiver := []

/-- A constructor call of a class, and the local that holds the new object. -/
structure Construction where
  site : StmtId
  object : Local
deriving DecidableEq, Inhabited

namespace ClassDecl

/-- The statement constructs an object of the class in a local. -/
def constructed? (inner : ClassName) : Stmt → Option Local
  | .invoke i =>
      if i.kind = .special && i.method.isConstructor && i.method.owner = inner then i.receiver
      else none
  | _ => none

/-- The constructions of an inner class in the methods of a class. -/
def constructions (d : ClassDecl) (inner : ClassName) : List Construction :=
  d.methods.flatMap (fun m => m.body.elim [] (fun b =>
    b.stmts.zipIdx.filterMap (fun s =>
      (constructed? inner s.1).map (fun l => ⟨⟨m.signature, s.2⟩, l⟩))))

end ClassDecl

namespace OuterContext

/-- The objects that a construction makes in a run from its method. -/
def receiversOf (c : Config) (v : View) (statics : Store) (k : Construction) :
    Except ScopeError (List Receiver) :=
  (c.run v k.site.method statics).map (fun r =>
    ((r.factsAfter k.site).map (fun s => s.getVar k.site.method k.object)).filterMap (fun value =>
      if value.isObject then some ⟨k.site.method, value⟩ else none))

/-- The last of the errors, if nothing was found beside them. -/
def settle (statics : Store) (results : List (Except ScopeError (List Receiver))) :
    Except ScopeError OuterContext :=
  let receivers := (results.flatMap (fun r => r.toOption.getD [])).foldl Receiver.insert []
  let errors := results.filterMap (fun r => match r with
    | .error e => some e
    | .ok _ => none)
  match receivers, errors.getLast? with
  | [], some e => .error e
  | _, _ => .ok ⟨statics, receivers⟩

/-- What the outer class, seen together with the inner one, says about instances of it. -/
def ofView (c : Config) (v : View) (outer inner : ClassName) : Except ScopeError OuterContext :=
  match v.class? outer with
  | none => .ok {}
  | some d =>
      let statics := c.initialStatics v d
      settle statics ((d.constructions inner).map (receiversOf c v statics))

/-- What the outer class of a class says; nothing without an outer class in the program. -/
def ofClass (pool : ClassPool) (c : Config) (d : ClassDecl) : Except ScopeError OuterContext :=
  match d.outer with
  | none => .ok {}
  | some outer =>
      if pool.contains outer then do
        let v ← pool.view [outer, d.name]
        ofView c v outer d.name
      else .ok {}

end OuterContext

end ServiceFlow
