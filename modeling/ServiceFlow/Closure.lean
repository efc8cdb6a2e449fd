/-!
# Closures

Everything that can be reached from some elements by steps to the successors of an element, each
element once, in the order of a breadth-first search.
-/

namespace ServiceFlow.Closure

variable {α : Type} [DecidableEq α]

/-- The successors of an element that were not found before, each once. -/
def news (next : α → List α) (found : List α) (a : α) : List α :=
  ((next a).filter (fun b => b ∉ found)).eraseDups

/-- Takes the elements of the queue in turn and appends what is new to the queue and to what was
found; takes at most `fuel` elements. -/
def search (next : α → List α) : Nat → List α → List α → List α
  | 0, _, found => found
  | _ + 1, [], found => found
  | fuel + 1, a :: queue, found =>
      search next fuel (queue ++ news next found a) (found ++ news next found a)

/-- What can be reached from the starting elements.  There must be no more than `bound` such
elements. -/
def reachable (next : α → List α) (bound : Nat) (starts : List α) : List α :=
  search next bound starts.eraseDups starts.eraseDups

end ServiceFlow.Closure
