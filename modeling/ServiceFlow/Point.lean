/-!
# Program points

A program point is a method with an offset into its body.  It stays the same from one view of the
program to the next.
-/

namespace ServiceFlow

/-- A method and an offset into its body; `μ` is what methods are known by. -/
structure Point (μ : Type) where
  method : μ
  offset : Nat
deriving DecidableEq, Hashable, Inhabited

namespace Point

variable {μ : Type}

instance [Ord μ] : Ord (Point μ) := ⟨compareLex (compareOn (·.method)) (compareOn (·.offset))⟩

instance [Ord μ] [Std.TransOrd μ] : Std.TransOrd (Point μ) :=
  inferInstanceAs (Std.TransCmp (compareLex (compareOn Point.method) (compareOn Point.offset)))

instance [Ord μ] [Std.LawfulEqOrd μ] : Std.LawfulEqOrd (Point μ) where
  compare_self {a} := Ordering.then_eq_eq.2
    ⟨(Std.ReflOrd.compare_self : compare a.method a.method = .eq),
      (Std.ReflOrd.compare_self : compare a.offset a.offset = .eq)⟩
  eq_of_compare {a b} h := by
    obtain ⟨hmethod, hoffset⟩ := Ordering.then_eq_eq.1 h
    cases a
    cases b
    obtain rfl := Std.LawfulEqOrd.eq_of_compare hmethod
    obtain rfl := Std.LawfulEqOrd.eq_of_compare hoffset
    rfl

end Point

end ServiceFlow
