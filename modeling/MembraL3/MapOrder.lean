/-
Iteration orders.

The order in which `std::unordered_map` visits its keys is not fixed by the
program: it is a parameter of the loops that depend on it.
-/
import Mathlib.Data.List.Basic

namespace Membra

/-- An iteration order of a map with string keys, given the keys in the order in
which they were added (newest first). -/
structure MapOrder where
  order : List String → List String
  perm : ∀ keys, (order keys).Perm keys

/-- The order of a map that iterates its newest key first. -/
def newestFirst : MapOrder := ⟨fun keys => keys, fun _ => List.Perm.refl _⟩

/-- The order of a map that iterates its oldest key first. -/
def oldestFirst : MapOrder := ⟨List.reverse, List.reverse_perm⟩

end Membra
