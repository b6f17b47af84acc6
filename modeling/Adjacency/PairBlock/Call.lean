import Adjacency.PairBlock.Block

/-!
# Calls on a block of pairs

The calls that a user of a block can make, as values, and the one function that makes them. The list
that `get` fills is part of its call, and the list as it was filled is part of its answer.
-/

namespace Adjacency

namespace PairBlock

/-- A call on a block. -/
inductive Call
  | set (pairs : List Pair)
  | get (target : List Pair)
  | toList
  | lookup (primary : Int64)
  deriving DecidableEq, Repr

/-- What a call answers. -/
inductive Answer
  | done
  /-- The number of pairs read, and the target with them. -/
  | filled (count : Nat) (target : List Pair)
  | pairs (ps : List Pair)
  | found (secondary : Option Int64)
  deriving DecidableEq, Repr

/-- Reads into a target. -/
def fill (k : PairBlock) (target : List Pair) : Outcome PairBlock Answer :=
  match k.get target with
  | ⟨.ok count, (k, target), events⟩ => ⟨.ok (.filled count target), k, events⟩
  | ⟨.error e, (k, _), events⟩ => ⟨.error e, k, events⟩

theorem state_fill (k : PairBlock) (target : List Pair) :
    (k.fill target).state = (k.get target).state.1 := by
  rw [fill]
  rcases k.get target with ⟨_ | _, _, _⟩
  · rfl
  · rfl

/-- Makes a call. -/
def step (k : PairBlock) : Call → Outcome PairBlock Answer
  | .set pairs => (k.set pairs).map fun _ ↦ .done
  | .get target => k.fill target
  | .toList => k.toList.map .pairs
  | .lookup primary => (k.lookup primary).map .found

end PairBlock

end Adjacency
