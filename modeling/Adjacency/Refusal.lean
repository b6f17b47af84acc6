import Adjacency.Event
import Adjacency.Outcome
import Adjacency.Word

/-!
# Checks that come before any change

Opening a store, admitting an entry and beginning a read all check first and change the store after.
A check that fails gives a `Refusal`, the cause and what is made known about it; the store is left
alone because a check never holds it.

The checks on memory are here too. Memory is granted up to some number of bytes at a time, and
capacities are 64-bit numbers.
-/

namespace Adjacency

/-- Why a check failed, and what is made known about it. -/
structure Refusal where
  cause : Error
  events : List Event
  deriving DecidableEq, Repr

/-- A check that yields an `α` if it succeeds. -/
abbrev Check := Except Refusal

theorem Check.bind_eq_ok {α β : Type} {x : Check α} {f : α → Check β} {b : β} :
    x >>= f = .ok b ↔ ∃ a, x = .ok a ∧ f a = .ok b := by
  cases x with
  | error r => simp [bind, Except.bind]
  | ok a => simp [bind, Except.bind]

theorem Check.map_eq_ok {α β : Type} {x : Check α} {f : α → β} {b : β} :
    f <$> x = .ok b ↔ ∃ a, x = .ok a ∧ f a = b := by
  cases x with
  | error r => simp [Functor.map, Except.map]
  | ok a => simp [Functor.map, Except.map]

namespace Refusal

/-- A refused call leaves its object as it was. -/
def leave {σ α : Type} (r : Refusal) (state : σ) : Outcome σ α := .fail state r.cause r.events

/-- A refusal that nothing is made known about. -/
def silent (cause : Error) : Refusal := ⟨cause, []⟩

end Refusal

namespace Memory

/-- The most bytes granted at a time. How many a machine grants is an assumption: the answers of a
program depend on it, but of all that is proved here nothing does, save for the bound `granted_le`
that any machine keeps. -/
def granted : Nat := 2 ^ 48 - 1

/-- No more is granted than the largest signed number of bytes. -/
theorem granted_le : granted ≤ Word.signedMax := by decide

/-- The bytes of an entry of the table of nodes. -/
def nodeSize : Nat := 24

/-- The bytes of an id. -/
def idSize : Nat := 8

/-- A product of two capacities. -/
def product (what : Resource) (a b : Nat) : Check Nat :=
  match Word.mul? a b with
  | some n => .ok n
  | none => .error ⟨.capacityExceeded what Word.max Word.max, [.capacityOverflow what a b]⟩

/-- Room for `capacity` elements of `elementSize` bytes each. -/
def reserve (what : Resource) (elementSize capacity : Nat) : Check Unit :=
  if capacity * elementSize ≤ granted then .ok ()
  else
    let limit := Word.signedMax / elementSize
    .error ⟨.capacityExceeded what limit capacity, [.reserveFailed what capacity limit]⟩

/-- The capacity after room for `extra` more elements behind `len` was asked for. -/
def extend (len capacity extra : Nat) : Nat := max capacity (len + extra)

theorem product_eq_ok {what : Resource} {a b n : Nat} :
    product what a b = .ok n ↔ a * b = n ∧ n ≤ Word.max := by
  rw [product]
  cases h : Word.mul? a b with
  | none =>
    refine iff_of_false nofun ?_
    intro hn
    rw [Word.mul?_eq_some_iff.mpr hn] at h
    exact nomatch h
  | some m =>
    rw [← Word.mul?_eq_some_iff, h, Option.some.injEq, Except.ok.injEq]

theorem reserve_eq_ok {what : Resource} {elementSize capacity : Nat} {u : Unit} :
    reserve what elementSize capacity = .ok u ↔ capacity * elementSize ≤ granted := by
  rw [reserve]
  split
  · next h => exact iff_of_true rfl h
  · next h => exact iff_of_false nofun h

end Memory

end Adjacency
