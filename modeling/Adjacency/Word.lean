/-!
# Sixty-four bit ranges

Byte counts, offsets and capacities are natural numbers below `2 ^ 64`; the arithmetic that derives
one from another either stays in that range or says that it does not. Nothing here wraps around:
`add?` and `mul?` refuse, `saturate` stops at the top.
-/

namespace Adjacency

-- Powers are those of the core library, also where another library brings its own.
attribute [default_instance 20000] instPowNat
attribute [scoped instance (high)] instPowNat

namespace Word

/-- The largest unsigned 64-bit number, also the largest byte count. -/
def max : Nat := 2 ^ 64 - 1

/-- The largest signed 64-bit number. -/
def signedMax : Nat := 2 ^ 63 - 1

/-- A sum of two counts, if it is still a count. -/
def add? (a b : Nat) : Option Nat := if a + b ≤ max then some (a + b) else none

/-- A product of two counts, if it is still a count. -/
def mul? (a b : Nat) : Option Nat := if a * b ≤ max then some (a * b) else none

/-- A number, or the largest count if the number is larger still. -/
def saturate (n : Nat) : Nat := min n max

theorem add?_eq_some_iff {a b c : Nat} : add? a b = some c ↔ a + b = c ∧ c ≤ max := by
  unfold add?
  split <;> simp <;> omega

theorem mul?_eq_some_iff {a b c : Nat} : mul? a b = some c ↔ a * b = c ∧ c ≤ max := by
  unfold mul?
  split
  · simp only [Option.some.injEq]
    constructor
    · rintro rfl; exact ⟨rfl, by assumption⟩
    · exact fun h ↦ h.1
  · simp only [reduceCtorEq, false_iff, not_and]
    rintro rfl
    assumption

theorem saturate_le (n : Nat) : saturate n ≤ max := Nat.min_le_right _ _

theorem saturate_of_le {n : Nat} (h : n ≤ max) : saturate n = n := Nat.min_eq_left h

end Word

end Adjacency
