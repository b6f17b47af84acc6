import Adjacency.Proofs.Arrays.Coded
import Adjacency.Store.Basic
import Mathlib.Tactic.Ring

/-!
# Arrays that double

The arrays of both kinds grow by one rule. Before something is added there must be room for
`reserve` more, the most that can be added at a time: one id, or the longest code. If there is less,
the array is given as much room again as it has. Seen from outside an array is how much it holds and
how much it has room for, its `Extent`, and only these two numbers enter the rule.

An array does not double exactly, since the new room is counted from what it holds and not from what
it had room for. What does double is its room short of the reserve, `capacity + 1 - reserve`. That
is the least number at which the array is found tight, so each growth takes at least twice as much
as the one before (`Extent.Doubled`).
-/

namespace Adjacency

/-- How much an array holds, and how much it has room for. -/
structure Extent where
  held : Nat
  capacity : Nat
  deriving DecidableEq, Repr

namespace Extent

/-- There is less room than for `reserve` more. -/
def isTight (reserve : Nat) (x : Extent) : Bool := decide (x.capacity < x.held + reserve)

/-- The extent after `len` more were added, and room before them if there was too little. -/
def add (reserve len : Nat) (x : Extent) : Extent where
  held := x.held + len
  capacity :=
    if x.isTight reserve then Memory.extend x.held x.capacity (max x.capacity reserve)
    else x.capacity

/-- The array has grown a number of times. It was first found tight when it held `start` or more,
and it does not hold more than it has room for. -/
structure Doubled (reserve start growths : Nat) (x : Extent) : Prop where
  held_le : x.held ≤ x.capacity
  le_capacity : 2 ^ growths * start + reserve ≤ x.capacity + 1
  /-- Until it has grown, the array has the room that it began with. -/
  capacity_eq : growths = 0 → x.capacity + 1 = start + reserve

variable {reserve start growths len : Nat} {x : Extent}

@[simp] theorem held_add : (x.add reserve len).held = x.held + len := rfl

theorem isTight_iff : x.isTight reserve = true ↔ x.capacity < x.held + reserve := decide_eq_true_iff

theorem held_eq_of_isTight (hle : x.held ≤ x.capacity) (htight : x.isTight 1 = true) :
    x.held = x.capacity := by
  rw [isTight_iff] at htight
  omega

namespace Doubled

variable (h : x.Doubled reserve start growths)

include h

theorem le_held (htight : x.isTight reserve = true) : 2 ^ growths * start ≤ x.held := by
  have hle := h.le_capacity
  rw [isTight_iff] at htight
  omega

/-- An array that is found tight gets as much room behind what it holds as it had. -/
theorem capacity_add (hstart : 0 < start) (htight : x.isTight reserve = true) :
    (x.add reserve len).capacity = x.held + x.capacity := by
  have hle := h.le_capacity
  have hpos : 0 < 2 ^ growths * start := Nat.mul_pos (Nat.two_pow_pos growths) hstart
  rw [add]
  dsimp only
  rw [if_pos htight, Memory.extend]
  omega

theorem capacity_add_ne_iff (hstart : 0 < start) :
    x.capacity ≠ (x.add reserve len).capacity ↔ x.isTight reserve = true := by
  constructor
  · intro hne
    refine Classical.byContradiction fun hroomy ↦ hne ?_
    rw [add, if_neg hroomy]
  · intro htight
    have hheld := h.le_held htight
    have hpos : 0 < 2 ^ growths * start := Nat.mul_pos (Nat.two_pow_pos growths) hstart
    rw [h.capacity_add hstart htight]
    omega

/-- **One more growth doubles what it takes to be found tight.** -/
theorem add (hstart : 0 < start) (hlen : len ≤ reserve) :
    (x.add reserve len).Doubled reserve start
      (growths + if x.isTight reserve then 1 else 0) := by
  have hle := h.le_capacity
  cases htight : x.isTight reserve with
  | true =>
    have hheld := h.le_held htight
    have hcapacity : (x.add reserve len).capacity = x.held + x.capacity :=
      h.capacity_add hstart htight
    have hpow : 2 ^ (growths + 1) * start = 2 ^ growths * start + 2 ^ growths * start := by ring
    have hpos : 0 < 2 ^ growths * start := Nat.mul_pos (Nat.two_pow_pos growths) hstart
    refine ⟨?_, ?_, ?_⟩
    · rw [hcapacity, held_add]
      omega
    · rw [hcapacity, if_pos rfl, hpow]
      omega
    · rw [if_pos rfl]
      exact fun hzero ↦ absurd hzero (Nat.succ_ne_zero growths)
  | false =>
    have hroomy : ¬ x.capacity < x.held + reserve := of_decide_eq_false htight
    have hcapacity : (x.add reserve len).capacity = x.capacity := by
      rw [Extent.add, htight]
      rfl
    refine ⟨?_, ?_, ?_⟩
    · rw [hcapacity, held_add]
      omega
    · rw [hcapacity]
      exact hle
    · rw [hcapacity]
      exact h.capacity_eq

end Doubled

end Extent

/-! ## The arrays of a store -/

namespace PlainArrays

/-- The ids that a node's array holds and has room for. -/
def extent? (a : PlainArrays) (n : Nat) : Option Extent :=
  a.nodes[n]?.map fun array ↦ ⟨array.ids.size, array.capacity⟩

variable {a : PlainArrays} {node : Nat} {x : Extent}

theorem isFull_eq (hx : a.extent? node = some x) (hle : x.held ≤ x.capacity) :
    (a.nodes.getD node default).isFull = x.isTight 1 := by
  obtain ⟨array, harray, rfl⟩ := Option.map_eq_some_iff.mp hx
  rw [Array.getD_eq_getD_getElem?, harray, Option.getD_some, PlainArray.isFull, Extent.isTight]
  dsimp only at hle ⊢
  rw [Bool.eq_iff_iff, beq_iff_eq, decide_eq_true_iff]
  omega

theorem extent?_append (hx : a.extent? node = some x) (hle : x.held ≤ x.capacity)
    (target : UInt64) (n : Nat) :
    (a.append node target).1.extent? n
      = if n = node then some (x.add 1 1) else a.extent? n := by
  have hfull := isFull_eq hx hle
  obtain ⟨array, harray, rfl⟩ := Option.map_eq_some_iff.mp hx
  rw [Array.getD_eq_getD_getElem?, harray, Option.getD_some] at hfull
  rw [extent?, nodes_append, Array.getElem?_modify]
  by_cases hn : n = node
  · subst hn
    rw [if_pos rfl, if_pos rfl, harray]
    simp only [Option.map_some, PlainArray.push, hfull, PlainArray.grownCapacity, Extent.add,
      Array.size_push]
  · rw [if_neg (Ne.symm hn), if_neg hn, extent?]

theorem reallocations_append (hx : a.extent? node = some x) (hle : x.held ≤ x.capacity)
    (target : UInt64) :
    (a.append node target).1.reallocations = a.reallocations + if x.isTight 1 then 1 else 0 := by
  rw [append, isFull_eq hx hle]
  dsimp only
  split <;> rfl

end PlainArrays

namespace CodedArrays

/-- The bytes that a node's array holds and has room for. -/
def extent? (a : CodedArrays) (n : Nat) : Option Extent :=
  a.nodes[n]?.map fun array ↦ ⟨array.bytes.size, array.capacity⟩

variable {a : CodedArrays} {node : Nat} {x : Extent}

theorem isTight_eq (hx : a.extent? node = some x) :
    (a.nodes.getD node default).isTight a.codec = x.isTight a.codec.maxLen := by
  obtain ⟨array, harray, rfl⟩ := Option.map_eq_some_iff.mp hx
  rw [Array.getD_eq_getD_getElem?, harray]
  rfl

theorem extent?_append (hx : a.extent? node = some x) (target : UInt64) (n : Nat) :
    (a.append node target).1.extent? n
      = if n = node then some (x.add a.codec.maxLen (a.codec.sizeUInt64 target))
        else a.extent? n := by
  have htight := isTight_eq hx
  obtain ⟨array, harray, rfl⟩ := Option.map_eq_some_iff.mp hx
  rw [Array.getD_eq_getD_getElem?, harray, Option.getD_some] at htight
  rw [extent?, nodes_append, Array.getElem?_modify]
  by_cases hn : n = node
  · subst hn
    have hsize : (a.codec.pushUInt64 target array.bytes).1.size
        = array.bytes.size + a.codec.sizeUInt64 target := by
      rw [Codec.pushUInt64, Codec.push, ← Array.length_toList]
      simp [Codec.sizeUInt64]
    rw [if_pos rfl, if_pos rfl, harray]
    simp only [Option.map_some, CodedArray.push, htight, CodedArray.grownCapacity, Extent.add,
      hsize]
  · rw [if_neg (Ne.symm hn), if_neg hn, extent?]

theorem reallocations_append (hx : a.extent? node = some x) (target : UInt64) :
    (a.append node target).1.reallocations
      = a.reallocations + if x.isTight a.codec.maxLen then 1 else 0 := by
  rw [append, isTight_eq hx]
  dsimp only
  split <;> rfl

end CodedArrays

namespace Contents

/-- How much the array of a node holds and has room for, in contents that have arrays. -/
def extent? : Contents → Nat → Option Extent
  | .plain a, n => a.extent? n
  | .coded a, n => a.extent? n
  | .null, _ => none
  | .paged _, _ => none

/-- What an array has room for before something is added. -/
def reserve : Contents → Nat
  | .plain _ => 1
  | .coded a => a.codec.maxLen
  | .null => 0
  | .paged _ => 0

/-- What an id takes in an array. -/
def lengthOf (target : NodeId) : Contents → Nat
  | .coded a => a.codec.sizeUInt64 target
  | _ => 1

variable {c : Contents} {node : Nat} {x : Extent}

@[simp] theorem reserve_append (c : Contents) (node : Nat) (target : NodeId) :
    (c.append node target).state.reserve = c.reserve := by
  cases c with
  | null => rfl
  | plain a => rfl
  | coded a =>
    show (a.append node target).1.codec.maxLen = a.codec.maxLen
    rw [CodedArrays.append]
    dsimp only
    split <;> rfl
  | paged a =>
    rw [append]
    rcases a.append node target with ⟨result, b, events⟩
    cases result with
    | ok trace => rfl
    | error e => rfl

theorem lengthOf_le_reserve (hx : c.extent? node = some x) (target : NodeId) :
    c.lengthOf target ≤ c.reserve := by
  cases c with
  | null => cases hx
  | plain a => exact Nat.le_refl 1
  | coded a => exact a.codec.size_le_maxLen (Signedness.admits_toNat target)
  | paged a => cases hx

/-- **Adding an id adds what it takes to the extent of its node,** and leaves the other nodes
alone. -/
theorem extent?_append (hx : c.extent? node = some x) (hle : x.held ≤ x.capacity)
    (target : NodeId) (n : Nat) :
    (c.append node target).state.extent? n
      = if n = node then some (x.add c.reserve (c.lengthOf target)) else c.extent? n := by
  cases c with
  | null => cases hx
  | plain a => exact PlainArrays.extent?_append hx hle target n
  | coded a => exact CodedArrays.extent?_append hx target n
  | paged a => cases hx

theorem reallocations_append (hx : c.extent? node = some x) (hle : x.held ≤ x.capacity)
    (target : NodeId) :
    (c.append node target).state.reallocations
      = c.reallocations + if x.isTight c.reserve then 1 else 0 := by
  cases c with
  | null => cases hx
  | plain a => exact PlainArrays.reallocations_append hx hle target
  | coded a => exact CodedArrays.reallocations_append hx target
  | paged a => cases hx

end Contents

end Adjacency
