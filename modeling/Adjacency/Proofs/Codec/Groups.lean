import Mathlib.Data.Nat.Digits.Defs
import Adjacency.Codec.Base128

/-!
# Rows of groups

A base-128 code is a row of bytes of which all but the last carry a flag. Its number is the one
that has the seven lowest binary digits of these bytes for its digits, the lowest first. There are at
most ten bytes, and the tenth has one binary digit (`IsRow`).

The reader takes every row and nothing else (`decodeWithin_of_isRow`,
`exists_isRow_of_decodeWithin`), also a row that ends in groups of zeros. A row is known by its
number and its length (`IsRow.eq_groups`).
-/

namespace Adjacency

namespace Base128

/-- The binary digits that a byte contributes. -/
def payload (b : UInt8) : Nat := b.toNat % 128

/-- Another group follows that of the byte. -/
def IsFlagged (b : UInt8) : Prop := 128 ≤ b.toNat

/-- The number that a row of groups writes. -/
def value (row : List UInt8) : Nat := Nat.ofDigits 128 (row.map payload)

/-- At most `room` groups, each of which but the last is followed by another. If they take all the
room, the last has one binary digit. -/
structure IsRow (room : Nat) (row : List UInt8) : Prop where
  ne_nil : row ≠ []
  length_le : row.length ≤ room
  flagged : ∀ b ∈ row.dropLast, IsFlagged b
  ends : ∀ b ∈ row.getLast?, ¬ IsFlagged b
  top_le : row.length = room → ∀ b ∈ row.getLast?, payload b ≤ 1

variable {room n len : Nat} {b : UInt8} {row bytes : List UInt8}

theorem payload_lt (b : UInt8) : payload b < 128 := Nat.mod_lt _ (by decide)

theorem payload_of_flagged (h : IsFlagged b) : payload b + 128 = b.toNat := by
  have hlt := b.toNat_lt
  rw [IsFlagged] at h
  rw [payload]
  omega

theorem payload_of_not_flagged (h : ¬ IsFlagged b) : payload b = b.toNat :=
  Nat.mod_eq_of_lt (Nat.lt_of_not_le h)

@[simp] theorem value_cons : value (b :: row) = payload b + 128 * value row := Nat.ofDigits_cons

theorem value_singleton : value [b] = payload b := Nat.ofDigits_singleton

/-! ## Rows -/

theorem IsRow.length_pos (h : IsRow room row) : 0 < row.length := List.length_pos_iff.mpr h.ne_nil

theorem IsRow.room_pos (h : IsRow room row) : 0 < room :=
  Nat.lt_of_lt_of_le h.length_pos h.length_le

theorem isRow_singleton :
    IsRow (room + 1) [b] ↔ ¬ IsFlagged b ∧ (room = 0 → payload b ≤ 1) := by
  constructor
  · intro h
    exact ⟨h.ends b rfl, fun hroom ↦ h.top_le (by rw [hroom]; rfl) b rfl⟩
  · rintro ⟨hends, htop⟩
    refine ⟨List.cons_ne_nil b [], Nat.le_add_left 1 room, fun c hc ↦ absurd hc List.not_mem_nil,
      ?_, ?_⟩
    · rintro c ⟨⟩
      exact hends
    · rintro hlen c ⟨⟩
      exact htop (Nat.succ.inj hlen).symm

theorem isRow_cons (hne : row ≠ []) :
    IsRow (room + 1) (b :: row) ↔ IsFlagged b ∧ IsRow room row := by
  have hlen : (b :: row).length = room + 1 ↔ row.length = room := Nat.succ_inj
  constructor
  · rintro ⟨-, hle, hflagged, hends, htop⟩
    rw [List.dropLast_cons_of_ne_nil hne, List.forall_mem_cons] at hflagged
    rw [List.getLast?_cons_of_ne_nil hne] at hends htop
    rw [hlen] at htop
    exact ⟨hflagged.1, hne, Nat.le_of_succ_le_succ hle, hflagged.2, hends, htop⟩
  · rintro ⟨hfirst, -, hle, hflagged, hends, htop⟩
    refine ⟨List.cons_ne_nil b row, Nat.succ_le_succ hle, ?_, ?_, ?_⟩
    · rw [List.dropLast_cons_of_ne_nil hne, List.forall_mem_cons]
      exact ⟨hfirst, hflagged⟩
    · rw [List.getLast?_cons_of_ne_nil hne]
      exact hends
    · rw [List.getLast?_cons_of_ne_nil hne, hlen]
      exact htop

/-- Rows are built from the last group on. -/
@[elab_as_elim]
theorem IsRow.induct {motive : (room : Nat) → (row : List UInt8) → IsRow room row → Prop}
    (single : ∀ room b (hends : ¬ IsFlagged b) (htop : room = 0 → payload b ≤ 1),
      motive (room + 1) [b] (isRow_singleton.mpr ⟨hends, htop⟩))
    (more : ∀ room b row (hflagged : IsFlagged b) (hrow : IsRow room row), motive room row hrow →
      motive (room + 1) (b :: row) ((isRow_cons hrow.ne_nil).mpr ⟨hflagged, hrow⟩))
    {room : Nat} {row : List UInt8} (h : IsRow room row) : motive room row h := by
  induction row generalizing room with
  | nil => exact absurd rfl h.ne_nil
  | cons b row ih =>
    obtain ⟨room, rfl⟩ := Nat.exists_eq_succ_of_ne_zero (Nat.ne_of_gt h.room_pos)
    by_cases hne : row = []
    · subst hne
      obtain ⟨hends, htop⟩ := isRow_singleton.mp h
      exact single room b hends htop
    · obtain ⟨hflagged, hrow⟩ := (isRow_cons hne).mp h
      exact more room b row hflagged hrow (ih hrow)

/-! ## Reading rows -/

theorem decodeWithin_of_isRow (h : IsRow room row) (rest : List UInt8) :
    decodeWithin room (row ++ rest) = .ok (value row, row.length) := by
  induction h using IsRow.induct with
  | single room b hends htop =>
    have hb : b.toNat < 128 := Nat.lt_of_not_le hends
    rw [List.singleton_append, decodeWithin, if_neg, if_pos hb, value_singleton,
      payload_of_not_flagged hends, List.length_singleton]
    rintro ⟨hroom, hlt⟩
    exact absurd (htop hroom) (Nat.not_le_of_lt hlt)
  | more room b row hflagged hrow ih =>
    rw [List.cons_append, decodeWithin, if_neg fun htop ↦ Nat.ne_of_gt hrow.room_pos htop.1,
      if_neg (Nat.not_lt_of_le hflagged), ih, value_cons, List.length_cons]
    rfl

theorem exists_isRow_of_decodeWithin (h : decodeWithin room bytes = .ok (n, len)) :
    ∃ row rest, bytes = row ++ rest ∧ row.length = len ∧ IsRow room row ∧ value row = n := by
  induction room generalizing bytes n len with
  | zero => exact nomatch h
  | succ room ih =>
    rcases bytes with _ | ⟨b, bytes⟩
    · exact nomatch h
    rw [decodeWithin] at h
    split at h
    · cases h
    · next htop =>
      split at h
      · next hb =>
        have hends : ¬ IsFlagged b := Nat.not_le_of_lt hb
        obtain ⟨rfl, rfl⟩ := Prod.mk.inj (Except.ok.inj h)
        refine ⟨[b], bytes, rfl, rfl, isRow_singleton.mpr ⟨hends, fun hroom ↦ ?_⟩, ?_⟩
        · exact Nat.le_of_not_lt fun hlt ↦ htop ⟨hroom, hlt⟩
        · rw [value_singleton, payload_of_not_flagged hends]
      · next hb =>
        split at h
        · next m k hrest =>
          obtain ⟨rfl, rfl⟩ := Prod.mk.inj (Except.ok.inj h)
          obtain ⟨row, rest, rfl, hlen, hrow, hvalue⟩ := ih hrest
          refine ⟨b :: row, rest, rfl, congrArg Nat.succ hlen, ?_, ?_⟩
          · exact (isRow_cons hrow.ne_nil).mpr ⟨Nat.le_of_not_lt hb, hrow⟩
          · rw [value_cons, hvalue]
            rfl
        · cases h

/-! ## One row for each number and length -/

theorem value_lt_pow (row : List UInt8) : value row < 128 ^ row.length := by
  have hdigits : ∀ d ∈ row.map payload, d < 128 := List.forall_mem_map.mpr fun b _ ↦ payload_lt b
  have hlt := Nat.ofDigits_lt_base_pow_length (by decide) hdigits
  rw [List.length_map] at hlt
  exact hlt

/-- The one binary digit in the last of all groups keeps the number in its range. -/
theorem IsRow.value_lt (h : IsRow room row) : 64 * value row < 128 ^ room := by
  induction h using IsRow.induct with
  | single room b _ htop =>
    rw [value_singleton, Nat.pow_succ]
    rcases Nat.eq_zero_or_pos room with rfl | hroom
    · have := htop rfl
      omega
    · have hlt := payload_lt b
      have hpow : 128 ^ 1 ≤ 128 ^ room := Nat.pow_le_pow_right (by decide) hroom
      omega
  | more room b row _ hrow ih =>
    obtain ⟨room, rfl⟩ := Nat.exists_eq_succ_of_ne_zero (Nat.ne_of_gt hrow.room_pos)
    have hlt := payload_lt b
    rw [Nat.pow_succ] at ih
    rw [value_cons, Nat.pow_succ, Nat.pow_succ]
    omega

theorem IsRow.eq_groups (h : IsRow room row) : row = groups row.length (value row) := by
  induction h using IsRow.induct with
  | single room b hends _ =>
    rw [List.length_singleton, groups, value_singleton, payload_of_not_flagged hends,
      Nat.mod_eq_of_lt (Nat.lt_of_not_le hends), UInt8.ofNat_toNat]
  | more room b row hflagged hrow ih =>
    obtain ⟨len, hlen⟩ := Nat.exists_eq_succ_of_ne_zero (Nat.ne_of_gt hrow.length_pos)
    have hlow : (payload b + 128 * value row) % 128 + 128 = b.toNat := by
      rw [Nat.add_mul_mod_self_left, Nat.mod_eq_of_lt (payload_lt b), payload_of_flagged hflagged]
    have hhigh : (payload b + 128 * value row) / 128 = value row := by
      have := payload_lt b
      omega
    rw [hlen] at ih
    rw [List.length_cons, hlen, value_cons, groups, hlow, hhigh, UInt8.ofNat_toNat, ← ih]

theorem size_le_of_lt_pow (hpos : 0 < len) (h : n < 128 ^ len) : size n ≤ len := by
  rw [size]
  rcases Nat.eq_zero_or_pos n with rfl | hn
  · exact hpos
  · rw [show (128 : Nat) = 2 ^ 7 from rfl, ← Nat.pow_mul] at h
    have hlog := (Nat.log2_lt (Nat.ne_of_gt hn)).mpr h
    omega

end Base128

end Adjacency
