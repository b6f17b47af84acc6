import Adjacency.Bytes.Window

/-!
# Where a list of bytes stands in a buffer

A writer lays a list over a buffer and a reader cuts one out again. Between the two stands the
statement that the list is there: `StandsAt` says it byte by byte, so it carries over to any buffer
that agrees on the bytes concerned. An overwrite puts its list in place (`standsAt_overwrite`) and
leaves every other byte alone (`getElem?_overwrite_of_outside`), and a window that begins where a
list stands begins with the list (`StandsAt.window_eq`).
-/

namespace Adjacency

namespace Bytes

/-- The list stands in the buffer from `off` on. -/
def StandsAt (bytes : Array UInt8) (off : Nat) (code : List UInt8) : Prop :=
  ∀ i, i < code.length → bytes[off + i]? = code[i]?

variable {bytes new : Array UInt8} {off : Nat} {code : List UInt8}

/-! ## Lists in place -/

@[simp] theorem standsAt_nil (bytes : Array UInt8) (off : Nat) : StandsAt bytes off [] := by
  intro i hi
  exact absurd hi (Nat.not_lt_zero i)

theorem standsAt_append {more : List UInt8} :
    StandsAt bytes off (code ++ more)
      ↔ StandsAt bytes off code ∧ StandsAt bytes (off + code.length) more := by
  constructor
  · intro h
    refine ⟨?_, ?_⟩
    · intro i hi
      rw [h i (by rw [List.length_append]; omega), List.getElem?_append_left hi]
    · intro i hi
      have hlt : code.length + i < (code ++ more).length := by rw [List.length_append]; omega
      rw [Nat.add_assoc, h _ hlt, List.getElem?_append_right (by omega), Nat.add_sub_cancel_left]
  · rintro ⟨hcode, hmore⟩ i hi
    rw [List.length_append] at hi
    by_cases hlt : i < code.length
    · rw [hcode i hlt, List.getElem?_append_left hlt]
    · rw [List.getElem?_append_right (by omega), ← hmore (i - code.length) (by omega)]
      congr 1
      omega

theorem StandsAt.congr (h : StandsAt bytes off code)
    (hsame : ∀ i, off ≤ i → i < off + code.length → new[i]? = bytes[i]?) :
    StandsAt new off code := by
  intro i hi
  rw [hsame (off + i) (by omega) (by omega), h i hi]

theorem standsAt_singleton {b : UInt8} : StandsAt bytes off [b] ↔ bytes[off]? = some b := by
  constructor
  · intro h
    exact h 0 Nat.zero_lt_one
  · intro h i hi
    obtain rfl : i = 0 := by rw [List.length_singleton] at hi; omega
    exact h

theorem standsAt_of_toList_eq (h : bytes.toList = code) : StandsAt bytes 0 code := by
  intro i _
  rw [← h, Array.getElem?_toList, Nat.zero_add]

/-! ## Overwriting -/

theorem getElem?_overwrite {i : Nat} :
    (overwrite bytes off code)[i]?
      = if off ≤ i ∧ i < off + code.length ∧ i < bytes.size then code[i - off]? else bytes[i]? := by
  induction code generalizing bytes off with
  | nil =>
    rw [overwrite, List.length_nil, if_neg (by omega)]
  | cons b code ih =>
    rw [overwrite, ih, Array.getElem?_setIfInBounds, Array.size_setIfInBounds, List.length_cons]
    by_cases hi : off = i
    · subst hi
      rw [if_neg (by omega), if_pos rfl, Nat.sub_self]
      by_cases hsize : off < bytes.size
      · rw [if_pos hsize, if_pos (by omega), List.getElem?_cons_zero]
      · rw [if_neg hsize, if_neg (by omega), Array.getElem?_eq_none (by omega)]
    · rw [if_neg hi]
      by_cases hin : off + 1 ≤ i ∧ i < off + 1 + code.length ∧ i < bytes.size
      · rw [if_pos hin, if_pos (by omega), show i - off = i - (off + 1) + 1 by omega,
          List.getElem?_cons_succ]
      · rw [if_neg hin, if_neg (by omega)]

theorem getElem?_overwrite_of_outside {i : Nat} (h : i < off ∨ off + code.length ≤ i) :
    (overwrite bytes off code)[i]? = bytes[i]? := by
  rw [getElem?_overwrite, if_neg (by omega)]

theorem standsAt_overwrite (h : off + code.length ≤ bytes.size) :
    StandsAt (overwrite bytes off code) off code := by
  intro i hi
  rw [getElem?_overwrite, if_pos (by omega), Nat.add_sub_cancel_left]

/-- A stretch of a buffer can be cut out, overwritten and laid back. -/
theorem overwrite_extract {len : Nat} (h : code.length ≤ len) :
    overwrite bytes off (overwrite (bytes.extract off (off + len)) 0 code).toList
      = overwrite bytes off code := by
  apply Array.ext_getElem?
  intro i
  rw [getElem?_overwrite, getElem?_overwrite, Array.length_toList, size_overwrite,
    Array.size_extract, Array.getElem?_toList, getElem?_overwrite, Array.size_extract,
    Array.getElem?_extract]
  by_cases hin : off ≤ i ∧ i < off + code.length ∧ i < bytes.size
  · rw [if_pos (by omega), if_pos (by omega), if_pos hin, Nat.sub_zero]
  · rw [if_neg hin]
    by_cases hslot : off ≤ i ∧ i < off + (min (off + len) bytes.size - off) ∧ i < bytes.size
    · rw [if_pos hslot, if_neg (by omega), if_pos (by omega), Nat.add_sub_cancel' hslot.1]
    · rw [if_neg hslot]

theorem overwrite_append (more : List UInt8) :
    overwrite (overwrite bytes off code) (off + code.length) more
      = overwrite bytes off (code ++ more) := by
  induction code generalizing bytes off with
  | nil => rfl
  | cons b code ih =>
    have hoff : off + (b :: code).length = off + 1 + code.length := by
      rw [List.length_cons]
      omega
    rw [List.cons_append, overwrite, overwrite, hoff, ih]

/-! ## Windows -/

theorem getElem?_window {src : Array UInt8} {off stop room i : Nat} :
    (window src off stop room)[i]?
      = if off + i < stop ∧ i < room then src[off + i]? else none := by
  rw [window, Array.getElem?_toList, Array.getElem?_extract]
  by_cases h : off + i < stop ∧ i < room
  · rw [if_pos h]
    by_cases hs : off + i < src.size
    · rw [if_pos (by omega)]
    · rw [if_neg (by omega), Array.getElem?_eq_none (by omega)]
  · rw [if_neg h, if_neg (by omega)]

theorem StandsAt.window_eq (h : StandsAt bytes off code) {stop room : Nat}
    (hstop : off + code.length ≤ stop) (hroom : code.length ≤ room) :
    ∃ rest, window bytes off stop room = code ++ rest := by
  refine ⟨(window bytes off stop room).drop code.length, ?_⟩
  apply List.ext_getElem?
  intro i
  by_cases hi : i < code.length
  · rw [List.getElem?_append_left hi, getElem?_window, if_pos (by omega), h i hi]
  · rw [List.getElem?_append_right (by omega), List.getElem?_drop]
    congr 1
    omega

end Bytes

end Adjacency
