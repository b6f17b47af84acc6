import Adjacency.Proofs.Bytes.Standing
import Adjacency.Proofs.Codec.Size

/-!
# Codes inside buffers

What `decode_code` says of lists is carried over to buffers: a code that stands in a buffer in front
of the reader's stop is read back as its integer (`get_of_standsAt`), and so is a row of codes
(`getAll_of_standsAt`). A code is put in place exactly if it ends before the writer's stop
(`put_of_le`, `put_of_lt`).
-/

namespace Adjacency

namespace Codec

open Bytes (StandsAt overwrite)

variable (c : Codec) {s : Signedness} {v : Int} {bytes : Array UInt8} {off stop : Nat}

/-! ## One code -/

theorem put_of_le (h : off + c.size s v ≤ stop) :
    c.put s bytes off stop v = (overwrite bytes off (c.code s v), .ok (c.size s v)) := by
  rw [put, if_pos h, sized_eq_code]

theorem put_of_lt (h : stop < off + c.size s v) :
    c.put s bytes off stop v
      = (bytes, .error (.capacityExceeded c.destination stop (off + c.size s v))) := by
  rw [put, if_neg (by omega)]

theorem get_of_standsAt (h : StandsAt bytes off (c.code s v)) (hv : s.Admits v)
    (hstop : off + c.size s v ≤ stop) : c.get s bytes off stop = .ok (v, c.size s v) := by
  have hroom := c.size_le_maxLen hv
  rw [← length_code] at hstop hroom
  obtain ⟨rest, hrest⟩ := h.window_eq hstop hroom
  rw [get, hrest, decode_code c hv]

theorem getUInt64_of_standsAt {v : UInt64} (h : StandsAt bytes off (c.code .unsigned v.toNat))
    (hstop : off + c.sizeUInt64 v ≤ stop) :
    c.getUInt64 bytes off stop = .ok (v, c.sizeUInt64 v) := by
  rw [getUInt64, c.get_of_standsAt h (Signedness.admits_toNat v) hstop]
  simp [sizeUInt64]

theorem getInt64_of_standsAt {v : Int64} (h : StandsAt bytes off (c.code .signed v.toInt))
    (hstop : off + c.sizeInt64 v ≤ stop) :
    c.getInt64 bytes off stop = .ok (v, c.sizeInt64 v) := by
  rw [getInt64, c.get_of_standsAt h (Signedness.admits_toInt v) hstop]
  simp [sizeInt64]

/-! ## Rows of codes -/

/-- The codes of integers, one behind the other. -/
def codes (s : Signedness) (vs : List Int) : List UInt8 := vs.flatMap (c.code s)

@[simp] theorem codes_nil (s : Signedness) : c.codes s [] = [] := rfl

@[simp] theorem codes_cons (s : Signedness) (v : Int) (vs : List Int) :
    c.codes s (v :: vs) = c.code s v ++ c.codes s vs := rfl

@[simp] theorem codes_append (s : Signedness) (vs ws : List Int) :
    c.codes s (vs ++ ws) = c.codes s vs ++ c.codes s ws := List.flatMap_append

theorem codes_singleton (s : Signedness) (v : Int) : c.codes s [v] = c.code s v := by
  rw [codes_cons, codes_nil, List.append_nil]

theorem length_le_length_codes (s : Signedness) (vs : List Int) :
    vs.length ≤ (c.codes s vs).length := by
  induction vs with
  | nil => exact Nat.le_refl _
  | cons v vs ih =>
    have hpos := c.size_pos s v
    rw [codes_cons, List.length_cons, List.length_append, length_code]
    omega

theorem getWithin_of_standsAt {vs : List Int} {room : Nat} (hvs : ∀ v ∈ vs, s.Admits v)
    (h : StandsAt bytes off (c.codes s vs)) (hstop : stop = off + (c.codes s vs).length)
    (hroom : vs.length ≤ room) : c.getWithin s bytes room off stop = .ok vs := by
  induction vs generalizing off room with
  | nil =>
    cases room with
    | zero => rfl
    | succ room =>
      rw [getWithin, if_pos (by rw [hstop, codes_nil, List.length_nil]; omega)]
  | cons v vs ih =>
    have hpos := c.size_pos s v
    rw [codes_cons, Bytes.standsAt_append, length_code] at h
    rw [codes_cons, List.length_append, length_code] at hstop
    obtain ⟨hcode, hrest⟩ := h
    cases room with
    | zero => exact absurd hroom (by simp)
    | succ room =>
      have hfirst : c.get s bytes off stop = .ok (v, c.size s v) :=
        c.get_of_standsAt hcode (hvs v List.mem_cons_self) (by omega)
      have hmore := ih (fun w hw ↦ hvs w (List.mem_cons_of_mem v hw)) hrest (by omega)
        (Nat.le_of_succ_le_succ hroom)
      rw [getWithin, if_neg (by omega), hfirst]
      dsimp only
      rw [hmore]

/-- **A row of codes reads back.** -/
theorem getAll_of_standsAt {vs : List Int} (hvs : ∀ v ∈ vs, s.Admits v)
    (h : StandsAt bytes off (c.codes s vs)) :
    c.getAll s bytes off (off + (c.codes s vs).length) = .ok vs := by
  have hroom := c.length_le_length_codes s vs
  exact c.getWithin_of_standsAt hvs h rfl (by omega)

end Codec

end Adjacency
