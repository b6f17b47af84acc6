import Adjacency.Proofs.Codec.InPlace

/-!
# What becomes of an integer that is written in place

An integer is put into a buffer exactly if its code ends in front of the stop. Then its bytes change
and no others, and they are all that a reader needs: any buffer that agrees on them is read as that
integer, whatever it holds in front of them and behind. If the code would end further on, the buffer
stays as it was and the failure tells how far it would have reached.

`PutExactly` says this of one write, with the reader that belongs to it. It holds of every 64-bit
integer of either signedness, at every place of every buffer (`putExactly_words`).
-/

namespace Adjacency

namespace Codec

open Bytes (StandsAt overwrite standsAt_overwrite getElem?_overwrite_of_outside)

/-- The outcome of writing `v` at `off` into the bytes of `dst` before `stop`, if its code takes
`size` bytes and is read by `get`. -/
structure PutExactly {α : Type} (c : Codec)
    (get : Array UInt8 → (off stop : Nat) → Except Error (α × Nat)) (dst : Array UInt8)
    (off stop : Nat) (v : α) (size : Nat) (outcome : Array UInt8 × Except Error Nat) : Prop where
  isOk_iff : outcome.2.isOk = true ↔ off + size ≤ stop
  /-- The answer is the number of bytes written. -/
  answer : off + size ≤ stop → outcome.2 = .ok size
  size_le_maxLen : size ≤ c.maxLen
  size_eq : outcome.1.size = dst.size
  /-- No byte in front of the code changes, and none behind it. -/
  frame : ∀ i, i < off ∨ off + size ≤ i → outcome.1[i]? = dst[i]?
  /-- The bytes written read back, whatever follows them. -/
  reads : off + size ≤ stop → ∀ (src : Array UInt8) (stop' : Nat), off + size ≤ stop' →
    (∀ i, off ≤ i → i < off + size → src[i]? = outcome.1[i]?) → get src off stop' = .ok (v, size)
  /-- A code without room leaves the buffer alone. -/
  refused : stop < off + size →
    outcome = (dst, .error (.capacityExceeded c.destination stop (off + size)))

variable (c : Codec) {α : Type} {get : Array UInt8 → (off stop : Nat) → Except Error (α × Nat)}
  {dst : Array UInt8} {off stop : Nat} {s : Signedness} {v : Int} {w : α}

/-- **A write is exact if its reader reads the code** wherever it stands. -/
theorem putExactly_of_get (hv : s.Admits v) (hstop : stop ≤ dst.size)
    (hget : ∀ (src : Array UInt8) (stop' : Nat), StandsAt src off (c.code s v) →
      off + c.size s v ≤ stop' → get src off stop' = .ok (w, c.size s v)) :
    c.PutExactly get dst off stop w (c.size s v) (c.put s dst off stop v) := by
  rcases Nat.lt_or_ge stop (off + c.size s v) with hlt | hle
  · -- There is no room, so only the failure is left to be shown.
    rw [c.put_of_lt hlt]
    refine ⟨iff_of_false nofun (Nat.not_le_of_lt hlt), ?_, c.size_le_maxLen hv, rfl, fun _ _ ↦ rfl,
      ?_, fun _ ↦ rfl⟩
    · exact fun hle ↦ absurd hlt (Nat.not_lt_of_le hle)
    · exact fun hle ↦ absurd hlt (Nat.not_lt_of_le hle)
  · rw [c.put_of_le hle]
    have hin : StandsAt (overwrite dst off (c.code s v)) off (c.code s v) :=
      standsAt_overwrite (by rw [length_code]; omega)
    refine ⟨iff_of_true rfl hle, fun _ ↦ rfl, c.size_le_maxLen hv, Bytes.size_overwrite _ _ _, ?_,
      ?_, ?_⟩
    · intro i hi
      exact getElem?_overwrite_of_outside (by rw [length_code]; exact hi)
    · intro _ src stop' hstop' hsame
      refine hget src stop' (hin.congr fun i hlo hhi ↦ hsame i hlo ?_) hstop'
      rw [length_code] at hhi
      exact hhi
    · exact fun hlt ↦ absurd hlt (Nat.not_lt_of_le hle)

/-- **A 64-bit integer is put into a buffer exactly if there is room for its code.** What is put
there reads back, whatever follows, and nothing else changes; what is refused changes nothing. -/
theorem putExactly_words (hstop : stop ≤ dst.size) (off : Nat) :
    (∀ v : UInt64, c.PutExactly c.getUInt64 dst off stop v (c.sizeUInt64 v)
        (c.putUInt64 dst off stop v)) ∧
      ∀ v : Int64, c.PutExactly c.getInt64 dst off stop v (c.sizeInt64 v)
        (c.putInt64 dst off stop v) := by
  refine ⟨fun v ↦ ?_, fun v ↦ ?_⟩
  · exact c.putExactly_of_get (Signedness.admits_toNat v) hstop
      fun _ _ hcode hstop' ↦ c.getUInt64_of_standsAt hcode hstop'
  · exact c.putExactly_of_get (Signedness.admits_toInt v) hstop
      fun _ _ hcode hstop' ↦ c.getInt64_of_standsAt hcode hstop'

/-- The least signed word takes all ten groups, whose last byte holds its lowest bit. -/
theorem putExactly_least :
    12 ≤ (Array.replicate 12 (255 : UInt8)).size ∧
      (base128.putInt64 (Array.replicate 12 255) 1 12 Int64.minValue).1.toList
        = [255, 255, 255, 255, 255, 255, 255, 255, 255, 255, 1, 255] ∧
      base128.PutExactly base128.getInt64 (Array.replicate 12 255) 1 12 Int64.minValue
        (base128.sizeInt64 Int64.minValue)
        (base128.putInt64 (Array.replicate 12 255) 1 12 Int64.minValue) := by
  have hsize : 12 ≤ (Array.replicate 12 (255 : UInt8)).size := by decide
  exact ⟨hsize, by decide +kernel, (putExactly_words base128 hsize 1).2 Int64.minValue⟩

end Codec

end Adjacency
