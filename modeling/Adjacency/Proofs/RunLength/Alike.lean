import Adjacency.Proofs.RunLength.Writing
import Adjacency.Proofs.Runs

/-!
# Buffers that write alike

What a buffer writes is never looked at while it writes. So two buffers of the same make and length
whose cursors and pending runs agree accept the same values and fail for the same reasons, whatever
bytes earlier passes left in them (`Alike.store`, `Alike.toggle`). A buffer at the beginning of a
write pass is thus as good as a fresh one (`Accepted.alike`).
-/

namespace Adjacency

namespace RunLength

namespace Buffer

/-- The two buffers write the same numbers at the same place, into as many bytes, and the same run
is pending. -/
structure Alike (b c : Buffer) : Prop where
  codec : c.codec = b.codec
  signedness : c.signedness = b.signedness
  size : c.bytes.size = b.bytes.size
  mode : c.mode = b.mode
  pos : c.pos = b.pos
  pending : c.pending = b.pending
  last : 0 < b.pending → c.last = b.last

variable {b c : Buffer}

/-! ## Writing numbers -/

theorem Alike.writeRaw (h : b.Alike c) (raw : Int) :
    (b.writeRaw raw).Agree (c.writeRaw raw) Alike := by
  rcases Nat.lt_or_ge b.bytes.size (b.pos + b.codec.size b.signedness raw) with hfull | hroom
  · have hfull' : c.bytes.size < c.pos + c.codec.size c.signedness raw := by
      rw [h.size, h.pos, h.codec, h.signedness]
      exact hfull
    rw [Buffer.writeRaw, b.codec.put_of_lt hfull, Buffer.writeRaw, c.codec.put_of_lt hfull']
    refine ⟨?_, h⟩
    show Except.error _ = Except.error _
    rw [h.size, h.pos, h.codec, h.signedness]
  · have hroom' : c.pos + c.codec.size c.signedness raw ≤ c.bytes.size := by
      rw [h.size, h.pos, h.codec, h.signedness]
      exact hroom
    rw [writeRaw_of_le hroom, writeRaw_of_le hroom']
    refine ⟨rfl, h.codec, h.signedness, ?_, h.mode, ?_, h.pending, h.last⟩
    · show (Bytes.overwrite _ _ _).size = (Bytes.overwrite _ _ _).size
      rw [Bytes.size_overwrite, Bytes.size_overwrite, h.size]
    · show c.pos + _ = b.pos + _
      rw [h.pos, h.codec, h.signedness]

theorem Alike.writeRaws (h : b.Alike c) (raws : List Int) :
    (b.writeRaws raws).Agree (c.writeRaws raws) Alike := by
  induction raws generalizing b c with
  | nil => exact ⟨rfl, h⟩
  | cons raw raws ih => exact (h.writeRaw raw).andThen fun _ _ _ hnext ↦ ih hnext

/-! ## Calls in a write pass -/

theorem Alike.flush (h : b.Alike c) : b.flush.Agree c.flush Alike := by
  by_cases hidle : b.mode = .read ∨ b.pending = 0
  · rw [Buffer.flush, if_pos hidle, Buffer.flush, if_pos (by rw [h.mode, h.pending]; exact hidle)]
    exact ⟨rfl, h⟩
  · have hpending : 0 < b.pending := Nat.pos_of_ne_zero fun h0 ↦ hidle (Or.inr h0)
    rw [Buffer.flush, if_neg hidle, Buffer.flush, if_neg (by rw [h.mode, h.pending]; exact hidle),
      h.last hpending, h.pending]
    cases rawsOfRun b.last b.pending with
    | error e => exact ⟨rfl, h⟩
    | ok raws =>
      have hwrite := h.writeRaws raws
      dsimp only
      rcases heq : b.writeRaws raws with ⟨result, b', events⟩
      rcases heq' : c.writeRaws raws with ⟨result', c', events'⟩
      rw [heq, heq'] at hwrite
      obtain ⟨rfl, hnext⟩ : result = result' ∧ b'.Alike c' := ⟨hwrite.result, hwrite.state⟩
      cases result with
      | ok u =>
        exact ⟨rfl, hnext.codec, hnext.signedness, hnext.size, hnext.mode, hnext.pos, rfl,
          fun hpos ↦ absurd hpos (Nat.lt_irrefl 0)⟩
      | error e =>
        -- Both cursors go back to where they were.
        exact ⟨rfl, hnext.codec, hnext.signedness, hnext.size, hnext.mode, h.pos, hnext.pending,
          hnext.last⟩

theorem Alike.store (h : b.Alike c) (v : Int64) : (b.store v).Agree (c.store v) Alike := by
  have hsame : (0 < c.pending ∧ v = c.last) ↔ (0 < b.pending ∧ v = b.last) := by
    rw [h.pending]
    exact and_congr_right fun hpos ↦ by rw [h.last hpos]
  rw [Buffer.store, Buffer.store, h.mode, h.signedness, h.pending]
  rw [h.pending] at hsame
  simp only [hsame]
  split
  · exact ⟨rfl, h⟩
  · split
    · exact ⟨rfl, h⟩
    · split
      · next hrun => exact ⟨rfl, h.codec, rfl, h.size, rfl, h.pos, rfl, fun _ ↦ h.last hrun.1⟩
      · refine h.flush.andThen ?_
        intro b' c' _ hnext
        exact ⟨rfl, hnext.codec, hnext.signedness, hnext.size, hnext.mode, hnext.pos, rfl,
          fun _ ↦ rfl⟩

theorem Alike.toggle (h : b.Alike c) : b.toggle.Agree c.toggle Alike := by
  rw [Buffer.toggle, Buffer.toggle, h.mode]
  cases b.mode with
  | write =>
    refine h.flush.andThen ?_
    intro b' c' _ hnext
    exact ⟨rfl, hnext.codec, hnext.signedness, hnext.size, rfl, rfl, rfl,
      fun hpos ↦ absurd hpos (Nat.lt_irrefl 0)⟩
  | read =>
    exact ⟨rfl, h.codec, h.signedness, h.size, rfl, rfl, rfl,
      fun hpos ↦ absurd hpos (Nat.lt_irrefl 0)⟩

/-! ## Beginning a pass -/

theorem Accepted.unwritten (h : b.Accepted []) : b.Writing [] ∧ b.pending = 0 := by
  obtain ⟨rs, hw, hempty⟩ := h
  obtain ⟨hvalues, hrun⟩ := List.nil_eq_append_iff.mp hempty
  refine ⟨?_, ?_⟩
  · cases rs with
    | nil => exact hw
    | cons r rs =>
      -- No run is empty.
      have hpos := (hw.valid r List.mem_cons_self).count_pos
      rw [← Streak.length_values] at hpos
      rw [Streak.valuesAll_cons, List.append_eq_nil_iff] at hvalues
      rw [hvalues.1] at hpos
      exact absurd hpos (Nat.lt_irrefl 0)
  · have hlen := congrArg List.length hrun
    rw [Streak.length_values] at hlen
    exact hlen

theorem Accepted.start (h : b.Accepted []) : b.pos = headerLen ∧ b.pending = 0 :=
  ⟨h.unwritten.1.pos_eq, h.unwritten.2⟩

/-- **At the beginning of a write pass a buffer writes like any other of its make and length.** -/
theorem Accepted.alike (hb : b.Accepted []) (hc : c.Accepted []) (hcodec : c.codec = b.codec)
    (hsignedness : c.signedness = b.signedness) (hsize : c.bytes.size = b.bytes.size) :
    b.Alike c where
  codec := hcodec
  signedness := hsignedness
  size := hsize
  mode := hc.mode.trans hb.mode.symm
  pos := hc.start.1.trans hb.start.1.symm
  pending := hc.start.2.trans hb.start.2.symm
  last := fun hpos ↦ absurd hpos (by rw [hb.start.2]; exact Nat.lt_irrefl 0)

end Buffer

end RunLength

end Adjacency
