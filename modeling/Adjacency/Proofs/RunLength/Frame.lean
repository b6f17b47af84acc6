import Adjacency.RunLength.Call

/-!
# What calls on a buffer leave alone

The codec, the signedness and the length of a buffer are fixed when it is made. No call changes
them, whether it answers or fails.
-/

namespace Adjacency

namespace RunLength

namespace Buffer

/-- The two buffers write the same numbers in the same way, and are equally long. -/
structure Kept (b c : Buffer) : Prop where
  codec : c.codec = b.codec
  signedness : c.signedness = b.signedness
  size : c.bytes.size = b.bytes.size

variable {α β : Type} {b c d : Buffer}

theorem Kept.refl (b : Buffer) : b.Kept b := ⟨rfl, rfl, rfl⟩

theorem Kept.trans (hbc : b.Kept c) (hcd : c.Kept d) : b.Kept d :=
  ⟨hcd.codec.trans hbc.codec, hcd.signedness.trans hbc.signedness, hcd.size.trans hbc.size⟩

theorem Kept.symm (h : b.Kept c) : c.Kept b := ⟨h.codec.symm, h.signedness.symm, h.size.symm⟩

theorem Kept.andThen {o : Outcome Buffer α} {next : Buffer → α → Outcome Buffer β}
    (h : b.Kept o.state) (hnext : ∀ c a, b.Kept c → b.Kept (next c a).state) :
    b.Kept (o.andThen next).state := by
  rcases o with ⟨result, c, events⟩
  cases result with
  | error e => exact h
  | ok a => exact hnext c a h

/-! ## Writing -/

theorem kept_writeRaw (b : Buffer) (raw : Int) : b.Kept (b.writeRaw raw).state := by
  rw [writeRaw, Codec.put]
  by_cases h : b.pos + b.codec.size b.signedness raw ≤ b.bytes.size
  · rw [if_pos h]
    exact ⟨rfl, rfl, Bytes.size_overwrite _ _ _⟩
  · rw [if_neg h]
    exact Kept.refl b

theorem kept_writeRaws (b : Buffer) (raws : List Int) : b.Kept (b.writeRaws raws).state := by
  induction raws generalizing b with
  | nil => exact Kept.refl b
  | cons raw raws ih => exact (kept_writeRaw b raw).andThen fun c _ h ↦ h.trans (ih c)

theorem kept_flush (b : Buffer) : b.Kept b.flush.state := by
  rw [flush]
  split
  · exact Kept.refl b
  · split
    · exact Kept.refl b
    · next raws _ =>
      have h := kept_writeRaws b raws
      dsimp only
      rcases heq : b.writeRaws raws with ⟨result, c, events⟩
      rw [heq] at h
      cases result with
      | error e => exact ⟨h.codec, h.signedness, h.size⟩
      | ok u => exact ⟨h.codec, h.signedness, h.size⟩

theorem kept_store (b : Buffer) (v : Int64) : b.Kept (b.store v).state := by
  rw [store]
  split
  · exact Kept.refl b
  · split
    · exact Kept.refl b
    · split
      · exact ⟨rfl, rfl, rfl⟩
      · exact (kept_flush b).andThen fun c _ h ↦ ⟨h.codec, h.signedness, h.size⟩

theorem kept_toggle (b : Buffer) : b.Kept b.toggle.state := by
  rw [toggle]
  split
  · exact (kept_flush b).andThen fun c _ h ↦ ⟨h.codec, h.signedness, h.size⟩
  · exact ⟨rfl, rfl, rfl⟩

/-! ## Reading -/

theorem kept_rewind (b : Buffer) : b.Kept b.rewind.state := by
  rw [rewind]
  split
  · exact ⟨rfl, rfl, rfl⟩
  · exact Kept.refl b

theorem kept_readRaw (b : Buffer) : b.Kept b.readRaw.state := by
  rw [readRaw]
  split
  · exact Kept.refl b
  · split
    · exact Kept.refl b
    · split
      · exact Kept.refl b
      · exact ⟨rfl, rfl, rfl⟩

theorem kept_readBiased (b : Buffer) : b.Kept b.readBiased.state := by
  refine (kept_readRaw b).andThen ?_
  intro c raw h
  split
  · exact h
  · exact h

theorem kept_readRun (b : Buffer) : b.Kept b.readRun.state := by
  refine (kept_readRaw b).andThen ?_
  intro c raw h
  split
  · refine Kept.andThen (h.trans (kept_readBiased c)) ?_
    intro c count h
    split
    · exact h
    · refine Kept.andThen ⟨h.codec, h.signedness, h.size⟩ ?_
      intro c _ h
      exact Kept.andThen (h.trans (kept_readBiased c)) fun c v h ↦ ⟨h.codec, h.signedness, h.size⟩
  · exact ⟨h.codec, h.signedness, h.size⟩

theorem kept_read (b : Buffer) : b.Kept b.read.state := by
  rw [read]
  split
  · exact Kept.refl b
  · split
    · exact (kept_readRun b).andThen fun c _ h ↦ ⟨h.codec, h.signedness, h.size⟩
    · exact ⟨rfl, rfl, rfl⟩

theorem kept_step (b : Buffer) (c : Call) : b.Kept (b.step c).state := by
  cases c with
  | store v => exact kept_store b v
  | flush => exact kept_flush b
  | toggle => exact kept_toggle b
  | rewind => exact kept_rewind b
  | read => exact kept_read b

theorem kept_after (b : Buffer) (calls : List Call) : b.Kept (Outcome.after step b calls) := by
  induction calls generalizing b with
  | nil => exact Kept.refl b
  | cons c calls ih => exact (kept_step b c).trans (ih (b.step c).state)

end Buffer

end RunLength

end Adjacency
