import Adjacency.PairBlock.Call
import Adjacency.Proofs.RunLength.Frame
import Adjacency.Proofs.Runs

/-!
# What calls on a block leave alone

A block calls its two buffers and nothing else, so what no call on a buffer changes, no call on a
block does: the codec, the signedness and the length of either buffer are those it was made with.
-/

namespace Adjacency

namespace PairBlock

open RunLength (Buffer)

/-- The buffers of the two blocks write the same numbers in the same way, and are equally long. -/
structure Kept (k l : PairBlock) : Prop where
  primary : k.primary.Kept l.primary
  secondary : k.secondary.Kept l.secondary

variable {k c d : PairBlock}

theorem Kept.refl (k : PairBlock) : k.Kept k := ⟨.refl k.primary, .refl k.secondary⟩

theorem Kept.symm (h : k.Kept c) : c.Kept k := ⟨h.primary.symm, h.secondary.symm⟩

theorem Kept.trans (hkc : k.Kept c) (hcd : c.Kept d) : k.Kept d :=
  ⟨hkc.primary.trans hcd.primary, hkc.secondary.trans hcd.secondary⟩

theorem Kept.on {α : Type} {call : Buffer → Outcome Buffer α}
    (hcall : ∀ b : Buffer, b.Kept (call b).state) (h : k.Kept c) (side : Side) :
    (c.on side call).Ends k.Kept k.Kept := by
  cases side with
  | primary => exact .of_state ⟨h.primary.trans (hcall c.primary), h.secondary⟩
  | secondary => exact .of_state ⟨h.primary, h.secondary.trans (hcall c.secondary)⟩

/-! ## Writing -/

theorem kept_startWriting (b : Buffer) : b.Kept (startWriting b).state := by
  rw [startWriting]
  split
  · exact Buffer.kept_toggle b
  · exact Buffer.Kept.refl b

theorem Kept.beginWriting (h : k.Kept c) : c.beginWriting.Ends k.Kept k.Kept :=
  (h.on kept_startWriting .primary).andThen fun _ _ hc ↦ hc.on kept_startWriting .secondary

theorem Kept.write (h : k.Kept c) (sorted : List Pair) : (c.write sorted).Ends k.Kept k.Kept := by
  have hstart : k.Kept ⟨c.primary, c.secondary, 0, lastOf sorted⟩ := ⟨h.primary, h.secondary⟩
  rw [PairBlock.write]
  split
  · exact .of_state hstart
  · refine (Outcome.run_ends (P := fun c _ ↦ k.Kept c) ?_ hstart).andThen ?_
    · rintro c ⟨side, v⟩ _ hc
      exact hc.on (fun b ↦ Buffer.kept_store b v) side
    · intro c _ hc
      refine ((hc.on Buffer.kept_toggle .primary).andThen fun _ _ hc ↦
        hc.on Buffer.kept_toggle .secondary).andThen ?_
      intro c _ hc
      exact .of_state ⟨hc.primary, hc.secondary⟩

theorem Kept.set (h : k.Kept c) (pairs : List Pair) : (c.set pairs).Ends k.Kept k.Kept := by
  rw [PairBlock.set]
  split
  · exact .of_state h
  · exact h.beginWriting.andThen fun _ _ hc ↦ hc.write _

/-! ## Reading -/

theorem Kept.startReading (h : k.Kept c) : c.startReading.Ends k.Kept k.Kept := by
  rw [PairBlock.startReading]
  split
  · exact .of_state h
  · refine (h.on Buffer.kept_rewind .primary).andThen fun _ _ hc ↦
      (hc.on Buffer.kept_rewind .secondary).andThen fun _ _ hc ↦
      (hc.on Buffer.kept_read .primary).andThen fun _ _ hc ↦
      (hc.on Buffer.kept_read .primary).andThen ?_
    intro c count hc
    split
    · exact .of_state hc
    · exact .of_state hc

theorem Kept.next {r : Replay} (h : k.Kept r.block) : k.Kept r.next.state.block := by
  have hstep : r.block.readStep.Ends k.Kept k.Kept :=
    (h.on Buffer.kept_read .primary).andThen fun _ _ hc ↦
    (hc.on Buffer.kept_read .secondary).andThen fun _ _ hc ↦ .of_state hc
  have hstate := hstep.state
  rw [Replay.next]
  rcases heq : r.block.readStep with ⟨result, d, events⟩
  rw [heq] at hstate
  cases result with
  | error e => exact hstate
  | ok step => exact hstate

theorem Kept.get (h : k.Kept c) (target : List Pair) : k.Kept (c.get target).state.1 := by
  have hstart := h.startReading.state
  rw [PairBlock.get]
  rcases heq : c.startReading with ⟨result, d, events⟩
  rw [heq] at hstart
  cases result with
  | error e => exact hstart
  | ok count =>
    dsimp only
    split
    · exact hstart
    · have hgather := Outcome.gather_state (P := fun r : Replay ↦ k.Kept r.block)
        (fun _ ↦ Kept.next) (s := ⟨d, none⟩) hstart count
      split
      · exact hgather
      · exact hgather

theorem Kept.toList (h : k.Kept c) : k.Kept c.toList.state := by
  have hget := h.get (List.replicate c.count default)
  rw [PairBlock.toList]
  rcases heq : c.get (List.replicate c.count default) with ⟨result, ⟨d, target⟩, events⟩
  rw [heq] at hget
  cases result with
  | error e => exact hget
  | ok n => exact hget

theorem Kept.lookup (h : k.Kept c) (primary : Int64) : (c.lookup primary).Ends k.Kept k.Kept := by
  rw [PairBlock.lookup]
  split
  · exact .of_state h
  · refine h.startReading.andThen ?_
    intro d count hd
    have hseek := Outcome.seek_state (verdict primary) (P := fun r : Replay ↦ k.Kept r.block)
      (fun _ ↦ Kept.next) (s := ⟨d, none⟩) hd count
    rcases heq : Outcome.seek Replay.next (verdict primary) count ⟨d, none⟩ with
      ⟨result, r, events⟩
    rw [heq] at hseek
    cases result with
    | error e => exact .of_state hseek
    | ok found => exact .of_state hseek

/-- **No call on a block changes how its buffers write their numbers, or their length.** -/
theorem Kept.step (h : k.Kept c) (call : Call) : k.Kept (c.step call).state := by
  cases call with
  | set pairs => exact (h.set pairs).state
  | get target =>
    rw [PairBlock.step, state_fill]
    exact h.get target
  | toList => exact h.toList
  | lookup primary => exact (h.lookup primary).state

end PairBlock

end Adjacency
