import Adjacency.Proofs.PairBlock.Values
import Adjacency.Proofs.RunLength.Frame
import Adjacency.Proofs.RunLength.Reading
import Adjacency.Proofs.Runs

/-!
# Reading a block

A block holds a list of pairs if both its buffers are in a read pass over the values of that list
(`Loaded`). Where the cursors are does not matter, because every read of the block begins with a
rewind of both buffers. Behind the preamble the values still to come are the steps through the pairs
still to come (`Coming`), and following the steps gives the pairs back.
-/

namespace Adjacency

namespace PairBlock

open RunLength (Buffer)

variable {k : PairBlock} {ps : List Pair} {rest₁ rest₂ : List Int64}

/-! ## Calls on one buffer -/

theorem on_primary {α : Type} (k : PairBlock) (call : Buffer → Outcome Buffer α) :
    k.on .primary call = (call k.primary).onto fun b ↦ { k with primary := b } := rfl

theorem on_secondary {α : Type} (k : PairBlock) (call : Buffer → Outcome Buffer α) :
    k.on .secondary call = (call k.secondary).onto fun b ↦ { k with secondary := b } := rfl

/-! ## What a block holds -/

/-- Both buffers are in a read pass over the values of `ps`, of which the given rests are still to
come. -/
structure Replays (k : PairBlock) (ps : List Pair) (rest₁ rest₂ : List Int64) : Prop where
  primary : k.primary.Replaying (primaryValues ps) rest₁
  secondary : k.secondary.Replaying (secondaryValues ps) rest₂
  signed : k.secondary.signedness = .signed
  count_eq : k.count = ps.length
  last_eq : k.lastPrimary = lastOf ps
  length_le : ps.length ≤ Word.signedMax

/-- The block holds the pairs `ps`. -/
def Loaded (k : PairBlock) (ps : List Pair) : Prop := ∃ rest₁ rest₂, k.Replays ps rest₁ rest₂

theorem Replays.readPrimary {v : Int64} (h : k.Replays ps (v :: rest₁) rest₂) :
    ∃ c : PairBlock, k.on .primary Buffer.read = .done c v ∧ c.Replays ps rest₁ rest₂ := by
  obtain ⟨b, hread, hnext⟩ := h.primary.read_cons
  refine ⟨{ k with primary := b }, ?_, ⟨hnext, h.secondary, h.signed, h.count_eq, h.last_eq,
    h.length_le⟩⟩
  rw [on_primary, hread]
  rfl

theorem Replays.readSecondary {v : Int64} (h : k.Replays ps rest₁ (v :: rest₂)) :
    ∃ c : PairBlock, k.on .secondary Buffer.read = .done c v ∧ c.Replays ps rest₁ rest₂ := by
  obtain ⟨b, hread, hnext⟩ := h.secondary.read_cons
  refine ⟨{ k with secondary := b }, ?_, ⟨h.primary, hnext, ?_, h.count_eq, h.last_eq,
    h.length_le⟩⟩
  · rw [on_secondary, hread]
    rfl
  · have hkept := Buffer.kept_read k.secondary
    rw [hread] at hkept
    exact hkept.signedness.trans h.signed

theorem Replays.rewindPrimary (h : k.Replays ps rest₁ rest₂) :
    ∃ c : PairBlock, k.on .primary Buffer.rewind = .done c () ∧
      c.Replays ps (primaryValues ps) rest₂ := by
  have hrewind : k.primary.rewind = .done k.primary.atStart () := if_pos h.primary.mode
  have hagain := h.primary.rewind.2
  rw [hrewind] at hagain
  refine ⟨{ k with primary := k.primary.atStart }, ?_, ⟨hagain, h.secondary, h.signed, h.count_eq,
    h.last_eq, h.length_le⟩⟩
  rw [on_primary, hrewind]
  rfl

theorem Replays.rewindSecondary (h : k.Replays ps rest₁ rest₂) :
    ∃ c : PairBlock, k.on .secondary Buffer.rewind = .done c () ∧
      c.Replays ps rest₁ (secondaryValues ps) := by
  have hrewind : k.secondary.rewind = .done k.secondary.atStart () := if_pos h.secondary.mode
  have hagain := h.secondary.rewind.2
  rw [hrewind] at hagain
  refine ⟨{ k with secondary := k.secondary.atStart }, ?_, ⟨h.primary, hagain, h.signed, h.count_eq,
    h.last_eq, h.length_le⟩⟩
  rw [on_secondary, hrewind]
  rfl

/-- **A read of the block begins in front of the first pair,** wherever the cursors were. -/
theorem Loaded.startReading (h : k.Loaded ps) :
    ∃ c : PairBlock, k.startReading = .done c ps.length ∧
      c.Replays ps ((Pair.steps none ps).map Step.primary) (secondaryValues ps) := by
  obtain ⟨rest₁, rest₂, h⟩ := h
  obtain ⟨c₁, hcall₁, h₁⟩ := h.rewindPrimary
  obtain ⟨c₂, hcall₂, h₂⟩ := h₁.rewindSecondary
  -- The preamble: the last primary id, which is not used, and the length.
  obtain ⟨c₃, hcall₃, h₃⟩ := h₂.readPrimary
  obtain ⟨c₄, hcall₄, h₄⟩ := h₃.readPrimary
  have hcount : (Int64.ofNat ps.length).toInt = ps.length := ofNat_length_toInt h.length_le
  have hnonneg : ¬ Int64.ofNat ps.length < 0 := by
    rw [Int64.not_lt, Int64.le_iff_toInt_le, hcount]
    exact Int.natCast_nonneg _
  refine ⟨c₄, ?_, h₄⟩
  rw [PairBlock.startReading, if_neg (by rw [h.primary.mode]; exact nofun), hcall₁,
    Outcome.done_andThen, hcall₂, Outcome.done_andThen, hcall₃, Outcome.done_andThen, hcall₄,
    Outcome.done_andThen, if_neg hnonneg, hcount, Int.toNat_natCast]

/-! ## Pair by pair -/

theorem Replays.readStep {s : Step} (h : k.Replays ps (s.primary :: rest₁) (s.offset :: rest₂)) :
    ∃ c : PairBlock, k.readStep = .done c s ∧ c.Replays ps rest₁ rest₂ := by
  obtain ⟨c₁, hcall₁, h₁⟩ := h.readPrimary
  obtain ⟨c₂, hcall₂, h₂⟩ := h₁.readSecondary
  refine ⟨c₂, ?_, h₂⟩
  rw [PairBlock.readStep, hcall₁, Outcome.done_andThen, hcall₂, Outcome.done_andThen]

/-- Of the pairs `ps` of the block, `todo` are still to come. -/
def Replay.Coming (r : Replay) (ps todo : List Pair) : Prop :=
  r.block.Replays ps ((Pair.steps r.prev todo).map Step.primary)
    ((Pair.steps r.prev todo).map Step.offset)

/-- **The next pair is found again** from its step and the pair before it. -/
theorem Replay.Coming.next {r : Replay} {p : Pair} {todo : List Pair}
    (h : r.Coming ps (p :: todo)) :
    r.next.result = .ok p ∧ r.next.state.Coming ps todo := by
  obtain ⟨c, hstep, hc⟩ := Replays.readStep h
  have hnext : r.next = ⟨.ok p, ⟨c, some p⟩, []⟩ := by
    rw [Replay.next, hstep, Outcome.done]
    dsimp only
    rw [Pair.follow_stepFrom]
  rw [hnext]
  exact ⟨rfl, hc⟩

/-! ## Reading all pairs -/

/-- **All pairs are read into a target that is long enough.** The rest of the target is left as it
was. -/
theorem Loaded.get_of_le {target : List Pair} (h : k.Loaded ps) (hle : ps.length ≤ target.length) :
    (k.get target).result = .ok ps.length ∧
      (k.get target).state.2 = ps ++ target.drop ps.length ∧
      (k.get target).state.1.Loaded ps := by
  obtain ⟨c, hstart, hc⟩ := h.startReading
  have hcoming : (Replay.mk c none).Coming ps ps := hc
  obtain ⟨hpairs, hnone, hend⟩ :=
    Outcome.gather_eq (P := fun (r : Replay) ↦ r.Coming ps) (fun _ _ _ ↦ Replay.Coming.next) hcoming
  rw [get, hstart, Outcome.done]
  dsimp only
  rw [if_neg (Nat.not_lt.mpr hle), hnone, hpairs]
  exact ⟨rfl, rfl, _, _, hend⟩

theorem Loaded.get_of_lt {target : List Pair} (h : k.Loaded ps) (hlt : target.length < ps.length) :
    ∃ c : PairBlock,
      k.get target = .fail (c, target) (.decode .pairCountExceedsTarget) [] ∧ c.Loaded ps := by
  obtain ⟨c, hstart, hc⟩ := h.startReading
  refine ⟨c, ?_, _, _, hc⟩
  rw [get, hstart, Outcome.done]
  dsimp only
  rw [if_pos hlt]

theorem Loaded.toList (h : k.Loaded ps) :
    k.toList.result = .ok ps ∧ k.toList.state.Loaded ps := by
  have hlen : ps.length = (List.replicate k.count (default : Pair)).length := by
    obtain ⟨_, _, hreplays⟩ := h
    rw [List.length_replicate, hreplays.count_eq]
  obtain ⟨hresult, htarget, hloaded⟩ := h.get_of_le (Nat.le_of_eq hlen)
  rw [hlen, List.drop_length, List.append_nil] at htarget
  rw [PairBlock.toList]
  rcases hget : k.get (List.replicate k.count default) with ⟨result, ⟨c, target⟩, events⟩
  rw [hget] at hresult htarget hloaded
  obtain rfl : result = .ok ps.length := hresult
  obtain rfl : target = ps := htarget
  exact ⟨congrArg _ List.take_length, hloaded⟩

/-! ## Looking up one pair -/

/-- **A lookup finds what a scan of all pairs finds,** unless it can tell without reading. -/
theorem Loaded.lookup (h : k.Loaded ps) (v : Int64) :
    (k.lookup v).result = .ok (if k.count = 0 ∨ k.lastPrimary < v then none
        else (ps.findSome? (verdict v)).join) ∧
      (k.lookup v).state.Loaded ps := by
  rw [PairBlock.lookup]
  by_cases hskip : k.count = 0 ∨ k.lastPrimary < v
  · rw [if_pos hskip, if_pos hskip]
    exact ⟨rfl, h⟩
  · obtain ⟨c, hstart, hc⟩ := h.startReading
    have hcoming : (Replay.mk c none).Coming ps ps := hc
    obtain ⟨hfound, todo, hend⟩ := Outcome.seek_eq (verdict v)
      (P := fun (r : Replay) ↦ r.Coming ps) (fun _ _ _ ↦ Replay.Coming.next) hcoming
    rw [if_neg hskip, if_neg hskip, hstart, Outcome.done_andThen]
    rcases hseek : Outcome.seek Replay.next (verdict v) ps.length ⟨c, none⟩ with
      ⟨result, r, events⟩
    rw [hseek] at hfound hend
    obtain rfl : result = .ok (ps.findSome? (verdict v)) := hfound
    exact ⟨rfl, _, _, hend⟩

end PairBlock

end Adjacency
