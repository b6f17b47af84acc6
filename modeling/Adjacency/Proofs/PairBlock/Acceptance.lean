import Mathlib.Tactic.MkIffOfInductiveProp
import Adjacency.Proofs.PairBlock.Exactness
import Adjacency.Proofs.PairBlock.Refill
import Adjacency.Proofs.RunLength.Acceptance

/-!
# Which lists a block takes

The values of both buffers are stored in turn, so a buffer that is full may make itself known while
the other goes on, or not before the passes end. All the same, a block takes a list exactly if
either buffer takes its own values (`write_eq_ok_iff`). What a buffer takes is known from its values
alone: they must be admissible, and the bytes of their runs must find room. For ascending ids this
comes down to a few conditions on the list (`Storable`): of the primary ids only the last can be out
of range, for every difference is at most as large.
-/

namespace Adjacency

namespace PairBlock

open Pair (Ascending)
open RunLength (Admissible Buffer Preset Streak headerLen)

/-- A value that is neither the least nor the greatest. -/
def IsInner (v : Int64) : Prop := v ≠ Int64.minValue ∧ v ≠ Int64.maxValue

instance (v : Int64) : Decidable (IsInner v) :=
  inferInstanceAs (Decidable (v ≠ Int64.minValue ∧ v ≠ Int64.maxValue))

/-- A sorted list fits into two buffers with `room` bytes behind their headers. -/
@[mk_iff]
structure Storable (codec : Codec) (room : Nat) (ps : List Pair) : Prop where
  /-- The number of pairs is stored as well. No list in memory is as long as the bound. -/
  length_lt : ps.length < 2 ^ 63 - 1
  nonneg : ∀ p ∈ ps, 0 ≤ p.primary
  last_ne : lastOf ps ≠ Int64.maxValue
  first : ∀ p ∈ ps.head?, IsInner p.offset
  next : ps.IsChain fun p q ↦ IsInner (q.offset - p.offset)
  primary_le : Streak.costAll codec .unsigned (primaryValues ps) ≤ room
  secondary_le : Streak.costAll codec .signed (secondaryValues ps) ≤ room

instance (codec : Codec) (room : Nat) (ps : List Pair) : Decidable (Storable codec room ps) :=
  decidable_of_iff' _ (storable_iff codec room ps)

variable {k : PairBlock} {p : Pair} {ps pairs : List Pair}

/-! ## Either buffer on its own -/

/-- Both buffers take what is still to be stored in them. -/
def Takes (k : PairBlock) (values : List (Side × Int64)) : Prop :=
  k.primary.Takes (storedOn .primary values) ∧ k.secondary.Takes (storedOn .secondary values)

theorem takes_cons (k : PairBlock) (x : Side × Int64) (values : List (Side × Int64)) :
    k.Takes (x :: values) ↔ (k.on x.1 fun b ↦ b.store x.2).result = .ok () ∧
      (k.on x.1 fun b ↦ b.store x.2).state.Takes values := by
  rcases x with ⟨side, v⟩
  cases side with
  | primary =>
    rw [Takes, storedOn_cons_self, storedOn_cons_of_ne (by decide), Buffer.takes_cons, and_assoc]
    exact Iff.rfl
  | secondary =>
    rw [Takes, storedOn_cons_self, storedOn_cons_of_ne (by decide), Buffer.takes_cons,
      and_left_comm]
    exact Iff.rfl

theorem endWriting_eq_ok_iff : k.endWriting.result = .ok () ↔ k.Takes [] := by
  rw [endWriting, Outcome.result_andThen_eq_ok]
  exact and_congr Buffer.takes_nil.symm Buffer.takes_nil.symm

theorem write_eq_ok_iff : (k.write ps).result = .ok () ↔
    ps.length ≤ Word.signedMax ∧ k.primary.Takes (primaryValues ps) ∧
      k.secondary.Takes (secondaryValues ps) := by
  let start : PairBlock := ⟨k.primary, k.secondary, 0, lastOf ps⟩
  have htakes : start.Takes (script ps) ↔
      k.primary.Takes (primaryValues ps) ∧ k.secondary.Takes (secondaryValues ps) := by
    rw [Takes, storedOn_script_primary, storedOn_script_secondary]
  have hrun : start.Takes (script ps) ↔ (start.storeAll (script ps)).result = .ok () ∧
      (start.storeAll (script ps)).state.Takes [] := Outcome.run_iff takes_cons start (script ps)
  rw [← htakes, hrun, ← endWriting_eq_ok_iff, PairBlock.write]
  split
  · next hlong =>
    refine iff_of_false ?_ fun h ↦ absurd h.1 (Nat.not_le.mpr hlong)
    rintro ⟨⟩
  · next hlen =>
    rw [and_iff_right (Nat.le_of_not_lt hlen), Outcome.result_andThen_eq_ok,
      Outcome.result_andThen_eq_ok]
    exact and_congr_right' (and_iff_left rfl)

/-! ## Admissible values -/

/-- **Of the values for the primary buffer, two can be out of range,** the last primary id and the
number of pairs. No difference is greater than the last id. -/
theorem primaryValues_admissible_iff (h : Ascending ps) (hlen : ps.length ≤ Word.signedMax) :
    (∀ v ∈ primaryValues ps, Admissible .unsigned v) ↔
      lastOf ps ≠ Int64.maxValue ∧ ps.length < 2 ^ 63 - 1 := by
  have hlength : Int64.ofNat ps.length ≠ Int64.maxValue ↔ ps.length < 2 ^ 63 - 1 := by
    rw [← Int64.toInt_inj.ne, ofNat_length_toInt hlen, Int64.toInt_maxValue]
    rw [Word.signedMax] at hlen
    omega
  rw [← hlength]
  constructor
  · intro hall
    rw [primaryValues_eq, List.forall_mem_cons, List.forall_mem_cons] at hall
    exact ⟨hall.1.1, hall.2.1.1⟩
  · rintro ⟨hlast, hcount⟩ v hv
    refine ⟨?_, primaryValues_nonneg h.nonneg h.sorted hlen v hv⟩
    rw [primaryValues_eq, List.mem_cons, List.mem_cons] at hv
    rcases hv with rfl | rfl | hv
    · exact hlast
    · exact hcount
    · intro hmax
      exact hlast (Int64.le_antisymm (Int64.le_maxValue _) (hmax ▸ le_lastOf_of_mem h hv))

theorem admissible_signed_iff {v : Int64} : Admissible .signed v ↔ IsInner v := and_comm

theorem offsets_isInner_iff : (∀ v ∈ (Pair.steps (some p) ps).map Step.offset, IsInner v) ↔
    (p :: ps).IsChain fun p q ↦ IsInner (q.offset - p.offset) := by
  induction ps generalizing p with
  | nil => exact iff_of_true nofun (List.isChain_singleton p)
  | cons q ps ih =>
    rw [Pair.steps, List.map_cons, List.forall_mem_cons, ih, List.isChain_cons_cons]
    exact Iff.rfl

theorem secondaryValues_admissible_iff : (∀ v ∈ secondaryValues ps, Admissible .signed v) ↔
    (∀ p ∈ ps.head?, IsInner p.offset) ∧
      ps.IsChain fun p q ↦ IsInner (q.offset - p.offset) := by
  simp only [admissible_signed_iff, secondaryValues]
  cases ps with
  | nil =>
    refine iff_of_true (List.forall_mem_nil _) ⟨?_, List.isChain_nil⟩
    rintro p ⟨⟩
  | cons p ps =>
    rw [Pair.steps, List.map_cons, List.forall_mem_cons, offsets_isInner_iff]
    refine and_congr_left' ⟨?_, fun hall ↦ hall p rfl⟩
    rintro hp _ ⟨⟩
    exact hp

/-! ## Room -/

section

variable {size : Preset} {codec : Codec}

/-- What a buffer of one of the four sizes takes. The empty list costs nothing, so it needs no
condition of its own. -/
theorem takes_iff_of_preset {b : Buffer} {s : Signedness} {vs : List Int64} (hb : b.Accepted [])
    (hkept : (Buffer.ofPreset size codec s).Kept b) :
    b.Takes vs ↔ (∀ v ∈ vs, Admissible s v) ∧ (∀ r ∈ Streak.runs vs, r.count < 2 ^ 63 - 1) ∧
      Streak.costAll codec s vs ≤ size.byteSize - headerLen := by
  have hsize : b.bytes.size = size.byteSize := by
    rw [hkept.size, Buffer.ofPreset, Buffer.ofBytes, Preset.size_allocate]
  have hheader : headerLen ≤ size.byteSize := by cases size <;> decide
  have hroom : (vs = [] ∨ headerLen + Streak.costAll codec s vs ≤ size.byteSize) ↔
      Streak.costAll codec s vs ≤ size.byteSize - headerLen := by
    constructor
    · rintro (rfl | hcost)
      · exact Nat.zero_le _
      · omega
    · intro hcost
      exact Or.inr (by omega)
  rw [hb.takes_iff_fits.1, hkept.codec, hkept.signedness, hsize]
  exact and_congr_right' (and_congr_right' hroom)

theorem Vacant.takes_primary_iff (hk : k.Vacant) (hkept : (ofPreset size codec).Kept k)
    (h : Ascending ps) (hlen : ps.length ≤ Word.signedMax) :
    k.primary.Takes (primaryValues ps) ↔ (lastOf ps ≠ Int64.maxValue ∧ ps.length < 2 ^ 63 - 1) ∧
      Streak.costAll codec .unsigned (primaryValues ps) ≤ size.byteSize - headerLen := by
  rw [takes_iff_of_preset hk.primary hkept.primary, primaryValues_admissible_iff h hlen]
  refine and_congr_right fun hvalues ↦ and_iff_right ?_
  exact fun r hr ↦ count_lt_of_mem_runs h hvalues.2 hr

theorem Vacant.takes_secondary_iff (hk : k.Vacant) (hkept : (ofPreset size codec).Kept k)
    (hlen : ps.length < 2 ^ 63 - 1) :
    k.secondary.Takes (secondaryValues ps) ↔
      ((∀ p ∈ ps.head?, IsInner p.offset) ∧
        ps.IsChain fun p q ↦ IsInner (q.offset - p.offset)) ∧
      Streak.costAll codec .signed (secondaryValues ps) ≤ size.byteSize - headerLen := by
  rw [takes_iff_of_preset hk.secondary hkept.secondary, secondaryValues_admissible_iff]
  refine and_congr_right' (and_iff_right ?_)
  intro r hr
  have hle := (Streak.count_le_of_mem_runs hr).trans List.count_le_length
  rw [secondaryValues, List.length_map, Pair.length_steps] at hle
  exact Nat.lt_of_le_of_lt hle hlen

/-- **A block at the beginning of its passes takes an ascending list exactly if the list fits.** -/
theorem Vacant.write_eq_ok_iff_storable (hk : k.Vacant) (hkept : (ofPreset size codec).Kept k)
    (h : Ascending ps) :
    (k.write ps).result = .ok () ↔ Storable codec (size.byteSize - headerLen) ps := by
  rw [write_eq_ok_iff]
  constructor
  · rintro ⟨hlen, hprimary, hsecondary⟩
    obtain ⟨⟨hlast, hlt⟩, hcost⟩ := (hk.takes_primary_iff hkept h hlen).mp hprimary
    obtain ⟨⟨hfirst, hnext⟩, hcost'⟩ := (hk.takes_secondary_iff hkept hlt).mp hsecondary
    exact ⟨hlt, h.nonneg, hlast, hfirst, hnext, hcost, hcost'⟩
  · intro hfits
    have hlen : ps.length ≤ Word.signedMax := Nat.le_of_lt hfits.length_lt
    exact ⟨hlen,
      (hk.takes_primary_iff hkept h hlen).mpr ⟨⟨hfits.last_ne, hfits.length_lt⟩, hfits.primary_le⟩,
      (hk.takes_secondary_iff hkept hfits.length_lt).mpr
        ⟨⟨hfits.first, hfits.next⟩, hfits.secondary_le⟩⟩

/-- **A block that is ready takes exactly the lists that fit once they are sorted.** -/
theorem Ready.set_eq_ok_iff_storable (hk : k.Ready) (hkept : (ofPreset size codec).Kept k)
    (pairs : List Pair) : (k.set pairs).result = .ok () ↔
      Storable codec (size.byteSize - headerLen) (Pair.sort pairs) := by
  cases hnegative : Pair.anyNegative pairs with
  | true =>
    rw [set_of_anyNegative hnegative]
    refine iff_of_false nofun fun hfits ↦ ?_
    have hnonneg : Pair.anyNegative pairs = false := by
      rw [Pair.anyNegative_eq_false]
      exact fun p hp ↦ hfits.nonneg p ((Pair.perm_sort pairs).mem_iff.mpr hp)
    rw [hnegative] at hnonneg
    exact nomatch hnonneg
  | false =>
    obtain ⟨_, hok, hvacant⟩ := hk.beginWriting.answers
    rw [set_of_nonneg hnegative, Outcome.result_andThen_eq_ok, and_iff_right hok]
    exact hvacant.write_eq_ok_iff_storable hkept.beginWriting.state
      (Pair.ascending_sort hnegative)

end

/-! ## Histories -/

/-- **A block takes exactly the lists that fit.** Take any history of calls on a fresh block that
does not spoil it, and a list of pairs that is then set. The call answers exactly if the sorted list
can be stored (`Storable`): no primary id is negative, the last is not the largest number, the first
offset and its changes are neither the least nor the largest number, and the values for either
buffer cost no more bytes than the buffer has behind its header. If no primary id is negative, no
difference of ids wraps around, and no sum of ids does in any read of the block, whatever calls come
in between. -/
theorem set_eq_ok_iff (size : Preset) (codec : Codec) (before : List Call) :
    let fresh := ofPreset size codec
    let k := Outcome.after step fresh before
    Outcome.account step spoiledNext fresh false before = false → ∀ pairs,
      ((k.set pairs).result = .ok () ↔
        Storable codec (size.byteSize - headerLen) (Pair.sort pairs)) ∧
      (Pair.anyNegative pairs = false → (Pair.sort pairs).IsChain fun p q ↦
        (q.primary - p.primary).toInt = q.primary.toInt - p.primary.toInt) ∧
      ∀ more, (Outcome.after step (k.set pairs).state more).ReplaysExactly := by
  intro fresh k hspoiled pairs
  obtain ⟨hkept, hfares⟩ := fares_after size codec before
  rw [hspoiled] at hfares
  refine ⟨hfares.ready.set_eq_ok_iff_storable hkept pairs, ?_, ?_⟩
  · exact fun hnonneg ↦ (Pair.ascending_sort hnonneg).isChain_toInt_sub
  · intro more
    have hreplays := replaysExactly_after size codec (before ++ .set pairs :: more)
    rw [Outcome.after_append] at hreplays
    exact hreplays

/-- Ids at both ends of the range are taken, except for the largest number. The block held another
list before, and a list with a negative primary id was rejected. -/
theorem set_extremes :
    let before : List Call := [.set [⟨5, 9⟩], .set [⟨-1, 0⟩], .lookup 5]
    let pairs : List Pair := [⟨Int64.maxValue - 1, Int64.minValue⟩, ⟨0, 5⟩]
    let fresh := ofPreset .small .base128
    let k := Outcome.after step fresh before
    Outcome.account step spoiledNext fresh false before = false ∧
      (k.set pairs).result = .ok () ∧
      (k.set [⟨Int64.maxValue, 0⟩]).result ≠ .ok () ∧
      (Outcome.after step (k.set pairs).state [.toList, .lookup 0]).ReplaysExactly := by
  intro before pairs fresh k
  have hsort : Pair.sort pairs = [⟨0, 5⟩, ⟨Int64.maxValue - 1, Int64.minValue⟩] := by
    have hbehind : ¬ Int64.maxValue - 1 ≤ 0 := by decide
    simp [pairs, Pair.sort, List.mergeSort, hbehind]
  have hspoiled : Outcome.account step spoiledNext fresh false before = false := by
    decide +kernel
  obtain ⟨htaken, -, hexact⟩ := set_eq_ok_iff .small .base128 before hspoiled pairs
  obtain ⟨hrefused, -, -⟩ := set_eq_ok_iff .small .base128 before hspoiled [⟨Int64.maxValue, 0⟩]
  refine ⟨hspoiled, htaken.mpr ?_, hrefused.not.mpr ?_, hexact _⟩
  · rw [hsort]
    decide +kernel
  · decide +kernel

end PairBlock

end Adjacency
