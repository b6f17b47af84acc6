import Adjacency.Proofs.Arena.Append

/-!
# Chains after an append

The writes of an append stay inside a block (`getElem?_placed`, `getElem?_linked`), so every other
block is as it was (`sameOn_placed`, `sameOn_linked`). In the block that is written to, the new
difference follows the old ones and the new id follows the new difference (`holds_placed`). Together
these show that the arena holds the longer chain afterwards, whether the id went to the last block
(`HoldsChain.extend`) or to a new one (`HoldsChain.turn`).
-/

namespace Adjacency

theorem add_le_of_dvd_of_lt {size m n : Nat} (hm : size ∣ m) (hn : size ∣ n) (h : m < n) :
    m + size ≤ n := by
  have hle : size ≤ n - m := Nat.le_of_dvd (Nat.sub_pos_of_lt h) (Nat.dvd_sub hn hm)
  omega

namespace Arena

open Bytes (StandsAt overwrite standsAt_overwrite standsAt_append getElem?_overwrite_of_outside)

variable {a : Arena} {nodes room off block capacity : Nat} {code : List UInt8} {slot : Slot}
  {delta : Int64} {target : UInt64} {p : Page} {k : Chain}

/-! ## Other blocks -/

theorem SameOn.trans {b c : Arena} (hab : SameOn a b block) (hbc : SameOn b c block) :
    SameOn a c block where
  codec := hbc.codec.trans hab.codec
  layout := hbc.layout.trans hab.layout
  size_le := Nat.le_trans hab.size_le hbc.size_le
  bytes := fun i hlo hhi ↦
    (hbc.bytes i hlo (by rw [hab.layout]; exact hhi)).trans (hab.bytes i hlo hhi)

theorem sameOn_grown (h : block + a.layout.blockSize ≤ a.bytes.size) :
    SameOn a (a.grown capacity) block where
  codec := rfl
  layout := rfl
  size_le := by rw [size_bytes_grown]; omega
  bytes := fun i _ _ ↦ by rw [grown, Array.getElem?_append_left (by omega)]

/-- An id with its difference has room behind what a slot's block holds, and the header word that
counts them fits into the header. -/
structure Fits (a : Arena) (slot : Slot) (delta : Int64) (target : UInt64) : Prop where
  room : a.layout.headerLen + slot.used + a.codec.sizeInt64 delta + a.codec.sizeUInt64 target
    < a.layout.blockSize
  word : a.codec.size .unsigned (slot.used + a.codec.sizeInt64 delta : Nat) ≤ a.layout.headerLen
  block_le : slot.block + a.layout.blockSize ≤ a.bytes.size
  limit : a.layout.blockSize ≤ a.layout.arenaLimit

theorem getElem?_placed (hfits : a.Fits slot delta target) {i : Nat}
    (h : i < slot.block ∨ slot.block + a.layout.blockSize ≤ i) :
    (a.placed slot delta target).bytes[i]? = a.bytes[i]? := by
  have hroom := hfits.room
  have hword := hfits.word
  rw [Codec.sizeInt64] at hword hroom
  rw [Codec.sizeUInt64] at hroom
  -- The header word is written last, over the difference and the id.
  have hheader : (a.placed slot delta target).bytes[i]?
      = (a.wrote (slot.block + a.layout.headerLen + slot.used) (a.codec.code .signed delta.toInt
          ++ a.codec.code .unsigned target.toNat)).bytes[i]? :=
    getElem?_overwrite_of_outside (by rw [Codec.length_code, Codec.sizeInt64]; omega)
  rw [hheader]
  refine getElem?_overwrite_of_outside ?_
  rw [List.length_append, Codec.length_code, Codec.length_code]
  omega

theorem sameOn_placed (hfits : a.Fits slot delta target)
    (h : slot.block + a.layout.blockSize ≤ block ∨ block + a.layout.blockSize ≤ slot.block) :
    SameOn a (a.placed slot delta target) block where
  codec := rfl
  layout := rfl
  size_le := Nat.le_of_eq (a.size_bytes_placed slot delta target).symm
  bytes := fun i _ _ ↦ getElem?_placed hfits (by omega)

/-! ## The block written to -/

/-- After writing into a slot the difference and the id stand there, behind what stood in front of
them, under the new header word. -/
theorem standsAt_placed (hfits : a.Fits slot delta target) {old : List UInt8}
    (hold : StandsAt a.bytes (slot.block + a.layout.headerLen) old)
    (hused : old.length = slot.used) :
    StandsAt (a.placed slot delta target).bytes slot.block
        (a.codec.code .unsigned (slot.used + a.codec.sizeInt64 delta : Nat)) ∧
      StandsAt (a.placed slot delta target).bytes (slot.block + a.layout.headerLen)
        (old ++ (a.codec.code .signed delta.toInt ++ a.codec.code .unsigned target.toNat)) := by
  have hroom := hfits.room
  have hword := hfits.word
  have hle := hfits.block_le
  rw [Codec.sizeInt64] at hroom
  rw [Codec.sizeUInt64] at hroom
  have hlen : (a.codec.code .signed delta.toInt ++ a.codec.code .unsigned target.toNat).length
      = a.codec.size .signed delta.toInt + a.codec.size .unsigned target.toNat := by
    rw [List.length_append, Codec.length_code, Codec.length_code]
  have hheader : (a.codec.code .unsigned (slot.used + a.codec.sizeInt64 delta : Nat)).length
      ≤ a.layout.headerLen := by
    rw [Codec.length_code]
    exact hword
  constructor
  · exact standsAt_overwrite (by rw [size_bytes_wrote]; omega)
  · -- The header word is written last; it ends before the differences begin.
    have hrow : StandsAt (a.wrote (slot.block + a.layout.headerLen + slot.used)
        (a.codec.code .signed delta.toInt ++ a.codec.code .unsigned target.toNat)).bytes
          (slot.block + a.layout.headerLen)
          (old ++ (a.codec.code .signed delta.toInt ++ a.codec.code .unsigned target.toNat)) := by
      rw [standsAt_append]
      refine ⟨hold.congr fun i _ hhi ↦ getElem?_overwrite_of_outside (by omega), ?_⟩
      rw [hused]
      exact standsAt_overwrite (by omega)
    exact hrow.congr fun i hlo _ ↦ getElem?_overwrite_of_outside (by omega)

theorem holds_placed (hfits : a.Fits slot delta target) (hblock : p.block = slot.block)
    (hdeltas : StandsAt a.bytes (slot.block + a.layout.headerLen) (p.code a.codec))
    (hused : p.used a.codec = slot.used) :
    (a.placed slot delta target).Holds (p.extend delta) ((p.extend delta).used a.codec) ∧
      StandsAt (a.placed slot delta target).bytes
        (p.block + a.layout.headerLen + (p.extend delta).used a.codec)
        (a.codec.code .unsigned target.toNat) := by
  have hroom := hfits.room
  have hlimit := hfits.limit
  obtain ⟨hheader, hrow⟩ := standsAt_placed hfits hdeltas hused
  rw [← List.append_assoc, ← Page.code_extend, standsAt_append] at hrow
  obtain ⟨hcodes, htail⟩ := hrow
  rw [Page.used_extend, hused, hblock]
  refine ⟨⟨?_, ?_, ?_, ?_, ?_⟩, ?_⟩
  · rw [Page.block_extend, hblock]
    exact hheader
  · rw [layout_placed]
    omega
  · rw [Page.block_extend, hblock]
    exact hcodes
  · rw [layout_placed, codec_placed, Page.used_extend, hused]
    have hpos := a.codec.size_pos .unsigned target.toNat
    rw [Codec.sizeUInt64] at hroom
    omega
  · rw [Page.block_extend, hblock, layout_placed, size_bytes_placed]
    exact hfits.block_le
  · rw [← Page.used, Page.used_extend, hused] at htail
    exact htail

/-! ## The chain written to -/

section Growing

variable (hl : a.layout.Sound a.codec nodes room) (h : a.HoldsChain k)
  (hstart : a.layout.blockSize ∣ k.start)

include hl h hstart

omit hstart in
theorem HoldsChain.fits_lastSlot (hsize : a.bytes.size ≤ a.layout.arenaLimit)
    (hroom : a.demand k target < a.layout.blockSize) :
    a.Fits (a.lastSlot k) (k.step target) target := by
  have hle := h.last.block_le
  refine ⟨hroom, hl.size_le_headerLen ?_, hle, by omega⟩
  rw [demand] at hroom
  simp only [lastSlot]
  omega

theorem HoldsChain.extend (hsize : a.bytes.size ≤ a.layout.arenaLimit)
    (hroom : a.demand k target < a.layout.blockSize) :
    (a.placed (a.lastSlot k) (k.step target) target).HoldsChain (k.extend (k.step target)) := by
  have hfits := h.fits_lastSlot hl hsize hroom
  have hlastId : (k.extend (k.step target)).lastId = target :=
    k.lastId_of_ids_append (k.ids_extend target)
  obtain ⟨hlast, htail⟩ := holds_placed hfits rfl h.last.deltas rfl
  refine ⟨h.links.frame hl rfl fun p hp ↦ sameOn_placed hfits (Or.inr ?_), hlast, ?_, ?_,
    ?_⟩
  · -- All other pages of the chain lie in front of the last one.
    have hdvd := h.dvd_block hstart (List.mem_append_left _ hp)
    have hdvdLast := h.dvd_block hstart (List.mem_append_right _ List.mem_cons_self)
    exact add_le_of_dvd_of_lt hdvd hdvdLast (h.links.block_lt hp)
  · intro _
    rw [hlastId]
    exact htail
  · intro _
    rw [hlastId, layout_placed, codec_placed, Chain.extend, Page.used_extend]
    rw [demand] at hroom
    omega
  · intro _
    exact List.append_ne_nil_of_right_ne_nil _ (List.cons_ne_nil _ _)

omit hstart in
theorem size_linkWord_le (hle : a.bytes.size + a.layout.blockSize ≤ a.layout.arenaLimit) :
    a.codec.size .unsigned (a.linkWord k) ≤ a.layout.headerLen := by
  have hused := h.last.used_lt
  exact hl.size_le_headerLen (by rw [linkWord]; omega)

omit hstart in
theorem getElem?_linked (hle : a.bytes.size + a.layout.blockSize ≤ a.layout.arenaLimit) {i : Nat}
    (hi : i < a.bytes.size) (hlast : i < k.last.block ∨ k.last.block + a.layout.blockSize ≤ i) :
    (a.linked k capacity).bytes[i]? = a.bytes[i]? := by
  have hused := h.last.used_lt
  have hword := size_linkWord_le hl h hle
  have hgrown : (a.grown capacity).bytes[i]? = a.bytes[i]? := Array.getElem?_append_left hi
  rw [← hgrown]
  exact getElem?_overwrite_of_outside (by rw [Codec.length_code]; omega)

omit hstart in
theorem sameOn_linked (hle : a.bytes.size + a.layout.blockSize ≤ a.layout.arenaLimit)
    (hblock : block + a.layout.blockSize ≤ a.bytes.size)
    (hother : k.last.block + a.layout.blockSize ≤ block ∨
      block + a.layout.blockSize ≤ k.last.block) :
    SameOn a (a.linked k capacity) block where
  codec := rfl
  layout := rfl
  size_le := by rw [size_bytes_linked]; omega
  bytes := fun i _ _ ↦ getElem?_linked hl h hle (by omega) (by omega)

omit hstart in
theorem holds_linked (hle : a.bytes.size + a.layout.blockSize ≤ a.layout.arenaLimit) :
    (a.linked k capacity).Holds k.last (a.linkWord k) := by
  have hused := h.last.used_lt
  have hblock := h.last.block_le
  have hword := size_linkWord_le hl h hle
  have hgrown : StandsAt (a.grown capacity).bytes (k.last.block + a.layout.headerLen)
      (k.last.code a.codec) :=
    h.last.deltas.congr fun i _ hhi ↦ (sameOn_grown hblock).bytes i (by omega)
      (by rw [← Page.used] at hhi; omega)
  refine ⟨standsAt_overwrite ?_, ?_, hgrown.congr ?_, hused, ?_⟩
  · rw [Codec.length_code, size_bytes_grown]
    omega
  · rw [layout_linked, linkWord]
    omega
  · intro i hlo _
    exact getElem?_overwrite_of_outside (by rw [Codec.length_code]; omega)
  · rw [layout_linked, size_bytes_linked]
    omega

omit h hstart in
theorem fits_newSlot (hpos : 0 < room)
    (hle : a.bytes.size + a.layout.blockSize ≤ a.layout.arenaLimit) :
    (a.linked k capacity).Fits (a.newSlot k) (k.step target) target := by
  have hroom := hl.headerLen_add_lt hpos (k.step target) target
  refine ⟨hroom, hl.size_le_headerLen ?_, ?_, ?_⟩
  · simp only [newSlot, codec_linked]
    omega
  · rw [layout_linked, size_bytes_linked]
    exact Nat.le_refl _
  · rw [layout_linked]
    omega

theorem HoldsChain.turn (hpos : 0 < room)
    (hle : a.bytes.size + a.layout.blockSize ≤ a.layout.arenaLimit)
    (hdvd : a.layout.blockSize ∣ a.bytes.size) (hfull : a.layout.blockSize ≤ a.demand k target) :
    ((a.linked k capacity).placed (a.newSlot k) (k.step target) target).HoldsChain
      (k.turn a.bytes.size (k.step target)) := by
  have hblock := h.last.block_le
  have hroom := hl.headerLen_add_lt hpos (k.step target) target
  have hfits : (a.linked k capacity).Fits (a.newSlot k) (k.step target) target :=
    fits_newSlot hl hpos hle
  -- Nothing is written in front of the new block once the last one is linked to it.
  have hfront : ∀ q : Page, q.block + a.layout.blockSize ≤ a.bytes.size →
      SameOn (a.linked k capacity)
        ((a.linked k capacity).placed (a.newSlot k) (k.step target) target) q.block :=
    fun q hq ↦ sameOn_placed hfits (Or.inr hq)
  have hllinked : (a.linked k capacity).layout.Sound (a.linked k capacity).codec nodes room := hl
  have hpages : ∀ q ∈ k.full, q.block + a.layout.blockSize ≤ k.last.block := fun q hq ↦
    add_le_of_dvd_of_lt (h.dvd_block hstart (List.mem_append_left _ hq))
      (h.dvd_block hstart (List.mem_append_right _ List.mem_cons_self)) (h.links.block_lt hq)
  -- Any id fits into an empty block, so the one that is left is not empty.
  have hne : k.last.deltas ≠ [] := by
    intro hnil
    rw [demand, (Page.used_eq_zero a.codec k.last).mpr hnil] at hfull
    omega
  have hlastId : (k.turn a.bytes.size (k.step target)).lastId = target :=
    k.lastId_of_ids_append (k.ids_turn a.bytes.size target)
  obtain ⟨hlast, htail⟩ : _ ∧ _ := holds_placed hfits (p := ⟨a.bytes.size, []⟩) rfl
    (Bytes.standsAt_nil _ _) rfl
  refine ⟨?_, hlast, ?_, ?_, fun _ ↦ List.cons_ne_nil _ _⟩
  · rw [Chain.turn, Chain.pages, links_append]
    refine ⟨h.links.frame hl rfl ?_,
      (holds_linked hl h hle).frame hllinked (hfront _ hblock), hne, ?_, hdvd⟩
    · intro q hq
      have hq := hpages q hq
      exact (sameOn_linked hl h hle (by omega) (Or.inr hq)).trans (hfront q (by omega))
    · have hsize := hl.blockSize_pos
      exact Nat.lt_of_lt_of_le (by omega) hblock
  · intro _
    rw [hlastId]
    exact htail
  · intro _
    rw [hlastId, layout_placed, codec_placed, layout_linked, codec_linked, Chain.turn,
      Page.used_singleton]
    exact hroom

end Growing

end Arena

end Adjacency
