import Adjacency.Arena.Layout
import Adjacency.Proofs.Codec.Size

/-!
# What a chosen layout guarantees

The search for a header width ends with a layout in which the header holds every number up to the
limit of the arena (`settle_fits`). With the sums that make up a block this is all that the chains
of an arena rely on, so it is collected in one statement, `Layout.Sound`: `room` bytes of
differences, one more difference and one id of any size find place in a fresh block.
-/

namespace Adjacency

namespace Layout

/-- The sizes of an arena for `nodes` nodes fit together: a block has `room` bytes for differences
and space for one more difference and one id, and a header holds any place of the arena. -/
structure Sound (codec : Codec) (nodes room : Nat) (l : Layout) : Prop where
  headerLen_pos : 0 < l.headerLen
  blockSize_eq : l.blockSize = room + 2 * codec.maxLen + l.headerLen
  rootLen_eq : l.rootLen = nodes * l.blockSize
  rootLen_le : l.rootLen ≤ l.arenaLimit
  dvd_arenaLimit : l.blockSize ∣ l.arenaLimit
  arenaLimit_le : l.arenaLimit ≤ Word.max
  fits : l.widest codec ≤ l.headerLen

variable {codec : Codec} {extraBlocks : Nat → Nat → Nat} {nodes payload headerLen rounds : Nat}
  {l : Layout}

/-! ## One round -/

theorem within_eq_ok {what : Resource} {n : Option Nat} {m : Nat} :
    within what nodes n = .ok m ↔ n = some m := by
  cases n with
  | none => simp [within]
  | some k => simp [within]

theorem ofHeader_eq_ok (h : ofHeader extraBlocks nodes payload headerLen = .ok l) :
    l.headerLen = headerLen ∧ l.blockSize = payload + headerLen ∧ l.rootLen = nodes * l.blockSize ∧
      l.arenaLimit = extraBlocks l.rootLen l.blockSize * l.blockSize + l.rootLen ∧
      l.arenaLimit ≤ Word.max := by
  simp only [ofHeader, Check.bind_eq_ok, within_eq_ok, Word.add?_eq_some_iff,
    Word.mul?_eq_some_iff] at h
  obtain ⟨blockSize, ⟨hblock, -⟩, rootLen, ⟨hroot, -⟩, extra, ⟨hextra, -⟩, limit, ⟨hlimit, hmax⟩,
    hl⟩ := h
  cases hl
  exact ⟨rfl, hblock.symm, hroot.symm, by rw [← hlimit, hextra], hmax⟩

theorem widest_le (h : l.arenaLimit ≤ Word.max) : l.widest codec ≤ codec.maxLen := by
  refine codec.size_le_maxLen ?_
  simp only [Signedness.Admits]
  rw [Word.max] at h
  omega

/-! ## The search -/

/-- **The search ends with a header that suffices.** Each round that fails raises the header, so
with the rounds that remain it passes the length of the longest code. -/
theorem settle_fits (hrounds : codec.maxLen ≤ rounds + headerLen)
    (h : settle codec extraBlocks nodes payload rounds headerLen = .ok l) :
    headerLen ≤ l.headerLen ∧ ofHeader extraBlocks nodes payload l.headerLen = .ok l ∧
      l.widest codec ≤ l.headerLen := by
  induction rounds generalizing headerLen with
  | zero =>
    -- No round is left, and by now the header is as long as the longest code.
    rw [settle] at h
    obtain ⟨hlen, -, -, -, hmax⟩ := ofHeader_eq_ok h
    have hwidest : l.widest codec ≤ codec.maxLen := widest_le hmax
    exact ⟨by omega, by rw [hlen]; exact h, by omega⟩
  | succ rounds ih =>
    rw [settle, Check.bind_eq_ok] at h
    obtain ⟨m, hm, h⟩ := h
    obtain ⟨hlen, -⟩ := ofHeader_eq_ok hm
    split at h
    · next hfits =>
      cases h
      exact ⟨by omega, by rw [hlen]; exact hm, by omega⟩
    · next hwide =>
      obtain ⟨hle, hround, hfits⟩ := ih (by omega) h
      exact ⟨by omega, hround, hfits⟩

theorem sound_of_choose {options : Options} {sizing : Sizing}
    (h : choose extraBlocks options sizing = .ok l) :
    l.Sound options.codec sizing.totalNodes.toNat (sizing.fanOut * options.bytesPerEdge.toNat) := by
  simp only [choose, Check.bind_eq_ok, Memory.product_eq_ok, within_eq_ok,
    Word.add?_eq_some_iff] at h
  obtain ⟨room, ⟨hroom, -⟩, payload, ⟨hpayload, -⟩, h⟩ := h
  obtain ⟨hpos, hround, hfits⟩ := settle_fits (by omega) h
  obtain ⟨-, hblock, hroot, hlimit, hmax⟩ := ofHeader_eq_ok hround
  refine ⟨hpos, by omega, hroot, by omega, ?_, hmax, hfits⟩
  rw [hlimit, hroot]
  exact Nat.dvd_add (Nat.dvd_mul_left _ _) (Nat.dvd_mul_left _ _)

/-! ## What fits where -/

namespace Sound

variable {room : Nat} (hl : l.Sound codec nodes room)

include hl

theorem blockSize_pos : 0 < l.blockSize := by
  have hpos := hl.headerLen_pos
  have hblock := hl.blockSize_eq
  omega

theorem size_le_headerLen {w : Nat} (h : w ≤ l.arenaLimit) :
    codec.size .unsigned w ≤ l.headerLen :=
  Nat.le_trans (codec.size_mono (Int.natCast_nonneg w) (Int.ofNat_le.mpr h)) hl.fits

theorem admits {w : Nat} (h : w ≤ l.arenaLimit) : Signedness.unsigned.Admits w := by
  have hmax := hl.arenaLimit_le
  rw [Word.max] at hmax
  simp only [Signedness.Admits]
  omega

/-- A fresh block has room for a difference and an id of any size, and a byte more. -/
theorem headerLen_add_lt (hroom : 0 < room) (d : Int64) (id : UInt64) :
    l.headerLen + codec.sizeInt64 d + codec.sizeUInt64 id < l.blockSize := by
  have hdelta := codec.size_le_maxLen (Signedness.admits_toInt d)
  have hid := codec.size_le_maxLen (Signedness.admits_toNat id)
  have hblock := hl.blockSize_eq
  rw [Codec.sizeInt64, Codec.sizeUInt64]
  omega

end Sound

end Layout

end Adjacency
