import Adjacency.Proofs.Arena.HeaderSearch
import Adjacency.Proofs.Store.Partition
import Adjacency.Proofs.Store.Quota

/-!
# Opening a store with blocks

A store with blocks is opened with a layout found by the search for a header width. The number of
additional blocks in each round comes from the growth factor, by arithmetic that rounds; nothing
here depends on it, so it is left open (`Store.openPaged`, `Store.init_eq_openPaged`).

If the search or the request for memory is refused, the store stays as it was. Otherwise the arena
is laid out (`Arena.LaidOut`): its sizes are what they are declared to be, all arithmetic stayed
within 64 bits, and a header holds every number up to the limit of the arena. Such a number is how
much a block holds, and also the place of a later block together with how much the block holds.
-/

namespace Adjacency

namespace Layout

variable {codec : Codec} {nodes room : Nat} {l : Layout}

/-- The number can be written as the header word of any block, and is read back from there. -/
def Encodes (codec : Codec) (l : Layout) (word : Nat) : Prop :=
  ∀ a : Arena, a.codec = codec → a.layout = l → ∀ block, block + l.headerLen ≤ a.bytes.size →
    ∃ b len, a.writeHeader block word = .done b len ∧ b.header block = .ok word

/-- **A header holds every number up to the limit of the arena.** -/
theorem Sound.encodes (hl : l.Sound codec nodes room) {word : Nat} (h : word ≤ l.arenaLimit) :
    l.Encodes codec word := by
  rintro a rfl rfl block hblock
  have hsize := hl.size_le_headerLen h
  have hstands : Bytes.StandsAt (a.wrote block (a.codec.code .unsigned word)).bytes block
      (a.codec.code .unsigned word) := by
    refine Bytes.standsAt_overwrite ?_
    rw [Codec.length_code]
    omega
  refine ⟨_, _, Arena.writeHeader_of_le hsize, ?_⟩
  rw [Arena.header, Arena.codec_wrote, a.codec.get_of_standsAt hstands (hl.admits h)
    (by rw [Arena.layout_wrote]; omega)]
  simp

end Layout

namespace Arena

/-- A fresh arena has the sizes that its options and its sizing call for, and they were found
without leaving 64 bits. -/
structure LaidOut (extraBlocks : Nat → Nat → Nat) (options : Options) (sizing : Sizing)
    (a : Arena) : Prop where
  codec_eq : a.codec = options.codec
  /-- The expected differences, one more difference and one id of any size, and the header. -/
  blockSize_eq : a.layout.blockSize = sizing.fanOut * options.bytesPerEdge.toNat
    + 2 * options.codec.maxLen + a.layout.headerLen
  size_eq : a.bytes.size = sizing.totalNodes.toNat * a.layout.blockSize
  dvd_arenaLimit : a.layout.blockSize ∣ a.layout.arenaLimit
  size_le : a.bytes.size ≤ a.layout.arenaLimit
  fanOut_le : sizing.fanOut ≤ Word.max
  room_le : sizing.fanOut * options.bytesPerEdge.toNat ≤ Word.max
  payload_le : sizing.fanOut * options.bytesPerEdge.toNat + 2 * options.codec.maxLen ≤ Word.max
  /-- Every round of the search for this layout stayed within 64 bits. -/
  search : ∃ widths, Layout.Search options.codec extraBlocks sizing.totalNodes.toNat
      (sizing.fanOut * options.bytesPerEdge.toNat + 2 * options.codec.maxLen) 1 widths
      (.ok a.layout) ∧ widths.length ≤ options.codec.maxLen ∧
    ∀ w ∈ widths, Layout.InRange extraBlocks sizing.totalNodes.toNat
      (sizing.fanOut * options.bytesPerEdge.toNat + 2 * options.codec.maxLen) w
  encodes : ∀ word, word ≤ a.layout.arenaLimit → a.layout.Encodes options.codec word
  /-- How much a block holds is such a number. -/
  encodes_used : ∀ used, used < a.layout.blockSize → a.layout.Encodes options.codec used
  /-- The place of a later block and how much the block holds make such a number too. -/
  encodes_link : ∀ next used, next + a.layout.blockSize ≤ a.layout.arenaLimit →
    used < a.layout.blockSize → a.layout.Encodes options.codec (next + used)

variable {extraBlocks : Nat → Nat → Nat} {options : Options} {sizing : Sizing} {a : Arena}
  {r : Refusal}

theorem isCapacity_of_product {what : Resource} {a b : Nat}
    (h : Memory.product what a b = .error r) : r.cause.IsCapacity := by
  rw [Memory.product] at h
  split at h
  · cases h
  · cases h
    trivial

theorem isCapacity_of_reserve {what : Resource} {elementSize capacity : Nat}
    (h : Memory.reserve what elementSize capacity = .error r) : r.cause.IsCapacity := by
  rw [Memory.reserve] at h
  split at h
  · cases h
  · cases h
    trivial

theorem laidOut_allocate (hnodes : 0 < sizing.totalNodes.toNat) (hfan : sizing.fanOut ≤ Word.max)
    (h : Arena.allocate extraBlocks options sizing = .ok a) :
    a.LaidOut extraBlocks options sizing := by
  rw [Arena.allocate, Check.bind_eq_ok] at h
  obtain ⟨l, hchoose, h⟩ := h
  rw [Check.bind_eq_ok] at h
  obtain ⟨-, -, h⟩ := h
  cases h
  have hl := Layout.sound_of_choose hchoose
  simp only [Layout.choose, Check.bind_eq_ok, Memory.product_eq_ok, Layout.within_eq_ok,
    Word.add?_eq_some_iff] at hchoose
  obtain ⟨_, ⟨rfl, hroom⟩, _, ⟨rfl, hpayload⟩, hsettle⟩ := hchoose
  obtain ⟨widths, hsearch, hlength⟩ :=
    Layout.search_settle_one options.codec extraBlocks sizing.totalNodes.toNat
      (sizing.fanOut * options.bytesPerEdge.toNat + 2 * options.codec.maxLen)
  rw [hsettle] at hsearch
  have hroot : l.rootLen = sizing.totalNodes.toNat * l.blockSize := hl.rootLen_eq
  -- There is a node, so a block lies below the limit.
  have hblock : l.blockSize ≤ l.arenaLimit := by
    refine Nat.le_trans ?_ hl.rootLen_le
    rw [hroot]
    exact Nat.le_mul_of_pos_left _ hnodes
  refine ⟨rfl, hl.blockSize_eq, ?_, hl.dvd_arenaLimit, ?_, hfan, hroom, hpayload,
    ⟨widths, hsearch, hlength, hsearch.inRange⟩, fun word h ↦ hl.encodes h, ?_, ?_⟩
  · rw [Array.size_replicate]
    exact hroot
  · rw [Array.size_replicate]
    exact hl.rootLen_le
  · intro used hused
    have hused : used < l.blockSize := hused
    exact hl.encodes (by omega)
  · intro next used hnext hused
    have hnext : next + l.blockSize ≤ l.arenaLimit := hnext
    have hused : used < l.blockSize := hused
    exact hl.encodes (by omega)

theorem isCapacity_of_choose (h : Layout.choose extraBlocks options sizing = .error r) :
    r.cause.IsCapacity := by
  simp only [Layout.choose, Check.bind_eq_error, Layout.within_eq_error] at h
  rcases h with hproduct | ⟨room, -, ⟨-, rfl⟩ | ⟨payload, -, hsettle⟩⟩
  · exact isCapacity_of_product hproduct
  · trivial
  · obtain ⟨widths, hsearch, -⟩ :=
      Layout.search_settle_one options.codec extraBlocks sizing.totalNodes.toNat payload
    rw [hsettle] at hsearch
    obtain ⟨what, rfl⟩ := hsearch.exists_refusal
    trivial

theorem isCapacity_of_allocate (h : Arena.allocate extraBlocks options sizing = .error r) :
    r.cause.IsCapacity := by
  rw [Arena.allocate, Check.bind_eq_error] at h
  rcases h with hchoose | ⟨l, -, h⟩
  · exact isCapacity_of_choose hchoose
  · rw [Check.bind_eq_error] at h
    rcases h with hreserve | ⟨-, -, hnever⟩
    · exact isCapacity_of_reserve hreserve
    · cases hnever

end Arena

/-! ## The store -/

namespace Lifecycle

variable {options : Options} {totalNodes totalRels : UInt64} {r : Refusal}

theorem plan_created_eq_error (h : created.plan options totalNodes totalRels = .error r) :
    ∃ argument, r.cause = .invalid argument := by
  rw [plan] at h
  cases hvalid : options.validate with
  | error e =>
    rw [hvalid] at h
    cases h
    exact ⟨e, rfl⟩
  | ok u =>
    rw [hvalid, Sizing.ofTotals] at h
    dsimp only at h
    split at h
    · next heq =>
      split at heq
      · cases heq
        cases h
        exact ⟨.noNodes, rfl⟩
      · cases heq
    · cases h

end Lifecycle

namespace Store

/-- Opens a store with blocks. The number of additional blocks in each round of the search for a
layout is left open. -/
def openPaged (s : Store) (extraBlocks : Nat → Nat → Nat) (totalNodes totalRels : UInt64) :
    Outcome Store Unit :=
  match s.lifecycle.plan s.options totalNodes totalRels with
  | .error r => r.leave s
  | .ok sizing =>
    match Arena.allocate extraBlocks s.options sizing with
    | .error r => r.leave s
    | .ok arena =>
      ⟨.ok (), { s with lifecycle := .loading sizing 0, contents := .paged arena },
        .opened s.kind sizing arena.capacity :: (Contents.paged arena).openingEvents⟩

variable {s : Store}

theorem init_eq_openPaged (hkind : s.kind = .pagedBuffer) (totalNodes totalRels : UInt64) :
    s.init totalNodes totalRels
      = s.openPaged (Layout.extraBlocks s.options.growth) totalNodes totalRels := by
  rw [init, openPaged, hkind]
  cases s.lifecycle.plan s.options totalNodes totalRels with
  | error r => rfl
  | ok sizing =>
    dsimp only [Contents.allocate]
    cases Arena.allocate (Layout.extraBlocks s.options.growth) s.options sizing with
    | error r => rfl
    | ok arena => rfl

/-- **Opening a store with blocks is safe,** whatever the totals and however many additional blocks
each round of the search for a layout is given. The search for a header width ends within as many
rounds as the longest code has bytes. The store stays as it was, and it is told that the options,
the totals or the capacity do not allow it; or it is opened with an arena that is laid out. -/
theorem openPaged_laidOut (hkind : s.kind = .pagedBuffer) (hphase : s.phase = .created)
    (extraBlocks : Nat → Nat → Nat) (totalNodes totalRels : UInt64) :
    s.init totalNodes totalRels
        = s.openPaged (Layout.extraBlocks s.options.growth) totalNodes totalRels ∧
      (∀ nodes payload, ∃ widths, Layout.Search s.options.codec extraBlocks nodes payload 1 widths
          (Layout.settle s.options.codec extraBlocks nodes payload s.options.codec.maxLen 1) ∧
        widths.Pairwise (· < ·) ∧ widths.length ≤ s.options.codec.maxLen) ∧
      ((∃ cause, (s.openPaged extraBlocks totalNodes totalRels).result = .error cause ∧
          (s.openPaged extraBlocks totalNodes totalRels).state = s ∧
          (cause.IsCapacity ∨ ∃ argument, cause = .invalid argument)) ∨
        ∃ sizing a, (s.openPaged extraBlocks totalNodes totalRels).result = .ok () ∧
          (s.openPaged extraBlocks totalNodes totalRels).state
            = { s with lifecycle := .loading sizing 0, contents := .paged a } ∧
          sizing = ⟨totalNodes, totalRels,
            Sizing.estimatedFanOut totalNodes totalRels s.options.minFanOut⟩ ∧
          a.LaidOut extraBlocks s.options sizing) := by
  have hcreated : s.lifecycle = .created := by
    cases hlifecycle : s.lifecycle with
    | created => rfl
    | loading | «sealed» | closed =>
      rw [phase, hlifecycle] at hphase
      exact nomatch hphase
  refine ⟨init_eq_openPaged hkind totalNodes totalRels, ?_, ?_⟩
  · intro nodes payload
    obtain ⟨widths, hsearch, hlength⟩ :=
      Layout.search_settle_one s.options.codec extraBlocks nodes payload
    exact ⟨widths, hsearch, hsearch.pairwise.2, hlength⟩
  · rw [openPaged]
    cases hplan : s.lifecycle.plan s.options totalNodes totalRels with
    | error r =>
      rw [hcreated] at hplan
      exact Or.inl ⟨r.cause, rfl, rfl, Or.inr (Lifecycle.plan_created_eq_error hplan)⟩
    | ok sizing =>
      dsimp only
      cases harena : Arena.allocate extraBlocks s.options sizing with
      | error r => exact Or.inl ⟨r.cause, rfl, rfl, Or.inl (Arena.isCapacity_of_allocate harena)⟩
      | ok a =>
        have hnodes : totalNodes.toNat ≠ 0 := fun hzero ↦
          Lifecycle.totalNodes_ne_zero hplan (UInt64.toNat_inj.mp hzero)
        obtain ⟨-, -, rfl⟩ := Lifecycle.plan_eq_ok hplan
        exact Or.inr ⟨_, a, rfl, rfl, rfl, Arena.laidOut_allocate (Nat.pos_of_ne_zero hnodes)
          (Sizing.estimatedFanOut_le _ _ _) harena⟩

/-- Many additional blocks with the narrowest header, and few with any other. -/
def receding (_ blockSize : Nat) : Nat := if blockSize = 21 then 2 ^ 40 else 3

/-- With a header of one byte the limit is far away, and with the seven bytes that this needs it is
near: the search does not go back. -/
theorem openPaged_receding :
    (new .pagedBuffer doubling).kind = .pagedBuffer ∧
      (new .pagedBuffer doubling).phase = .created ∧
      ∃ sizing a,
        ((new .pagedBuffer doubling).openPaged receding 3 5).state.contents = .paged a ∧
        a.layout.headerLen = 7 ∧ a.layout.arenaLimit = 162 ∧
        a.LaidOut receding doubling sizing := by
  have hkind : (new .pagedBuffer doubling).kind = .pagedBuffer := by decide
  have hphase : (new .pagedBuffer doubling).phase = .created := by decide
  obtain ⟨-, -, ⟨cause, herror, -⟩ | ⟨sizing, a, -, hstate, -, hlaid⟩⟩ :=
    openPaged_laidOut hkind hphase receding 3 5
  · have hok : ((new .pagedBuffer doubling).openPaged receding 3 5).result = .ok () := by
      decide +kernel
    rw [hok] at herror
    exact nomatch herror
  · have hlayout : ((new .pagedBuffer doubling).openPaged receding 3 5).state.contents.layout?
        = some ⟨27, 7, 81, 162⟩ := by decide +kernel
    have hcontents : ((new .pagedBuffer doubling).openPaged receding 3 5).state.contents
        = .paged a := by rw [hstate]
    rw [hcontents] at hlayout
    have ha : a.layout = ⟨27, 7, 81, 162⟩ := Option.some.inj hlayout
    exact ⟨hkind, hphase, sizing, a, hcontents, by rw [ha], by rw [ha], hlaid⟩

end Store

end Adjacency
