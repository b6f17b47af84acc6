import Adjacency.Proofs.Arena.Chain
import Adjacency.Proofs.Arena.Layout

/-!
# Chains in the bytes of an arena

An arena holds a page if the page's header word and the codes of its differences stand in the block
of the page. It holds a chain if it holds all its pages, the header word of each full page leads to
the page after it, the header word of the last page counts its bytes, and the code of the last id
follows the last difference.

Everything a reader does on a held chain is then determined: it finds the last page (`locate_eq`),
lists the blocks (`blocks_eq`) and reads the ids (`targets_eq`). A held page depends on the bytes of
its own block only, so a chain stays held as long as no one writes to its blocks
(`HoldsChain.frame`).
-/

namespace Adjacency

open Bytes (StandsAt)

/-! ## Blocks in a row -/

/-- Where the first of some pages begins; `stop` if there are none. -/
def Page.start : List Page → (stop : Nat) → Nat
  | [], stop => stop
  | p :: _, _ => p.block

theorem Page.start_append (ps : List Page) (p : Page) (stop : Nat) :
    Page.start (ps ++ [p]) stop = Page.start ps p.block := by
  cases ps <;> rfl

/-- The pages of a chain as a reader sees them. -/
def Page.infos (c : Codec) : List Page → (last : Page) → List BlockInfo
  | [], last => [⟨last.block, last.used c, none⟩]
  | p :: ps, last =>
    ⟨p.block, p.used c, some (Page.start ps last.block)⟩ :: Page.infos c ps last

/-- Where the first block of a chain begins. -/
def Chain.start (k : Chain) : Nat := Page.start k.full k.last.block

/-- The blocks of a chain as a reader sees them. -/
def Chain.infos (c : Codec) (k : Chain) : List BlockInfo := Page.infos c k.full k.last

theorem Chain.start_turn (k : Chain) (block : Nat) (d : Int64) :
    (k.turn block d).start = k.start :=
  Page.start_append k.full k.last block

namespace Arena

/-! ## Pages and chains in place -/

/-- The page stands in the arena, under the given header word. -/
structure Holds (a : Arena) (p : Page) (word : Nat) : Prop where
  header : StandsAt a.bytes p.block (a.codec.code .unsigned word)
  word_le : word ≤ a.layout.arenaLimit
  deltas : StandsAt a.bytes (p.block + a.layout.headerLen) (p.code a.codec)
  used_lt : a.layout.headerLen + p.used a.codec < a.layout.blockSize
  block_le : p.block + a.layout.blockSize ≤ a.bytes.size

/-- The pages stand in the arena, each leading to the next and the last of them to `stop`. None of
them is empty, and all links point forward. -/
def Links (a : Arena) : List Page → (stop : Nat) → Prop
  | [], _ => True
  | p :: ps, stop =>
    a.Holds p (Page.start ps stop + p.used a.codec) ∧ p.deltas ≠ [] ∧
      p.block < Page.start ps stop ∧ a.layout.blockSize ∣ Page.start ps stop ∧ a.Links ps stop

/-- The chain stands in the arena. -/
structure HoldsChain (a : Arena) (k : Chain) : Prop where
  links : a.Links k.full k.last.block
  last : a.Holds k.last (k.last.used a.codec)
  /-- The code of the last id follows the last difference. -/
  tail : k.last.deltas ≠ [] →
    StandsAt a.bytes (k.last.block + a.layout.headerLen + k.last.used a.codec)
      (a.codec.code .unsigned k.lastId.toNat)
  tail_lt : k.last.deltas ≠ [] →
    a.layout.headerLen + k.last.used a.codec + a.codec.sizeUInt64 k.lastId < a.layout.blockSize
  /-- A page is only added for a difference to go there. -/
  last_ne_nil : k.full ≠ [] → k.last.deltas ≠ []

variable {a : Arena} {nodes room : Nat} {p last : Page} {ps : List Page} {k : Chain}

theorem links_append {stop : Nat} :
    a.Links (ps ++ [p]) stop ↔
      a.Links ps p.block ∧ a.Holds p (stop + p.used a.codec) ∧ p.deltas ≠ [] ∧ p.block < stop ∧
        a.layout.blockSize ∣ stop := by
  induction ps with
  | nil => simp [Links, Page.start]
  | cons q ps ih =>
    rw [List.cons_append, Links, Links, ih, Page.start_append]
    simp only [and_assoc]

theorem Links.holds {stop : Nat} (h : a.Links ps stop) (hp : p ∈ ps) : ∃ word, a.Holds p word := by
  induction ps with
  | nil => exact absurd hp List.not_mem_nil
  | cons q ps ih =>
    obtain ⟨hq, -, -, -, hrest⟩ := h
    rcases List.mem_cons.mp hp with rfl | hp
    · exact ⟨_, hq⟩
    · exact ih hrest hp

theorem HoldsChain.holds (h : a.HoldsChain k) (hp : p ∈ k.pages) : ∃ word, a.Holds p word := by
  rcases List.mem_append.mp hp with hp | hp
  · exact h.links.holds hp
  · rw [List.mem_singleton.mp hp]
    exact ⟨_, h.last⟩

theorem Links.block_lt {stop : Nat} (h : a.Links ps stop) (hp : p ∈ ps) : p.block < stop := by
  induction ps generalizing p with
  | nil => exact absurd hp List.not_mem_nil
  | cons q ps ih =>
    obtain ⟨-, -, hforward, -, hrest⟩ := h
    have hstart : Page.start ps stop ≤ stop := by
      cases ps with
      | nil => exact Nat.le_refl stop
      | cons r ps => exact Nat.le_of_lt (ih hrest List.mem_cons_self)
    rcases List.mem_cons.mp hp with rfl | hp
    · exact Nat.lt_of_lt_of_le hforward hstart
    · exact ih hrest hp

theorem Links.dvd_block {stop : Nat} (h : a.Links ps stop)
    (hstart : a.layout.blockSize ∣ Page.start ps stop) (hp : p ∈ ps) :
    a.layout.blockSize ∣ p.block := by
  induction ps with
  | nil => exact absurd hp List.not_mem_nil
  | cons q ps ih =>
    obtain ⟨-, -, -, hdvd, hrest⟩ := h
    rcases List.mem_cons.mp hp with rfl | hp
    · exact hstart
    · exact ih hrest hdvd hp

theorem HoldsChain.dvd_block (h : a.HoldsChain k) (hstart : a.layout.blockSize ∣ k.start)
    (hp : p ∈ k.pages) : a.layout.blockSize ∣ p.block := by
  have hlinks : a.Links k.full k.last.block := h.links
  rcases List.mem_append.mp hp with hp | hp
  · exact hlinks.dvd_block hstart hp
  · rw [List.mem_singleton.mp hp]
    -- The last block begins where the last full page leads to.
    rcases List.eq_nil_or_concat k.full with hnil | ⟨ps, q, hfull⟩
    · rw [Chain.start, hnil] at hstart
      exact hstart
    · rw [hfull, List.concat_eq_append, links_append] at hlinks
      exact hlinks.2.2.2.2

/-! ## Following links -/

section Reading

variable (hl : a.layout.Sound a.codec nodes room)

include hl

theorem Holds.header_eq {word : Nat} (h : a.Holds p word) : a.header p.block = .ok word := by
  have hfits := hl.size_le_headerLen h.word_le
  rw [Arena.header, a.codec.get_of_standsAt h.header (hl.admits h.word_le) (by omega)]
  simp

omit hl in
theorem linked?_eq {block next used : Nat} (hdvd : a.layout.blockSize ∣ next) (hlt : block < next)
    (hle : next + a.layout.blockSize ≤ a.bytes.size) (hused : used < a.layout.blockSize) :
    a.linked? block (next + used) = some next := by
  obtain ⟨m, rfl⟩ := hdvd
  have hmod : (a.layout.blockSize * m + used) % a.layout.blockSize = used := by
    rw [Nat.mul_add_mod, Nat.mod_eq_of_lt hused]
  rw [linked?, hmod, Nat.add_sub_cancel, if_pos ⟨hlt, hle⟩]

omit hl in
theorem Links.start_le {stop : Nat} (h : a.Links ps stop)
    (hstop : stop + a.layout.blockSize ≤ a.bytes.size) :
    Page.start ps stop + a.layout.blockSize ≤ a.bytes.size := by
  cases ps with
  | nil => exact hstop
  | cons p ps => exact h.1.block_le

omit hl in
theorem Links.linked?_next (h : a.Links (p :: ps) last.block)
    (hlast : a.Holds last (last.used a.codec)) :
    a.linked? p.block (Page.start ps last.block + p.used a.codec)
      = some (Page.start ps last.block) := by
  obtain ⟨hp, -, hforward, hdvd, hrest⟩ := h
  have hlt := hp.used_lt
  exact linked?_eq hdvd hforward (hrest.start_le hlast.block_le) (by omega)

theorem locate_eq_of_links (h : a.Links ps last.block)
    (hlast : a.Holds last (last.used a.codec)) :
    a.locate (Page.start ps last.block) = .ok ⟨last.block, last.used a.codec, ps.length⟩ := by
  induction ps with
  | nil =>
    have hlt := hlast.used_lt
    rw [Page.start, locate, hlast.header_eq hl]
    dsimp only
    rw [if_pos (by omega), List.length_nil]
  | cons p ps ih =>
    have hlink := h.linked?_next hlast
    obtain ⟨hp, -, hforward, hdvd, hrest⟩ := h
    have hge := Nat.le_of_dvd (by omega) hdvd
    rw [Page.start, locate, hp.header_eq hl]
    dsimp only
    rw [if_neg (by omega)]
    split
    · next hnone => rw [hlink] at hnone; cases hnone
    · next next hsome =>
      rw [hlink] at hsome
      cases hsome
      rw [ih hrest]
      rfl

theorem blocks_eq_of_links (h : a.Links ps last.block)
    (hlast : a.Holds last (last.used a.codec)) :
    a.blocks (Page.start ps last.block) = .ok (Page.infos a.codec ps last) := by
  induction ps with
  | nil =>
    have hlt := hlast.used_lt
    rw [Page.start, blocks, hlast.header_eq hl]
    dsimp only
    rw [if_pos (by omega), Page.infos]
  | cons p ps ih =>
    have hlink := h.linked?_next hlast
    obtain ⟨hp, -, hforward, hdvd, hrest⟩ := h
    have hlt := hp.used_lt
    have hge := Nat.le_of_dvd (by omega) hdvd
    have hused : p.used a.codec < a.layout.blockSize := by omega
    have hmod : (Page.start ps last.block + p.used a.codec) % a.layout.blockSize
        = p.used a.codec := by
      obtain ⟨m, hm⟩ := hdvd
      rw [hm, Nat.mul_add_mod, Nat.mod_eq_of_lt hused]
    rw [Page.start, blocks, hp.header_eq hl]
    dsimp only
    rw [if_neg (by omega)]
    split
    · next hnone => rw [hlink] at hnone; cases hnone
    · next next hsome =>
      rw [hlink] at hsome
      cases hsome
      rw [ih hrest]
      dsimp only
      rw [hmod, Page.infos]

theorem HoldsChain.locate_eq (h : a.HoldsChain k) :
    a.locate k.start = .ok ⟨k.last.block, k.last.used a.codec, k.full.length⟩ :=
  locate_eq_of_links hl h.links h.last

theorem HoldsChain.blocks_eq (h : a.HoldsChain k) : a.blocks k.start = .ok (k.infos a.codec) :=
  blocks_eq_of_links hl h.links h.last

end Reading

/-! ## Reading ids -/

theorem Holds.deltas_eq {word : Nat} (h : a.Holds p word) (next : Option Nat) :
    a.deltas ⟨p.block, p.used a.codec, next⟩ = .ok p.ints := by
  have hlt := h.used_lt
  rw [Arena.deltas]
  dsimp only
  rw [if_neg (by rw [Codec.size_zero]; omega)]
  exact a.codec.getAll_of_standsAt p.admits_ints h.deltas

theorem chainDeltas_of_links (h : a.Links ps last.block)
    (hlast : a.Holds last (last.used a.codec)) :
    a.chainDeltas (Page.infos a.codec ps last) = .ok ((ps ++ [last]).flatMap Page.ints) := by
  induction ps with
  | nil =>
    rw [Page.infos, chainDeltas, hlast.deltas_eq]
    dsimp only
    rw [chainDeltas]
    simp
  | cons p ps ih =>
    obtain ⟨hp, -, -, -, hrest⟩ := h
    rw [Page.infos, chainDeltas, hp.deltas_eq]
    dsimp only
    rw [ih hrest]
    rfl

/-- **The ids of a held chain are read back.** -/
theorem HoldsChain.targets_eq (hl : a.layout.Sound a.codec nodes room) (h : a.HoldsChain k)
    {node : Nat} (hroot : a.root node = k.start) : a.targets node = .ok k.ids := by
  rw [targets, chain, hroot, h.blocks_eq hl]
  dsimp only
  rw [Chain.infos, chainDeltas_of_links h.links h.last]
  rfl

theorem HoldsChain.lastValue_eq (h : a.HoldsChain k) :
    a.lastValue ⟨k.last.block, k.last.used a.codec, k.full.length⟩ = .ok k.lastId := by
  rw [lastValue]
  dsimp only
  by_cases hempty : k.last.deltas = []
  · -- The only page without differences is the first one of a chain that holds nothing.
    have hfull : k.full = [] :=
      Classical.byContradiction fun hne ↦ h.last_ne_nil hne hempty
    have hids : k.ids = [] := by
      simp [Chain.ids, Chain.deltas, Chain.pages, hfull, Page.ints, hempty, sums]
    rw [if_pos ((Page.used_eq_zero a.codec k.last).mpr hempty), hfull, List.length_nil,
      if_neg (Nat.lt_irrefl 0), Chain.lastId, hids]
    rfl
  · have htail := h.tail_lt hempty
    have hused : k.last.used a.codec ≠ 0 := fun h0 ↦
      hempty ((Page.used_eq_zero a.codec k.last).mp h0)
    rw [if_neg hused, a.codec.getUInt64_of_standsAt (h.tail hempty) (by omega)]

/-! ## What other writes leave alone -/

/-- The arena has grown from `old`, or stayed as large, and the block is as it was there. -/
structure SameOn (old new : Arena) (block : Nat) : Prop where
  codec : new.codec = old.codec
  layout : new.layout = old.layout
  size_le : old.bytes.size ≤ new.bytes.size
  bytes : ∀ i, block ≤ i → i < block + old.layout.blockSize → new.bytes[i]? = old.bytes[i]?

section Frame

variable {new : Arena} (hl : a.layout.Sound a.codec nodes room)

include hl

theorem Holds.frame {word : Nat} (h : a.Holds p word) (hsame : SameOn a new p.block) :
    new.Holds p word := by
  have hfits := hl.size_le_headerLen h.word_le
  have hlt := h.used_lt
  have hused : (p.code a.codec).length = p.used a.codec := rfl
  refine ⟨?_, ?_, ?_, ?_, ?_⟩
  · rw [hsame.codec]
    refine h.header.congr fun i hlo hhi ↦ hsame.bytes i hlo ?_
    rw [Codec.length_code] at hhi
    omega
  · rw [hsame.layout]
    exact h.word_le
  · rw [hsame.codec, hsame.layout]
    exact h.deltas.congr fun i hlo hhi ↦ hsame.bytes i (by omega) (by omega)
  · rw [hsame.codec, hsame.layout]
    exact h.used_lt
  · rw [hsame.layout]
    exact Nat.le_trans h.block_le hsame.size_le

theorem Links.frame {stop : Nat} (hlayout : new.layout = a.layout) (h : a.Links ps stop)
    (hsame : ∀ p ∈ ps, SameOn a new p.block) : new.Links ps stop := by
  induction ps with
  | nil => trivial
  | cons p ps ih =>
    obtain ⟨hp, hdeltas, hforward, hdvd, hrest⟩ := h
    have hpsame := hsame p List.mem_cons_self
    refine ⟨?_, hdeltas, hforward, ?_, ih hrest fun q hq ↦ hsame q (List.mem_cons_of_mem p hq)⟩
    · rw [hpsame.codec]
      exact hp.frame hl hpsame
    · rw [hlayout]
      exact hdvd

theorem HoldsChain.frame (h : a.HoldsChain k) (hsame : ∀ p ∈ k.pages, SameOn a new p.block) :
    new.HoldsChain k := by
  have hlast : SameOn a new k.last.block :=
    hsame k.last (List.mem_append_right _ List.mem_cons_self)
  have hfull : ∀ p ∈ k.full, SameOn a new p.block := fun p hp ↦
    hsame p (List.mem_append_left _ hp)
  refine ⟨h.links.frame hl hlast.layout hfull, ?_, ?_, ?_, h.last_ne_nil⟩
  · rw [hlast.codec]
    exact h.last.frame hl hlast
  · -- The last id ends before its block does.
    intro hne
    have htail := h.tail_lt hne
    rw [hlast.codec, hlast.layout]
    refine (h.tail hne).congr fun i hlo hhi ↦ hlast.bytes i (by omega) ?_
    rw [Codec.length_code] at hhi
    rw [Codec.sizeUInt64] at htail
    omega
  · rw [hlast.codec, hlast.layout]
    exact h.tail_lt

end Frame

end Arena

end Adjacency
