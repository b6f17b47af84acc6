import Adjacency.Proofs.Store.Partition

/-!
# Where an append writes

The calls of an arena read header words, ids and differences back, and most of their failures are
about bytes that make no sense: a link that leads nowhere, a block that holds more than it has room
for, a code that does not fit. In an arena that represents chains none of these come up. An append
to a node finds every block of the node's chain inside the arena, and writes to the last of them and
to the block that it adds, if it adds one (`Confined`). If it cannot add one, nothing is written.

For a store this leaves two ways to fail (`Store.confined_after`): an entry is not admitted, or
there is no memory for another block.
-/

namespace Adjacency

/-- The failure is about bytes that a store wrote itself, or about a code that did not fit where the
store meant it to go. -/
def Error.isInternal : Error → Bool
  | .decode _ => true
  | .capacityExceeded .varintDestination _ _ => true
  | .capacityExceeded .lengthPrefixedDestination _ _ => true
  | _ => false

/-- The block lies in the arena, and its header and the differences it holds lie in the block, which
is not full to the last byte. -/
structure BlockInfo.Inside (b : BlockInfo) (a : Arena) : Prop where
  used_lt : a.layout.headerLen + b.used < a.layout.blockSize
  offset_le : b.offset + a.layout.blockSize ≤ a.bytes.size

/-! ## Chains as readers see them -/

namespace Page

variable {c : Codec} {ps : List Page} {last : Page}

theorem exists_of_mem_infos {b : BlockInfo} (hb : b ∈ infos c ps last) :
    ∃ p ∈ ps ++ [last], b.offset = p.block ∧ b.used = p.used c := by
  induction ps with
  | nil =>
    rw [infos, List.mem_singleton] at hb
    exact ⟨last, List.mem_cons_self, by rw [hb], by rw [hb]⟩
  | cons p ps ih =>
    rcases List.mem_cons.mp hb with rfl | hb
    · exact ⟨p, List.mem_cons_self, rfl, rfl⟩
    · obtain ⟨q, hq, heq⟩ := ih hb
      exact ⟨q, List.mem_cons_of_mem p hq, heq⟩

theorem infos_eq_concat :
    infos c ps last = (infos c ps last).dropLast ++ [⟨last.block, last.used c, none⟩] := by
  induction ps with
  | nil => rfl
  | cons p ps ih =>
    rw [infos, List.dropLast_cons_of_ne_nil (infos_ne_nil c ps last), List.cons_append, ← ih]

end Page

namespace Arena

/-! ## One append -/

/-- What an append did to an arena: `old` is the arena before and `new` the arena after it, `blocks`
and `last` are the chain of the node before, and `t` tells where the id went. -/
structure Confined (old new : Arena) (node : Nat) (blocks : List BlockInfo) (last : BlockInfo)
    (t : AppendTrace) : Prop where
  chain_eq : old.chain node = .ok (blocks ++ [last])
  /-- Everything that was read on the way lies in the arena. -/
  inside : ∀ b ∈ blocks ++ [last], b.Inside old
  layout_eq : new.layout = old.layout
  /-- A block is only added at the end of the arena. -/
  relocatedTo_eq : t.relocatedTo = none ∧ new.bytes.size = old.bytes.size ∨
    t.relocatedTo = some old.nextFree ∧ old.nextFree = old.bytes.size ∧
      new.bytes.size = old.bytes.size + old.layout.blockSize
  /-- The id went to the block that was added, or else to the last one. -/
  block_eq : t.block = t.relocatedTo.getD last.offset
  block_le : t.block + old.layout.blockSize ≤ new.bytes.size
  /-- The difference and the id end before the block does. -/
  entry_lt : old.layout.headerLen + t.entryOffset + t.deltaLen + t.tailLen < old.layout.blockSize
  /-- No other bytes change. -/
  frame : ∀ i, (i < last.offset ∨ last.offset + old.layout.blockSize ≤ i) →
    (∀ fresh, t.relocatedTo = some fresh → i < fresh ∨ fresh + old.layout.blockSize ≤ i) →
      new.bytes[i]? = old.bytes[i]?

namespace Represents

variable {a : Arena} {nodes room node : Nat} {chains : Nat → Chain} {target : UInt64}
  (h : a.Represents nodes room chains) (hn : node < nodes)

include h hn

theorem inside {b : BlockInfo} (hb : b ∈ (chains node).infos a.codec) : b.Inside a := by
  obtain ⟨p, hp, hoffset, hused⟩ := Page.exists_of_mem_infos hb
  obtain ⟨word, hword⟩ := (h.holds node hn).holds hp
  refine ⟨?_, ?_⟩
  · rw [hused]
    exact hword.used_lt
  · rw [hoffset]
    exact hword.block_le

/-- **An append writes to the last block of its node and to the block it adds,** or there is no
memory for it and nothing is written. -/
theorem append_confined (target : UInt64) :
    (∃ t blocks last, (a.append node target).result = .ok t ∧
      a.Confined (a.append node target).state node blocks last t) ∨
    ∃ limit requested,
      (a.append node target).result = .error (.capacityExceeded .pagedArena limit requested) ∧
      (a.append node target).state = a := by
  have hk := h.holds node hn
  have hchain := h.chain_eq hn
  have hinside : ∀ b ∈ (chains node).infos a.codec, b.Inside a := fun b hb ↦ h.inside hn hb
  have hlast := hk.last.block_le
  rw [Chain.infos, Page.infos_eq_concat] at hchain hinside
  rcases h.append_cases hn target with ⟨hroom, heq⟩ | ⟨hfull, hle, capacity, -, heq⟩ |
    ⟨-, limit, requested, event, -, heq⟩
  · rw [heq]
    refine Or.inl ⟨_, _, _, rfl, hchain, hinside, rfl, ?_, rfl, ?_, hroom, ?_⟩
    · exact Or.inl ⟨rfl, size_bytes_placed _ _ _ _⟩
    · rw [size_bytes_placed]
      exact hlast
    · intro i hi _
      exact getElem?_placed (hk.fits_lastSlot h.sound h.size_le hroom) hi
  · rw [heq]
    refine Or.inl ⟨_, _, _, rfl, hchain, hinside, rfl, ?_, rfl, ?_, ?_, ?_⟩
    · refine Or.inr ⟨congrArg some h.nextFree_eq.symm, h.nextFree_eq, ?_⟩
      rw [size_bytes_placed, size_bytes_linked]
    · rw [size_bytes_placed, size_bytes_linked]
      exact Nat.le_refl _
    · exact h.sound.headerLen_add_lt h.room_pos ((chains node).step target) target
    · intro i hi hfresh
      have hnew : i < a.bytes.size ∨ a.bytes.size + a.layout.blockSize ≤ i := hfresh _ rfl
      rw [getElem?_placed (fits_newSlot h.sound h.room_pos hle) hnew]
      rcases hnew with hlt | hge
      · exact getElem?_linked h.sound hk hle hlt hi
      · rw [Array.getElem?_eq_none (by rw [size_bytes_linked]; exact hge),
          Array.getElem?_eq_none (by omega)]
  · rw [heq]
    exact Or.inr ⟨limit, requested, rfl, rfl⟩

end Represents

end Arena

/-! ## Opened stores -/

namespace Lifecycle

variable {l l' : Lifecycle} {node target : NodeId} {sizing : Sizing} {i : Nat} {r : Refusal}

theorem lt_of_accept (h : l.accept node target = .ok (i, l')) (hsizing : l.sizing? = some sizing) :
    i = node.toNat ∧ node.toNat < sizing.totalNodes.toNat := by
  obtain ⟨_, n, rfl, hnode, -, -, rfl, -⟩ := accept_eq_ok.mp h
  cases hsizing
  exact ⟨rfl, UInt64.lt_iff_toNat_lt.mp hnode⟩

theorem isInternal_of_accept (h : l.accept node target = .error r) :
    r.cause.isInternal = false := by
  rcases accept_eq_error h with ⟨v, hcause⟩ | ⟨sizing, id, hcause⟩ | ⟨_, _, -, -, -, -, hcause⟩
  · rw [hcause]
    rfl
  · rw [hcause]
    rfl
  · rw [hcause]
    rfl

theorem isInternal_of_startRead (h : l.startRead node = .error r) :
    r.cause.isInternal = false := by
  cases l with
  | created | closed => cases h; rfl
  | loading sizing n | «sealed» sizing n =>
    rw [startRead] at h
    split at h
    · cases h
    · cases h
      rfl

theorem startRead_cases (hsizing : l.sizing? = some sizing) (node : NodeId) :
    (∃ r, l.startRead node = .error r ∧ r.cause.isInternal = false) ∨
      ∃ l', l.startRead node = .ok (node.toNat, l') ∧ node.toNat < sizing.totalNodes.toNat := by
  cases hread : l.startRead node with
  | error r => exact Or.inl ⟨r, rfl, isInternal_of_startRead hread⟩
  | ok began =>
    obtain ⟨i, l'⟩ := began
    obtain ⟨rfl, sizing', hsizing', hnode⟩ := lt_of_startRead hread
    rw [hsizing] at hsizing'
    cases hsizing'
    exact Or.inr ⟨l', rfl, UInt64.lt_iff_toNat_lt.mp hnode⟩

end Lifecycle

namespace Store

theorem represents_after (options : Options) (calls : List Call) {totalNodes totalRels : UInt64}
    (hinit : Call.init totalNodes totalRels
      ∈ Outcome.answered step (new .pagedBuffer options) calls) :
    ∃ sizing a room chains,
      (Outcome.after step (new .pagedBuffer options) calls).lifecycle.sizing? = some sizing ∧
      sizing.totalNodes = totalNodes ∧
      (Outcome.after step (new .pagedBuffer options) calls).contents = .paged a ∧
      a.Represents totalNodes.toNat room chains := by
  have hlives := lives_after .pagedBuffer options calls
  obtain ⟨sizing, hsizing, rfl, -⟩ := hlives.sizing_eq _ _ hinit
  obtain ⟨rs, hcounted⟩ := hlives.counted
  obtain ⟨lists, hrecords⟩ := hcounted.records
  obtain ⟨a, room, chains, hpaged, hrepresents, -⟩ :=
    hrecords.exists_represents hlives.kind_eq hsizing
  exact ⟨sizing, a, room, chains, hsizing, rfl, hpaged, hrepresents⟩

theorem append_paged {s : Store} {a : Arena} (hpaged : s.contents = .paged a) {node target : NodeId}
    {i : Nat} {l : Lifecycle} (haccept : s.lifecycle.accept node target = .ok (i, l)) :
    (s.append node target).result = (a.append i target).result.map some ∧
      (s.append node target).state.contents = .paged (a.append i target).state := by
  obtain ⟨hresult, -, hcontents⟩ := append_of_accepted haccept
  rw [hresult, hcontents, hpaged, Contents.append]
  rcases a.append i target with ⟨result, b, events⟩
  cases result with
  | ok t => exact ⟨rfl, rfl⟩
  | error e => exact ⟨rfl, rfl⟩

section Paged

variable {s : Store} {a : Arena} {sizing : Sizing} {room : Nat} {chains : Nat → Chain}
  {node : NodeId} {cause : Error} (hpaged : s.contents = .paged a)
  (hsizing : s.lifecycle.sizing? = some sizing)
  (h : a.Represents sizing.totalNodes.toNat room chains)

include hpaged hsizing h

/-- **The outcomes of an append to a paged store:** it is not admitted, there is no memory for it, or
it writes to the blocks of its node. -/
theorem append_paged_cases (node target : NodeId) :
    (∃ r, s.lifecycle.accept node target = .error r ∧ r.cause.isInternal = false ∧
      (s.append node target).result = .error r.cause ∧
      (s.append node target).state.contents = .paged a) ∨
    (∃ limit requested,
      (s.append node target).result = .error (.capacityExceeded .pagedArena limit requested) ∧
      (s.append node target).state.contents = .paged a) ∨
    ∃ b blocks last t, (s.append node target).result = .ok (some t) ∧
      (s.append node target).state.contents = .paged b ∧
      a.Confined b node.toNat blocks last t := by
  cases haccept : s.lifecycle.accept node target with
  | error r =>
    refine Or.inl ⟨r, rfl, Lifecycle.isInternal_of_accept haccept, ?_⟩
    rw [append_of_refused haccept]
    exact ⟨rfl, hpaged⟩
  | ok admitted =>
    obtain ⟨i, l⟩ := admitted
    obtain ⟨rfl, hnode⟩ := Lifecycle.lt_of_accept haccept hsizing
    obtain ⟨hresult, hcontents⟩ := append_paged hpaged haccept
    rw [hresult, hcontents]
    rcases h.append_confined hnode target with ⟨t, blocks, last, hok, hconfined⟩ |
      ⟨limit, requested, hfail, hsame⟩
    · rw [hok]
      exact Or.inr (Or.inr ⟨_, blocks, last, t, rfl, rfl, hconfined⟩)
    · rw [hfail, hsame]
      exact Or.inr (Or.inl ⟨limit, requested, rfl, rfl⟩)

theorem isInternal_of_targets (herror : (s.targets node).result = .error cause) :
    cause.isInternal = false := by
  rw [targets] at herror
  rcases Lifecycle.startRead_cases hsizing node with ⟨r, hread, hcause⟩ | ⟨l, hread, hnode⟩
  · rw [hread] at herror
    cases herror
    exact hcause
  · rw [hread] at herror
    dsimp only at herror
    rw [hpaged, Contents.targets, h.targets_eq hnode] at herror
    cases herror

theorem isInternal_of_chain (herror : (s.chain node).result = .error cause) :
    cause.isInternal = false := by
  rw [chain, hpaged] at herror
  dsimp only at herror
  rcases Lifecycle.startRead_cases hsizing node with ⟨r, hread, hcause⟩ | ⟨l, hread, hnode⟩
  · rw [hread] at herror
    cases herror
    exact hcause
  · rw [hread] at herror
    dsimp only at herror
    rw [h.chain_eq hnode] at herror
    cases herror

end Paged

/-- **A paged store fails for outside reasons only, and its writes stay in their blocks.** After any
history in which the store was opened:

* an entry fails only if it is not admitted or there is no memory for another block, and then the
  arena is as it was;
* an entry that is recorded changes bytes of the last block of its node only, and of a new block if
  one was added;
* the chain and the list of every node can be read, in blocks that lie in the arena;
* a read fails for outside reasons only. -/
theorem confined_after (options : Options) (calls : List Call) {totalNodes totalRels : UInt64}
    (hinit : Call.init totalNodes totalRels
      ∈ Outcome.answered step (new .pagedBuffer options) calls) :
    let s := Outcome.after step (new .pagedBuffer options) calls
    ∃ a, s.contents = .paged a ∧
      (∀ node target cause, (s.append node target).result = .error cause →
        (s.append node target).state.contents = .paged a ∧ cause.isInternal = false ∧
          ((∃ r, s.lifecycle.accept node target = .error r ∧ cause = r.cause) ∨
            ∃ limit requested, cause = .capacityExceeded .pagedArena limit requested)) ∧
      (∀ node target answer, (s.append node target).result = .ok answer →
        ∃ b blocks last t, answer = some t ∧ (s.append node target).state.contents = .paged b ∧
          a.Confined b node.toNat blocks last t) ∧
      (∀ node, node < totalNodes → ∃ blocks ids, a.chain node.toNat = .ok blocks ∧
        a.targets node.toNat = .ok ids ∧ ∀ b ∈ blocks, b.Inside a) ∧
      ∀ node cause, ((s.targets node).result = .error cause → cause.isInternal = false) ∧
        ((s.chain node).result = .error cause → cause.isInternal = false) := by
  intro s
  obtain ⟨sizing, a, room, chains, hsizing, rfl, hpaged, h⟩ := represents_after options calls hinit
  refine ⟨a, hpaged, ?_, ?_, ?_, ?_⟩
  · intro node target cause herror
    rcases append_paged_cases hpaged hsizing h node target with
      ⟨r, hrefused, hcause, hfail, hsame⟩ | ⟨limit, requested, hfail, hsame⟩ |
      ⟨_, _, _, _, hok, -⟩
    · rw [hfail] at herror
      cases herror
      exact ⟨hsame, hcause, Or.inl ⟨r, hrefused, rfl⟩⟩
    · rw [hfail] at herror
      cases herror
      exact ⟨hsame, rfl, Or.inr ⟨limit, requested, rfl⟩⟩
    · rw [hok] at herror
      cases herror
  · intro node target answer hanswer
    rcases append_paged_cases hpaged hsizing h node target with
      ⟨_, -, -, hfail, -⟩ | ⟨_, _, hfail, -⟩ | ⟨b, blocks, last, t, hok, hcontents, hconfined⟩
    · rw [hfail] at hanswer
      cases hanswer
    · rw [hfail] at hanswer
      cases hanswer
    · rw [hok] at hanswer
      cases hanswer
      exact ⟨b, blocks, last, t, rfl, hcontents, hconfined⟩
  · intro node hnode
    have hn := UInt64.lt_iff_toNat_lt.mp hnode
    exact ⟨_, _, h.chain_eq hn, h.targets_eq hn, fun b hb ↦ h.inside hn hb⟩
  · intro node cause
    exact ⟨isInternal_of_targets hpaged hsizing h, isInternal_of_chain hpaged hsizing h⟩

/-- A history that leaves no room in the block of the first node. -/
def brimful : List Call := .init 3 5 :: (overfill.take 8).map .add

/-- The ninth entry goes to a new block. -/
theorem confined_after_brimful :
    Call.init 3 5 ∈ Outcome.answered step (new .pagedBuffer doubling) brimful ∧
      ∃ a b blocks last t,
        (Outcome.after step (new .pagedBuffer doubling) brimful).contents = .paged a ∧
        ((Outcome.after step (new .pagedBuffer doubling) brimful).append 0 1).result
          = .ok (some t) ∧
        t.relocatedTo = some 66 ∧
        ((Outcome.after step (new .pagedBuffer doubling) brimful).append 0 1).state.contents
          = .paged b ∧
        a.Confined b 0 blocks last t := by
  have hinit : Call.init 3 5 ∈ Outcome.answered step (new .pagedBuffer doubling) brimful := by
    decide +kernel
  have hplace : ((Outcome.after step (new .pagedBuffer doubling) brimful).append 0 1).result.map
      (Option.map AppendTrace.relocatedTo) = .ok (some (some 66)) := by decide +kernel
  obtain ⟨a, ha, -, hok, -, -⟩ := confined_after doubling brimful hinit
  cases hresult : ((Outcome.after step (new .pagedBuffer doubling) brimful).append 0 1).result with
  | error cause =>
    rw [hresult] at hplace
    exact nomatch hplace
  | ok answer =>
    obtain ⟨b, blocks, last, t, rfl, hb, hconfined⟩ := hok 0 1 answer hresult
    rw [hresult] at hplace
    have hrelocated : t.relocatedTo = some 66 := Option.some.inj (Except.ok.inj hplace)
    exact ⟨hinit, a, b, blocks, last, t, ha, rfl, hrelocated, hb, hconfined⟩

end Store

end Adjacency
