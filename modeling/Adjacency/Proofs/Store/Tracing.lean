import Adjacency.Proofs.Store.Filed
import Adjacency.Proofs.Store.Timely

/-!
# What a trace tells

An append to an arena is answered by a trace. It is put together from what was found before anything
was written, the end of the chain and the last id there, and from what was written then, in that
block or in a new one. So it can be checked from outside (`AppendTrace.Truthful`): against the id
recorded last for the node, against the chain of the node before and after the append, and against
the bytes written. The chains of other nodes do not come up in it, and they do not change.

In a paged store every entry that is recorded is answered so, after any history
(`Store.trace_after`). The id before it is the one that the history recorded last for its node, as
far as the history itself tells.
-/

namespace Adjacency

/-! ## Longer chains as readers see them -/

namespace Page

variable (c : Codec) (ps : List Page) (p q : Page)

theorem dropLast_infos_congr (h : p.block = q.block) :
    (infos c ps p).dropLast = (infos c ps q).dropLast := by
  induction ps with
  | nil => rfl
  | cons r ps ih =>
    rw [infos, infos, List.dropLast_cons_of_ne_nil (infos_ne_nil c ps p),
      List.dropLast_cons_of_ne_nil (infos_ne_nil c ps q), ih, h]

theorem infos_concat :
    infos c (ps ++ [p]) q = (infos c ps p).dropLast ++
      [⟨p.block, p.used c, some q.block⟩, ⟨q.block, q.used c, none⟩] := by
  induction ps with
  | nil => rfl
  | cons r ps ih =>
    rw [List.cons_append, infos, infos, start_append, ih,
      List.dropLast_cons_of_ne_nil (infos_ne_nil c ps p), List.cons_append]

end Page

namespace Chain

variable (c : Codec) (k : Chain) (block : Nat) (d : Int64)

theorem head?_infos : (k.infos c).head?.map BlockInfo.offset = some k.start := by
  rw [← List.head?_map, offset_infos, blocks_eq_cons, List.head?_cons]

theorem infos_eq_concat :
    k.infos c = (k.infos c).dropLast ++ [⟨k.last.block, k.last.used c, none⟩] :=
  Page.infos_eq_concat

theorem infos_extend : (k.extend d).infos c = (k.infos c).dropLast ++
    [⟨k.last.block, k.last.used c + c.sizeInt64 d, none⟩] := by
  show Page.infos c k.full (k.last.extend d) = _
  rw [Page.infos_eq_concat, Page.dropLast_infos_congr c k.full (k.last.extend d) k.last rfl,
    Page.used_extend, Page.block_extend, infos]

theorem infos_turn : (k.turn block d).infos c = (k.infos c).dropLast ++
    [⟨k.last.block, k.last.used c, some block⟩, ⟨block, c.sizeInt64 d, none⟩] := by
  rw [← Page.used_singleton c d block]
  exact Page.infos_concat c k.full k.last ⟨block, [d]⟩

end Chain

/-! ## One append -/

/-- The trace tells what an append of `target` to `node` did: `a` is the arena before and `b` the
arena after it, `blocks` and `last` are the chain of the node before, and `prev` is the id that was
recorded there last. -/
structure AppendTrace.Truthful (t : AppendTrace) (a b : Arena) (nodes node : Nat)
    (prev target : NodeId) (blocks : List BlockInfo) (last : BlockInfo) : Prop where
  node_eq : t.node = node
  chain_eq : a.chain node = .ok (blocks ++ [last])
  startBlock_eq : (blocks ++ [last]).head?.map BlockInfo.offset = some t.startBlock
  pageHops_eq : t.pageHops = (blocks ++ [last]).length - 1
  lastValue_eq : t.lastValue = prev
  /-- The difference leads from the last id to the new one, in 64 bits that wrap around. -/
  add_delta : t.lastValue + UInt64.ofInt t.delta.toInt = target
  deltaLen_eq : t.deltaLen = a.codec.sizeInt64 t.delta
  tailLen_eq : t.tailLen = a.codec.sizeUInt64 target
  /-- A block is added exactly if the last one has no room. -/
  relocatedTo_iff : t.relocatedTo.isSome = true ↔
    a.layout.blockSize ≤ a.layout.headerLen + last.used + t.deltaLen + t.tailLen
  /-- Without a new block, the last one holds the difference as well. -/
  stays : t.relocatedTo = none → t.block = last.offset ∧ t.entryOffset = last.used ∧
    b.chain node = .ok (blocks ++ [{ last with used := last.used + t.deltaLen }])
  /-- A new block is linked behind the last one and holds the difference alone. -/
  moves : ∀ fresh, t.relocatedTo = some fresh → t.block = fresh ∧ t.entryOffset = 0 ∧
    b.chain node = .ok (blocks ++ [{ last with next := some fresh }, ⟨fresh, t.deltaLen, none⟩])
  others : ∀ n, n < nodes → n ≠ node → b.chain n = a.chain n
  bytesWritten_eq : b.bytesWritten = a.bytesWritten + (t.deltaLen + t.tailLen + t.headerLen)

namespace Arena

namespace Represents

variable {a b : Arena} {nodes room node n : Nat} {chains : Nat → Chain} {k : Chain}
  {target : UInt64} (h : a.Represents nodes room chains) (hn : node < nodes)

theorem chain_update_of_ne (hb : b.Represents nodes room (Function.update chains node k))
    (hcodec : b.codec = a.codec) (h : a.Represents nodes room chains) (hn : n < nodes)
    (hne : n ≠ node) : b.chain n = a.chain n := by
  rw [hb.chain_eq hn, h.chain_eq hn, Function.update_of_ne hne, hcodec]

theorem chain_update_self (hb : b.Represents nodes room (Function.update chains node k))
    (hcodec : b.codec = a.codec) (hn : node < nodes) :
    b.chain node = .ok (k.infos a.codec) := by
  rw [hb.chain_eq hn, Function.update_self, hcodec]

include h hn

/-- **The trace of an append tells what it did.** -/
theorem append_truthful {t : AppendTrace} (hok : (a.append node target).result = .ok t) :
    t.Truthful a (a.append node target).state nodes node (chains node).lastId target
      ((chains node).infos a.codec).dropLast
      ⟨(chains node).last.block, (chains node).last.used a.codec, none⟩ := by
  have hchain := h.chain_eq hn
  have hhead := Chain.head?_infos a.codec (chains node)
  have hhops : (chains node).full.length = ((chains node).infos a.codec).length - 1 := by
    rw [Chain.infos, Page.length_infos, Nat.add_sub_cancel]
  have hdelta := add_ofInt_sub (chains node).lastId target
  rw [Chain.infos_eq_concat] at hchain hhead hhops
  rcases h.append_cases hn target with ⟨hroom, heq⟩ | ⟨hfull, hle, capacity, -, heq⟩ |
    ⟨-, limit, requested, event, -, heq⟩
  · rw [heq] at hok ⊢
    cases hok
    refine ⟨rfl, hchain, hhead, hhops, rfl, hdelta, rfl, rfl, ?_, ?_, ?_, ?_, rfl⟩
    · exact iff_of_false Bool.false_ne_true (Nat.not_le_of_lt hroom)
    · intro _
      rw [(h.extend hn hroom).chain_update_self rfl hn, Chain.infos_extend]
      exact ⟨rfl, rfl, rfl⟩
    · rintro fresh ⟨⟩
    · intro n hlt hne
      exact (h.extend hn hroom).chain_update_of_ne rfl h hlt hne
  · rw [heq] at hok ⊢
    cases hok
    refine ⟨rfl, hchain, hhead, hhops, rfl, hdelta, rfl, rfl, ?_, ?_, ?_, ?_, rfl⟩
    · exact iff_of_true rfl hfull
    · rintro ⟨⟩
    · rintro fresh ⟨⟩
      rw [(h.turn hn hle hfull).chain_update_self rfl hn, Chain.infos_turn]
      exact ⟨rfl, rfl, rfl⟩
    · intro n hlt hne
      exact (h.turn hn hle hfull).chain_update_of_ne rfl h hlt hne
  · rw [heq] at hok
    cases hok

end Represents

end Arena

namespace Store

/-- **The trace of an entry tells the truth.** After any history of a paged store, an append that
answers is answered by a trace that tells what it did to the arena; and the id that it says was
recorded last for the node is the one that the history says. -/
theorem trace_after (options : Options) (calls : List Call) {node target : NodeId}
    {answer : Option AppendTrace}
    (hok : ((Outcome.after step (new .pagedBuffer options) calls).append node target).result
      = .ok answer) :
    let s := Outcome.after step (new .pagedBuffer options) calls
    let recorded := Entry.targetsOf (recordedIn (new .pagedBuffer options) calls) node
    ∃ sizing a b t blocks last, s.lifecycle.sizing? = some sizing ∧ s.contents = .paged a ∧
      (s.append node target).state.contents = .paged b ∧ answer = some t ∧
      t.Truthful a b sizing.totalNodes.toNat node.toNat (recorded.getLastD 0) target blocks
        last := by
  intro s recorded
  cases haccept : s.lifecycle.accept node target with
  | error r =>
    rw [append_of_refused haccept] at hok
    cases hok
  | ok admitted =>
    obtain ⟨i, l⟩ := admitted
    obtain ⟨sizing, n, hloading, hnode, -, -, rfl, -⟩ := Lifecycle.accept_eq_ok.mp haccept
    have hsizing : s.lifecycle.sizing? = some sizing := by rw [hloading]; rfl
    have hn := UInt64.lt_iff_toNat_lt.mp hnode
    obtain ⟨a, room, chains, hpaged, hrepresents, hids⟩ :=
      (filed_after .pagedBuffer options calls).records.exists_represents
        (lives_after .pagedBuffer options calls).kind_eq hsizing
    obtain ⟨hresult, hcontents⟩ := append_paged hpaged haccept
    rw [hresult] at hok
    cases ht : (a.append node.toNat target).result with
    | error cause =>
      rw [ht] at hok
      cases hok
    | ok t =>
      rw [ht] at hok
      cases hok
      have htruthful := hrepresents.append_truthful hn ht
      rw [Chain.lastId, hids _ hn, Entry.listed_toNat] at htruthful
      exact ⟨sizing, a, _, t, _, _, hsizing, hpaged, hcontents, rfl, htruthful⟩

/-- A history that leaves no room in the block of the first node. The last id there came from the
other end of a relationship. -/
def filled : List Call := .init 3 5 :: (overfill.take 7).map .add ++ [.addRelationship ⟨2, 0, 0⟩]

/-- The next id goes to a new block, and its trace tells the id that the relationship left. -/
theorem trace_after_filled :
    ∃ a b t blocks last,
      (Outcome.after step (new .pagedBuffer doubling) filled).contents = .paged a ∧
      ((Outcome.after step (new .pagedBuffer doubling) filled).append 0 1).result = .ok (some t) ∧
      t.relocatedTo = some 66 ∧
      ((Outcome.after step (new .pagedBuffer doubling) filled).append 0 1).state.contents
        = .paged b ∧
      t.Truthful a b 3 0 2 1 blocks last := by
  have hplace : ((Outcome.after step (new .pagedBuffer doubling) filled).append 0 1).result.map
      (Option.map AppendTrace.relocatedTo) = .ok (some (some 66)) := by decide +kernel
  have hopened : (Outcome.after step (new .pagedBuffer doubling) filled).lifecycle.sizing?
      = some ⟨3, 5, 2⟩ := by decide +kernel
  have hprev : (Entry.targetsOf (recordedIn (new .pagedBuffer doubling) filled) 0).getLastD 0
      = 2 := by decide +kernel
  cases hresult : ((Outcome.after step (new .pagedBuffer doubling) filled).append 0 1).result with
  | error cause =>
    rw [hresult] at hplace
    exact nomatch hplace
  | ok answer =>
    obtain ⟨sizing, a, b, t, blocks, last, hsizing, ha, hb, rfl, htruthful⟩ :=
      trace_after doubling filled hresult
    rw [hopened] at hsizing
    cases hsizing
    rw [hprev] at htruthful
    rw [hresult] at hplace
    have hrelocated : t.relocatedTo = some 66 := Option.some.inj (Except.ok.inj hplace)
    exact ⟨a, b, t, blocks, last, ha, rfl, hrelocated, hb, htruthful⟩

end Store

end Adjacency
