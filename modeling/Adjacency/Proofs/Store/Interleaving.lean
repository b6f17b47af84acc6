import Adjacency.Proofs.Arena.Shape
import Adjacency.Proofs.Store.BothEnds
import Adjacency.Proofs.Store.Confinement

/-!
# Interleaved entries

Entries for different nodes can come in any order. Where the blocks of a node lie, and what they
link to, depends on that order. Everything else is determined by the lists of the nodes: a store
that recorded some lists has the pages, the memory and the counters that these lists call for
(`Reached`), and whether all entries can be recorded is a property of the lists as well
(`Affordable`). So a history may be replaced by any other with the same entries for each node, in the
same order for each (`Store.same_after_interleaving`).

The key is the equivalence in `Reached.add_cases`: from a store that recorded some lists, an entry is
recorded exactly if the lists with the entry are affordable.
-/

namespace Adjacency

/-! ## The lists of a history -/

namespace Entry

/-- The lists that some entries make. -/
def listed (entries : List Entry) : Nat → List NodeId :=
  entries.foldl (fun lists e ↦ e.enter lists) fun _ ↦ []

theorem listed_concat (entries : List Entry) (e : Entry) :
    listed (entries ++ [e]) = e.enter (listed entries) := by
  rw [listed, List.foldl_append]
  rfl

theorem targetsOf_append (entries more : List Entry) (node : NodeId) :
    targetsOf (entries ++ more) node = targetsOf entries node ++ targetsOf more node := by
  rw [targetsOf, List.filter_append, List.map_append]
  rfl

theorem listed_toNat (entries : List Entry) (node : NodeId) :
    listed entries node.toNat = targetsOf entries node := by
  induction entries using List.reverseRecOn with
  | nil => rfl
  | append_singleton entries e ih =>
    rw [listed_concat, targetsOf_append, targetsOf_cons, ← ih]
    by_cases hnode : e.node = node
    · rw [← hnode, enter_self, if_pos rfl]
      rfl
    · rw [enter_toNat_of_ne hnode, if_neg hnode]
      exact (List.append_nil _).symm

theorem listed_of_le (entries : List Entry) {n : Nat} (hn : UInt64.size ≤ n) :
    listed entries n = [] := by
  induction entries using List.reverseRecOn with
  | nil => rfl
  | append_singleton entries e ih =>
    have hlt := e.node.toNat_lt_size
    rw [listed_concat, enter_of_ne (by omega), ih]

theorem listed_congr {entries others : List Entry}
    (h : ∀ node, targetsOf entries node = targetsOf others node) :
    listed entries = listed others := by
  funext n
  rcases Nat.lt_or_ge n UInt64.size with hlt | hge
  · have hn : (UInt64.ofNat n).toNat = n := UInt64.toNat_ofNat_of_lt' hlt
    rw [← hn, listed_toNat, listed_toNat, h]
  · rw [listed_of_le entries hge, listed_of_le others hge]

end Entry

/-! ## What lists call for -/

/-- The links that an event says were followed. -/
def Event.hops : Event → Nat
  | .pageHops hops => hops
  | _ => 0

/-- The counters after some more entries, relocations and links. -/
def Metrics.credit (m : Metrics) (entries relocations hops : Nat) : Metrics :=
  match m with
  | .discard => .discard
  | .counting c => .counting {
      targetsAdded := c.targetsAdded + UInt64.ofNat entries
      blocksRelocated := c.blocksRelocated + UInt64.ofNat relocations
      pageHops := c.pageHops + UInt64.ofNat hops
      arraysGrown := c.arraysGrown }

theorem Metrics.credit_zero (m : Metrics) : m.credit 0 0 0 = m := by
  cases m with
  | discard => rfl
  | counting c => simp [credit]

theorem Metrics.record_of_room (m : Metrics) (entries relocations hops more : Nat) :
    (m.credit entries relocations hops).record ([.pageHops more] ++ [.targetAdded])
      = m.credit (entries + 1) relocations (hops + more) := by
  cases m with
  | discard => rfl
  | counting c =>
    simp [credit, record, add, Counters.add, Event.measure?, UInt64.ofNat_add, UInt64.add_assoc]

theorem Metrics.record_of_relocated (m : Metrics)
    (entries relocations hops more node source destination used : Nat) :
    (m.credit entries relocations hops).record
        ([.pageHops more, .blockRelocated node source destination used more] ++ [.targetAdded])
      = m.credit (entries + 1) (relocations + 1) (hops + more) := by
  cases m with
  | discard => rfl
  | counting c =>
    simp [credit, record, add, Counters.add, Event.measure?, UInt64.ofNat_add, UInt64.add_assoc]

namespace Store

/-- The lists can be recorded, starting from the arena `a₀`: they are between nodes of the store, the
quota admits them, and all blocks that they call for are granted. -/
structure Affordable (a₀ : Arena) (sizing : Sizing) (lists : Nat → List NodeId) : Prop where
  eq_nil : ∀ n, sizing.totalNodes.toNat ≤ n → lists n = []
  target_lt : ∀ n, ∀ target ∈ lists n, target < sizing.totalNodes
  length_le : sumOver sizing.totalNodes.toNat List.length lists ≤ sizing.maxAppends
  granted : ∀ r, r < sumOver sizing.totalNodes.toNat a₀.links lists →
    (a₀.withBlocks r).allocateBlock.result.isOk = true

/-- The store recorded the lists, and has the pages, the memory and the counters that they call for
if it starts from the arena `a₀` and the counters `m₀`. -/
structure Reached (a₀ : Arena) (m₀ : Metrics) (sizing : Sizing) (s : Store)
    (lists : Nat → List NodeId) : Prop where
  lifecycle_eq : s.lifecycle
    = .loading sizing (sumOver sizing.totalNodes.toNat List.length lists)
  metrics_eq : s.metrics = m₀.credit (sumOver sizing.totalNodes.toNat List.length lists)
    (sumOver sizing.totalNodes.toNat a₀.links lists) (sumOver sizing.totalNodes.toNat a₀.hops lists)
  contents : ∃ a, s.contents = .paged a ∧ a₀.Grown a sizing.totalNodes.toNat lists

variable {a₀ : Arena} {m₀ : Metrics} {sizing : Sizing} {s : Store} {lists : Nat → List NodeId}
  {e : Entry}

/-! ## One more entry -/

section Entering

variable {nodes : Nat} (hn : e.node.toNat < nodes)

include hn

theorem sumOver_length_enter :
    sumOver nodes List.length (e.enter lists) = sumOver nodes List.length lists + 1 :=
  sumOver_update hn List.length_append

theorem sumOver_hops_enter (a₀ : Arena) :
    sumOver nodes a₀.hops (e.enter lists)
      = sumOver nodes a₀.hops lists + a₀.links (lists e.node.toNat) :=
  sumOver_update hn Arena.hops_concat

theorem sumOver_links_enter_of_room
    (hroom : a₀.demand (a₀.shape (lists e.node.toNat)) e.target < a₀.layout.blockSize) :
    sumOver nodes a₀.links (e.enter lists) = sumOver nodes a₀.links lists :=
  sumOver_update (d := 0) hn (Arena.links_of_room hroom)

theorem sumOver_links_enter_of_full
    (hfull : a₀.layout.blockSize ≤ a₀.demand (a₀.shape (lists e.node.toNat)) e.target) :
    sumOver nodes a₀.links (e.enter lists) = sumOver nodes a₀.links lists + 1 :=
  sumOver_update hn (Arena.links_of_full hfull)

theorem sumOver_links_le_enter (a₀ : Arena) :
    sumOver nodes a₀.links lists ≤ sumOver nodes a₀.links (e.enter lists) := by
  rcases Nat.lt_or_ge (a₀.demand (a₀.shape (lists e.node.toNat)) e.target) a₀.layout.blockSize with
    hroom | hfull
  · exact Nat.le_of_eq (sumOver_links_enter_of_room hn hroom).symm
  · rw [sumOver_links_enter_of_full hn hfull]
    exact Nat.le_succ _

end Entering

namespace Affordable

theorem admits (h : Affordable a₀ sizing (e.enter lists)) :
    e.node < sizing.totalNodes ∧ e.target < sizing.totalNodes ∧
      sumOver sizing.totalNodes.toNat List.length lists < sizing.maxAppends := by
  have hn : e.node.toNat < sizing.totalNodes.toNat := by
    refine Nat.lt_of_not_le ?_
    intro hge
    have hnil := h.eq_nil _ hge
    rw [Entry.enter_self] at hnil
    exact List.append_ne_nil_of_right_ne_nil _ (List.cons_ne_nil _ _) hnil
  refine ⟨UInt64.lt_iff_toNat_lt.mpr hn, ?_, ?_⟩
  · refine h.target_lt e.node.toNat e.target ?_
    rw [Entry.enter_self]
    exact List.mem_append_right _ List.mem_cons_self
  · have hle := h.length_le
    rw [sumOver_length_enter hn] at hle
    exact hle

theorem granted_of_full (h : Affordable a₀ sizing (e.enter lists))
    (hfull : a₀.layout.blockSize ≤ a₀.demand (a₀.shape (lists e.node.toNat)) e.target) :
    (a₀.withBlocks (sumOver sizing.totalNodes.toNat a₀.links lists)).allocateBlock.result.isOk
      = true := by
  refine h.granted _ ?_
  rw [sumOver_links_enter_of_full (UInt64.lt_iff_toNat_lt.mp h.admits.1) hfull]
  exact Nat.lt_succ_self _

theorem of_enter (h : Affordable a₀ sizing (e.enter lists)) : Affordable a₀ sizing lists := by
  obtain ⟨hnode, -, hlt⟩ := h.admits
  have hn := UInt64.lt_iff_toNat_lt.mp hnode
  refine ⟨?_, ?_, Nat.le_of_lt hlt, ?_⟩
  · intro n hge
    have hne : n ≠ e.node.toNat := by omega
    exact (Entry.enter_of_ne hne).symm.trans (h.eq_nil n hge)
  · intro n target htarget
    refine h.target_lt n target ?_
    rcases eq_or_ne n e.node.toNat with rfl | hne
    · rw [Entry.enter_self]
      exact List.mem_append_left _ htarget
    · rw [Entry.enter_of_ne hne]
      exact htarget
  · intro r hr
    exact h.granted r (Nat.lt_of_lt_of_le hr (sumOver_links_le_enter hn a₀))

theorem enter (h : Affordable a₀ sizing lists) (hnode : e.node < sizing.totalNodes)
    (htarget : e.target < sizing.totalNodes)
    (hlt : sumOver sizing.totalNodes.toNat List.length lists < sizing.maxAppends)
    (hgranted : a₀.layout.blockSize ≤ a₀.demand (a₀.shape (lists e.node.toNat)) e.target →
      (a₀.withBlocks (sumOver sizing.totalNodes.toNat a₀.links lists)).allocateBlock.result.isOk
        = true) :
    Affordable a₀ sizing (e.enter lists) := by
  have hn := UInt64.lt_iff_toNat_lt.mp hnode
  refine ⟨?_, ?_, ?_, ?_⟩
  · intro n hge
    rw [Entry.enter_of_ne (by omega)]
    exact h.eq_nil n hge
  · intro n target hmem
    rcases eq_or_ne n e.node.toNat with rfl | hne
    · rw [Entry.enter_self] at hmem
      rcases List.mem_append.mp hmem with hmem | hmem
      · exact h.target_lt _ target hmem
      · rw [List.mem_singleton.mp hmem]
        exact htarget
    · rw [Entry.enter_of_ne hne] at hmem
      exact h.target_lt n target hmem
  · rw [sumOver_length_enter hn]
    exact hlt
  · intro r hr
    rcases Nat.lt_or_ge (a₀.demand (a₀.shape (lists e.node.toNat)) e.target) a₀.layout.blockSize
      with hroom | hfull
    · rw [sumOver_links_enter_of_room hn hroom] at hr
      exact h.granted r hr
    · rw [sumOver_links_enter_of_full hn hfull] at hr
      rcases Nat.lt_succ_iff_lt_or_eq.mp hr with hlt | rfl
      · exact h.granted r hlt
      · exact hgranted hfull

end Affordable

theorem add_of_placed {a b : Arena} {i : Nat} {l : Lifecycle} {t : AppendTrace} {events : List Event}
    (hpaged : s.contents = .paged a) (haccept : s.lifecycle.accept e.node e.target = .ok (i, l))
    (hplaced : a.append i e.target = ⟨.ok t, b, events⟩) :
    s.add e = ⟨.ok (), ⟨s.options, s.metrics.record (events ++ [.targetAdded]), l, .paged b⟩,
      events ++ [.targetAdded] ++ placedEvents (some t)⟩ := by
  obtain ⟨options, metrics, lifecycle, contents⟩ := s
  obtain rfl : contents = .paged a := hpaged
  rw [add, append]
  simp only [haccept, Contents.append, hplaced]

/-- **An entry is recorded exactly if the lists with it are affordable,** and then the store reaches
these lists. -/
theorem Reached.add_cases (h : Reached a₀ m₀ sizing s lists)
    (haffordable : Affordable a₀ sizing lists) (e : Entry) :
    (Affordable a₀ sizing (e.enter lists) ∧ (s.add e).result = .ok () ∧
      Reached a₀ m₀ sizing (s.add e).state (e.enter lists) ∧
      ((s.add e).events.map Event.hops).sum = a₀.links (lists e.node.toNat)) ∨
    (¬ Affordable a₀ sizing (e.enter lists) ∧ ∃ cause, (s.add e).result = .error cause) := by
  obtain ⟨a, hpaged, hgrown⟩ := h.contents
  cases haccept : s.lifecycle.accept e.node e.target with
  | error r =>
    refine Or.inr ⟨?_, r.cause, add_result_of_refused haccept⟩
    intro hmore
    obtain ⟨hnode, htarget, hlt⟩ := hmore.admits
    rw [h.lifecycle_eq, Lifecycle.accept_of_lt hnode htarget, if_pos hlt] at haccept
    exact nomatch haccept
  | ok admitted =>
    obtain ⟨i, l⟩ := admitted
    have hcounted := haccept
    rw [h.lifecycle_eq] at hcounted
    obtain ⟨_, _, hl, hnode, htarget, hlt, rfl, rfl⟩ := Lifecycle.accept_eq_ok.mp hcounted
    cases hl
    have hn := UInt64.lt_iff_toNat_lt.mp hnode
    rcases hgrown.append_cases hn e.target with ⟨hroom, t, b, heq, hnext⟩ |
      ⟨hfull, hgranted, t, b, source, destination, used, heq, hnext⟩ |
      ⟨hfull, hdenied, cause, herror⟩
    · rw [add_of_placed hpaged haccept heq]
      refine Or.inl ⟨haffordable.enter hnode htarget hlt
        fun hfull ↦ absurd hroom (Nat.not_lt.mpr hfull), rfl, ⟨?_, ?_, b, rfl, hnext⟩, ?_⟩
      · rw [sumOver_length_enter hn]
      · rw [sumOver_length_enter hn, sumOver_links_enter_of_room hn hroom, sumOver_hops_enter hn,
          h.metrics_eq]
        exact Metrics.record_of_room _ _ _ _ _
      · simp [Event.hops, placedEvents]
    · rw [add_of_placed hpaged haccept heq]
      refine Or.inl ⟨haffordable.enter hnode htarget hlt fun _ ↦ hgranted, rfl,
        ⟨?_, ?_, b, rfl, hnext⟩, ?_⟩
      · rw [sumOver_length_enter hn]
      · rw [sumOver_length_enter hn, sumOver_links_enter_of_full hn hfull, sumOver_hops_enter hn,
          h.metrics_eq]
        exact Metrics.record_of_relocated _ _ _ _ _ e.node.toNat source destination used
      · simp [Event.hops, placedEvents]
    · refine Or.inr ⟨?_, cause, ?_⟩
      · intro hmore
        rw [hmore.granted_of_full hfull] at hdenied
        exact nomatch hdenied
      · have hfail := (append_paged hpaged haccept).1
        rw [herror] at hfail
        rcases (add_eq s e).2 with ⟨-, t, hok⟩ | ⟨_, hcause, heq⟩
        · rw [hfail] at hok
          exact nomatch hok
        · rw [hfail] at heq
          cases heq
          exact hcause

/-! ## Histories -/

/-- **All entries of a history are recorded exactly if the lists that they make are affordable,** and
then the store reaches these lists. -/
theorem Reached.after_cases (h : Reached a₀ m₀ sizing s fun _ ↦ [])
    (haffordable : Affordable a₀ sizing fun _ ↦ []) (calls : List Entry) :
    (Affordable a₀ sizing (Entry.listed calls) ∧
      (∀ x ∈ Outcome.results add s calls, x = .ok ()) ∧
      Reached a₀ m₀ sizing (Outcome.after add s calls) (Entry.listed calls) ∧
      ((Outcome.allEvents add s calls).map Event.hops).sum
        = sumOver sizing.totalNodes.toNat a₀.hops (Entry.listed calls)) ∨
    (¬ Affordable a₀ sizing (Entry.listed calls) ∧
      ¬ ∀ x ∈ Outcome.results add s calls, x = .ok ()) := by
  induction calls using List.reverseRecOn with
  | nil =>
    refine Or.inl ⟨haffordable, fun x hx ↦ absurd hx List.not_mem_nil, h, ?_⟩
    exact (sumOver_eq_zero fun _ _ ↦ rfl).symm
  | append_singleton calls e ih =>
    have hresults : Outcome.results add s (calls ++ [e])
        = Outcome.results add s calls ++ [((Outcome.after add s calls).add e).result] := by
      rw [Outcome.results_append]
      rfl
    have hevents : Outcome.allEvents add s (calls ++ [e])
        = Outcome.allEvents add s calls ++ ((Outcome.after add s calls).add e).events := by
      rw [Outcome.allEvents_append]
      exact congrArg _ (List.append_nil _)
    rw [Entry.listed_concat, hresults, hevents, Outcome.after_append]
    rcases ih with ⟨hdone, hok, hreached, hhops⟩ | ⟨hdone, hfail⟩
    · rcases hreached.add_cases hdone e with ⟨hmore, hlast, hnext, hlinks⟩ | ⟨hmore, cause, herror⟩
      · refine Or.inl ⟨hmore, ?_, hnext, ?_⟩
        · intro x hx
          rcases List.mem_append.mp hx with hx | hx
          · exact hok x hx
          · rw [List.mem_singleton.mp hx, hlast]
        · rw [List.map_append, List.sum_append, hhops, hlinks,
            sumOver_hops_enter (UInt64.lt_iff_toNat_lt.mp hmore.admits.1)]
      · refine Or.inr ⟨hmore, ?_⟩
        intro hall
        have hlast := hall _ (List.mem_append_right _ List.mem_cons_self)
        rw [herror] at hlast
        exact nomatch hlast
    · exact Or.inr ⟨fun hmore ↦ hdone hmore.of_enter,
        fun hall ↦ hfail fun x hx ↦ hall x (List.mem_append_left _ hx)⟩

/-! ## What lists determine -/

theorem Reached.read (h : Reached a₀ m₀ sizing s lists) {node : NodeId}
    (hnode : node < sizing.totalNodes) :
    (s.targets node).result = .ok (a₀.shape (lists node.toNat)).ids ∧
      ∃ blocks, (s.chain node).result = .ok (some blocks) ∧
        blocks.map BlockInfo.used = (a₀.shape (lists node.toNat)).pages.map (Page.used a₀.codec) := by
  obtain ⟨a, hpaged, hgrown⟩ := h.contents
  obtain ⟨room, chains, hrepresents, hshape⟩ := hgrown.represents
  have hn := UInt64.lt_iff_toNat_lt.mp hnode
  rw [targets, chain, hpaged, h.lifecycle_eq, Lifecycle.startRead_of_lt hnode]
  dsimp only
  rw [Contents.targets, hrepresents.targets_eq hn, hrepresents.chain_eq hn, ← hshape _ hn,
    Chain.ids_forget, Chain.used_forget, ← hgrown.codec_eq]
  exact ⟨rfl, _, rfl, Page.used_infos a.codec _ _⟩

theorem Reached.room (h : Reached a₀ m₀ sizing s lists) :
    s.reallocations = sumOver sizing.totalNodes.toNat a₀.links lists ∧
      s.size = (a₀.withBlocks (sumOver sizing.totalNodes.toNat a₀.links lists)).capacity := by
  obtain ⟨a, hpaged, hgrown⟩ := h.contents
  rw [reallocations, size, hpaged]
  exact ⟨hgrown.reallocations_eq, hgrown.sameRoom.capacity_eq⟩

theorem exists_reached_of_init {options : Options} {totalNodes totalRels : UInt64}
    (hinit : ((new .pagedBuffer options).init totalNodes totalRels).result = .ok ()) :
    ∃ a₀ m₀ sizing, sizing.totalNodes = totalNodes ∧
      Reached a₀ m₀ sizing ((new .pagedBuffer options).init totalNodes totalRels).state
        (fun _ ↦ []) ∧
      Affordable a₀ sizing fun _ ↦ [] := by
  obtain ⟨sizing, contents, hplan, hcontents, hstate⟩ := init_eq_ok hinit
  obtain ⟨a₀, ha₀, rfl⟩ := Check.map_eq_ok.mp hcontents
  have hroom := Lifecycle.room_pos hplan
  have htotal : sizing.totalNodes = totalNodes := by
    obtain ⟨-, -, rfl⟩ := Lifecycle.plan_eq_ok hplan
    rfl
  have hzero : ∀ f : List NodeId → Nat, f [] = 0 →
      sumOver sizing.totalNodes.toNat f (fun _ ↦ []) = 0 :=
    fun f hf ↦ sumOver_eq_zero fun _ _ ↦ hf
  refine ⟨a₀, options.metrics.getD .discard, sizing, htotal, ⟨?_, ?_, ?_⟩,
    ⟨fun _ _ ↦ rfl, ?_, ?_, ?_⟩⟩
  · rw [hstate, hzero List.length rfl]
  · rw [hstate, hzero List.length rfl, hzero a₀.links rfl, hzero a₀.hops rfl, Metrics.credit_zero]
    rfl
  · rw [hstate]
    exact ⟨a₀, rfl, Arena.grown_allocate hroom ha₀⟩
  · exact fun _ _ hmem ↦ absurd hmem List.not_mem_nil
  · rw [hzero List.length rfl]
    exact Nat.zero_le _
  · intro r hr
    rw [hzero a₀.links rfl] at hr
    exact absurd hr (Nat.not_lt_zero r)

/-- **Entries for different nodes may be interleaved in any way.** Take two histories of entries on
the same opened store that have the same targets for each node, in the same order. If all entries of
the one are recorded then so are all entries of the other, and afterwards

* every node has the same list, and a chain whose blocks hold the same numbers of bytes;
* as many blocks were added, as much memory is held and as many links were followed;
* the counters agree. -/
theorem same_after_interleaving {options : Options} {totalNodes totalRels : UInt64}
    (hinit : ((new .pagedBuffer options).init totalNodes totalRels).result = .ok ())
    {calls others : List Entry}
    (hsame : ∀ node, Entry.targetsOf calls node = Entry.targetsOf others node)
    (hok : ∀ x ∈ Outcome.results add
      ((new .pagedBuffer options).init totalNodes totalRels).state calls, x = .ok ()) :
    let opened := ((new .pagedBuffer options).init totalNodes totalRels).state
    let s := Outcome.after add opened calls
    let t := Outcome.after add opened others
    (∀ x ∈ Outcome.results add opened others, x = .ok ()) ∧
      (∀ node, node < totalNodes → ∃ ids blocks blocks',
        (s.targets node).result = .ok ids ∧ (t.targets node).result = .ok ids ∧
        (s.chain node).result = .ok (some blocks) ∧ (t.chain node).result = .ok (some blocks') ∧
        blocks.map BlockInfo.used = blocks'.map BlockInfo.used) ∧
      s.reallocations = t.reallocations ∧ s.size = t.size ∧
      ((Outcome.allEvents add opened calls).map Event.hops).sum
        = ((Outcome.allEvents add opened others).map Event.hops).sum ∧
      s.metrics = t.metrics := by
  intro opened s t
  obtain ⟨a₀, m₀, sizing, rfl, hopened, haffordable⟩ := exists_reached_of_init hinit
  have hlisted := Entry.listed_congr hsame
  rcases hopened.after_cases haffordable calls with ⟨hdone, -, hs, hhops⟩ | ⟨-, hfail⟩
  · rcases hopened.after_cases haffordable others with ⟨-, hok', ht, hhops'⟩ | ⟨hnot, -⟩
    · rw [← hlisted] at ht hhops'
      refine ⟨hok', ?_, ?_, ?_, hhops.trans hhops'.symm, hs.metrics_eq.trans ht.metrics_eq.symm⟩
      · intro node hnode
        obtain ⟨hids, blocks, hblocks, hused⟩ := hs.read hnode
        obtain ⟨hids', blocks', hblocks', hused'⟩ := ht.read hnode
        exact ⟨_, blocks, blocks', hids, hids', hblocks, hblocks', hused.trans hused'.symm⟩
      · exact hs.room.1.trans ht.room.1.symm
      · exact hs.room.2.trans ht.room.2.symm
    · exact absurd (hlisted ▸ hdone) hnot
  · exact absurd hok hfail

/-- Entries for one node that need a second block and go on in it. -/
def longList (node : NodeId) : List Entry :=
  [1, 0, 1, 0, 1, 0, 1, 0, 1, 0].map fun target ↦ ⟨node, target, 0, .outgoing⟩

theorem targetsOf_longList_append {m n : NodeId} (hne : m ≠ n) (node : NodeId) :
    Entry.targetsOf (longList m ++ longList n) node
      = Entry.targetsOf (longList n ++ longList m) node := by
  have hnil : ∀ k, k ≠ node → Entry.targetsOf (longList k) node = [] := by
    intro k hk
    simp [Entry.targetsOf, longList, hk]
  rw [Entry.targetsOf_append, Entry.targetsOf_append]
  by_cases hm : m = node
  · rw [hnil n (fun hn ↦ hne (hm.trans hn.symm)), List.append_nil, List.nil_append]
  · rw [hnil m hm, List.append_nil, List.nil_append]

/-- Options for the smallest blocks, in an arena that may double, with counters. -/
def tallied : Options := { doubling with metrics := some (.counting .zero) }

/-- Two nodes need a second block each. It depends on the order which of them gets the first one that
is added, and nothing else does. -/
theorem same_after_longLists :
    let opened := ((new .pagedBuffer tallied).init 11 10).state
    let s := Outcome.after add opened (longList 0 ++ longList 1)
    let t := Outcome.after add opened (longList 1 ++ longList 0)
    ((new .pagedBuffer tallied).init 11 10).result = .ok () ∧
      (∀ node, Entry.targetsOf (longList 0 ++ longList 1) node
        = Entry.targetsOf (longList 1 ++ longList 0) node) ∧
      (∀ x ∈ Outcome.results add opened (longList 0 ++ longList 1), x = .ok ()) ∧
      (s.chain 0).result = .ok (some [⟨0, 16, some 242⟩, ⟨242, 4, none⟩]) ∧
      (t.chain 0).result = .ok (some [⟨0, 16, some 264⟩, ⟨264, 4, none⟩]) ∧
      (∀ x ∈ Outcome.results add opened (longList 1 ++ longList 0), x = .ok ()) ∧
      s.reallocations = t.reallocations ∧ s.size = t.size ∧ s.metrics = t.metrics := by
  intro opened s t
  have hinit : ((new .pagedBuffer tallied).init 11 10).result = .ok () := by decide +kernel
  have hok : ∀ x ∈ Outcome.results add opened (longList 0 ++ longList 1), x = .ok () := by
    decide +kernel
  have hchain : (s.chain 0).result = .ok (some [⟨0, 16, some 242⟩, ⟨242, 4, none⟩]) := by
    decide +kernel
  have hchain' : (t.chain 0).result = .ok (some [⟨0, 16, some 264⟩, ⟨264, 4, none⟩]) := by
    decide +kernel
  have hsame := fun node ↦ targetsOf_longList_append (m := 0) (n := 1) (by decide) node
  obtain ⟨hok', -, hrealloc, hsize, -, hmetrics⟩ := same_after_interleaving hinit hsame hok
  exact ⟨hinit, hsame, hok, hchain, hchain', hok', hrealloc, hsize, hmetrics⟩

end Store

end Adjacency
