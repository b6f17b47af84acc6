import Adjacency.Proofs.Store.Stages
import Mathlib.Algebra.BigOperators.Group.Finset.Piecewise

/-!
# How arrays grow

The arrays of a store begin with the room that the sizing asks for and grow when they are found
tight. All this follows the rule for extents, so each array has doubled as often as it has grown
(`Contents.Doubled`), and this is upheld by every stage of a history.

Two things come of it (`Store.growth_after`). No array ever holds more than it was given room for,
so the room only changes where the store changes it, and the count of these changes is exact. And
growths are rare: one more takes an array that holds twice as much.
-/

namespace Adjacency

namespace Contents

/-- The arrays of `nodes` nodes have doubled as often as they have grown, and each growth was
counted. -/
structure Doubled (c : Contents) (reserve start nodes : Nat) (growths : Nat → Nat) : Prop where
  start_pos : 0 < start
  reserve_eq : c.reserve = reserve
  lt_iff : ∀ n, n < nodes ↔ ∃ x, c.extent? n = some x
  doubled : ∀ n x, c.extent? n = some x → x.Doubled reserve start (growths n)
  /-- Where there is no array, none has grown. -/
  growths_eq_zero : ∀ n, nodes ≤ n → growths n = 0
  reallocations_eq : c.reallocations = ∑ n ∈ Finset.range nodes, growths n

variable {c : Contents} {reserve start nodes node : Nat} {growths : Nat → Nat} {x : Extent}

/-! ## Adding an id -/

section

variable (h : c.Doubled reserve start nodes growths) (hx : c.extent? node = some x)
  (target : NodeId)

include h hx

theorem Doubled.grew_append (n : Nat) :
    c.grew (c.append node target).state n = (decide (n = node) && x.isTight reserve) := by
  have hdoubled := h.doubled node x hx
  rw [grew, extent?_append hx hdoubled.held_le, h.reserve_eq]
  by_cases hn : n = node
  · subst hn
    rw [if_pos rfl, hx, decide_eq_true rfl, Bool.true_and, Bool.eq_iff_iff]
    dsimp only
    rw [bne_iff_ne]
    exact hdoubled.capacity_add_ne_iff h.start_pos
  · rw [if_neg hn, decide_eq_false hn, Bool.false_and]
    cases c.extent? n with
    | none => rfl
    | some y => simp

/-- **Adding an id keeps arrays doubled.** -/
theorem Doubled.append :
    (c.append node target).state.Doubled reserve start nodes
      fun n ↦ growths n + if c.grew (c.append node target).state n then 1 else 0 := by
  have hdoubled := h.doubled node x hx
  have hextent := extent?_append hx hdoubled.held_le target
  have hlength := lengthOf_le_reserve hx target
  rw [h.reserve_eq] at hextent hlength
  have hnode : node < nodes := (h.lt_iff node).mpr ⟨x, hx⟩
  refine ⟨h.start_pos, (reserve_append c node target).trans h.reserve_eq, ?_, ?_, ?_, ?_⟩
  · intro n
    rw [h.lt_iff, hextent]
    by_cases hn : n = node
    · rw [if_pos hn, hn, hx]
      exact ⟨fun _ ↦ ⟨_, rfl⟩, fun _ ↦ ⟨_, rfl⟩⟩
    · rw [if_neg hn]
  · intro n y hy
    rw [hextent] at hy
    rw [h.grew_append hx target]
    by_cases hn : n = node
    · subst hn
      rw [if_pos rfl] at hy
      cases hy
      rw [decide_eq_true rfl, Bool.true_and]
      exact hdoubled.add h.start_pos hlength
    · rw [if_neg hn] at hy
      rw [decide_eq_false hn, Bool.false_and, if_neg Bool.false_ne_true, Nat.add_zero]
      exact h.doubled n y hy
  · intro n hn
    rw [h.growths_eq_zero n hn, h.grew_append hx target,
      decide_eq_false (Nat.ne_of_gt (Nat.lt_of_lt_of_le hnode hn)), Bool.false_and]
    rfl
  · -- Only the one node can have grown.
    rw [reallocations_append hx hdoubled.held_le, h.reserve_eq, h.reallocations_eq,
      Finset.sum_add_distrib]
    congr 1
    simp only [h.grew_append hx target]
    cases x.isTight reserve with
    | true => simp [hnode]
    | false => simp

end

/-! ## Fresh arrays -/

theorem doubled_of_fresh {capacity : Nat} (hstart : 0 < start) (hreserve : c.reserve = reserve)
    (hextent : ∀ n, c.extent? n = if n < nodes then some ⟨0, capacity⟩ else none)
    (hcapacity : capacity + 1 = start + reserve) (hzero : c.reallocations = 0) :
    c.Doubled reserve start nodes fun _ ↦ 0 := by
  refine ⟨hstart, hreserve, ?_, ?_, fun _ _ ↦ rfl, ?_⟩
  · intro n
    rw [hextent]
    split
    · next hn => exact ⟨fun _ ↦ ⟨_, rfl⟩, fun _ ↦ hn⟩
    · next hn => exact ⟨fun hlt ↦ absurd hlt hn, nofun⟩
  · intro n x hx
    rw [hextent] at hx
    split at hx
    · cases hx
      refine ⟨Nat.zero_le _, ?_, fun _ ↦ hcapacity⟩
      rw [Nat.pow_zero, Nat.one_mul, hcapacity]
    · cases hx
  · rw [hzero, Finset.sum_const_zero]

theorem doubled_plain {sizing : Sizing} {a : PlainArrays} (hfan : 0 < sizing.fanOut)
    (h : PlainArrays.allocate sizing = .ok a) :
    (plain a).Doubled 1 sizing.fanOut sizing.totalNodes.toNat fun _ ↦ 0 := by
  simp only [PlainArrays.allocate, Check.bind_eq_ok] at h
  obtain ⟨-, -, -, -, -, -, -, -, ha⟩ := h
  cases ha
  refine doubled_of_fresh hfan rfl ?_ rfl rfl
  intro n
  rw [extent?, PlainArrays.extent?, Array.getElem?_replicate]
  split <;> rfl

theorem doubled_coded {options : Options} {sizing : Sizing} {a : CodedArrays}
    (h : CodedArrays.allocate options sizing = .ok a) :
    (coded a).Doubled options.codec.maxLen (sizing.fanOut * options.bytesPerEdge.toNat + 1)
      sizing.totalNodes.toNat fun _ ↦ 0 := by
  simp only [CodedArrays.allocate, Check.bind_eq_ok, Memory.product_eq_ok,
    Memory.reserve_eq_ok] at h
  obtain ⟨budget, ⟨rfl, -⟩, -, -, -, -, -, hgranted, ha⟩ := h
  cases ha
  have hlt : Memory.granted < Word.max :=
    Nat.lt_of_le_of_lt Memory.granted_le (by decide)
  have hinitial : Word.saturate (sizing.fanOut * options.bytesPerEdge.toNat + options.codec.maxLen)
      = sizing.fanOut * options.bytesPerEdge.toNat + options.codec.maxLen := by
    rw [Word.saturate] at hgranted ⊢
    omega
  rw [hinitial]
  refine doubled_of_fresh (Nat.succ_pos _) rfl ?_ (Nat.add_right_comm _ _ 1) rfl
  intro n
  rw [extent?, CodedArrays.extent?, Array.getElem?_replicate]
  split <;> rfl

end Contents

/-! ## Stores -/

namespace Kind

/-- A store of this kind keeps an array for each node. -/
def hasArrays : Kind → Bool
  | .plainArray | .byteArray => true
  | .null | .pagedBuffer => false

/-- What there must be room for in an array before something is added. -/
def reserve (options : Options) : Kind → Nat
  | .byteArray => options.codec.maxLen
  | _ => 1

/-- The least that an array holds when it is found tight for the first time. -/
def start (options : Options) (sizing : Sizing) : Kind → Nat
  | .byteArray => sizing.fanOut * options.bytesPerEdge.toNat + 1
  | _ => sizing.fanOut

end Kind

namespace Store

variable {kind : Kind} {options : Options} {s t : Store} {done : List (Store × Store)} {n : Nat}

/-- **The arrays of a store have doubled as often as they have grown.** -/
theorem Walk.doubled (hkind : kind.hasArrays = true) (h : Walk (new kind options) done s) :
    s.Upholds kind options (fun sizing growths c ↦ c.Doubled (kind.reserve options)
      (kind.start options sizing) sizing.totalNodes.toNat growths) done := by
  refine h.upholds ?_ ?_
  · intro totalNodes totalRels sizing c hplan hallocate
    cases kind with
    | null | pagedBuffer => cases hkind
    | plainArray =>
      obtain ⟨a, ha, rfl⟩ := Check.map_eq_ok.mp hallocate
      exact Contents.doubled_plain (Nat.pos_of_mul_pos_right (Lifecycle.room_pos hplan)) ha
    | byteArray =>
      obtain ⟨a, ha, rfl⟩ := Check.map_eq_ok.mp hallocate
      exact Contents.doubled_coded ha
  · intro sizing growths c node target hnode hdoubled
    obtain ⟨x, hx⟩ := (hdoubled.lt_iff node).mp hnode
    exact hdoubled.append hx target

theorem Walk.growth (hkind : kind.hasArrays = true) (h : Walk (new kind options) done s)
    (hpass : s.Passes t) (hgrows : grows n (s, t) = true) :
    ∃ sizing x y, s.lifecycle.sizing? = some sizing ∧ s.contents.extent? n = some x ∧
      t.contents.extent? n = some y ∧
      x.Doubled (kind.reserve options) (kind.start options sizing) (growths done n) ∧
      x.isTight (kind.reserve options) = true ∧ y.capacity = x.held + x.capacity ∧
      t.reallocations = s.reallocations + 1 := by
  have hupholds := h.doubled hkind
  cases hpass with
  | keeps hoptions hsizing hcontents =>
    rw [grows, hcontents, grew_self] at hgrows
    cases hgrows
  | opens hoptions hplan hsizing hcontents =>
    obtain ⟨hcreated, -, -⟩ := Lifecycle.plan_eq_ok hplan
    obtain ⟨hempty, -⟩ := hupholds.unopened (by rw [hcreated]; rfl)
    rw [grows, Contents.grew, hempty, extent?_empty] at hgrows
    cases hgrows
  | @adds sizing node target hoptions hopen hsizing hnode hcontents =>
    have hdoubled := hupholds.opened sizing hopen
    obtain ⟨x, hx⟩ := (hdoubled.lt_iff node).mp hnode
    have hold := hdoubled.doubled node x hx
    rw [grows, hcontents, hdoubled.grew_append hx target, Bool.and_eq_true,
      decide_eq_true_iff] at hgrows
    obtain ⟨rfl, htight⟩ := hgrows
    have hy := Contents.extent?_append hx hold.held_le target n
    rw [if_pos rfl, hdoubled.reserve_eq, ← hcontents] at hy
    refine ⟨sizing, x, _, hopen, hx, hy, hold, htight,
      hold.capacity_add hdoubled.start_pos htight, ?_⟩
    rw [reallocations, hcontents, Contents.reallocations_append hx hold.held_le,
      hdoubled.reserve_eq, if_pos htight, reallocations]

/-- An array is tight when it grows, and holds what it takes to be found so for the first time. -/
theorem Walk.tight_of_grows {sizing : Sizing} {x : Extent} (hkind : kind.hasArrays = true)
    (h : Walk (new kind options) done s) (hsizing : s.lifecycle.sizing? = some sizing)
    (hx : s.contents.extent? n = some x) (hpass : s.Passes t) (hgrows : grows n (s, t) = true) :
    x.Doubled (kind.reserve options) (kind.start options sizing) (growths done n) ∧
      x.isTight (kind.reserve options) = true ∧ kind.start options sizing ≤ x.held := by
  obtain ⟨sizing', x', -, hsizing', hx', -, hdoubled, htight, -⟩ := h.growth hkind hpass hgrows
  obtain rfl : sizing = sizing' := Option.some.inj (hsizing.symm.trans hsizing')
  obtain rfl : x = x' := Option.some.inj (hx.symm.trans hx')
  exact ⟨hdoubled, htight, Nat.le_trans (Nat.le_mul_of_pos_left _ (Nat.two_pow_pos _))
    (hdoubled.le_held htight)⟩

theorem Walk.held_le {y : Extent} (hkind : kind.hasArrays = true)
    (h : Walk (new kind options) done s) (hy : s.contents.extent? n = some y) :
    y.held ≤ y.capacity := by
  have hupholds := h.doubled hkind
  cases hsizing : s.lifecycle.sizing? with
  | none =>
    rw [(hupholds.unopened hsizing).1, extent?_empty] at hy
    cases hy
  | some sizing => exact ((hupholds.opened sizing hsizing).doubled n y hy).held_le

/-- **Every growth is counted.** Nodes that a store does not have add nothing to the sum. -/
theorem Walk.reallocations_eq (hkind : kind.hasArrays = true)
    (h : Walk (new kind options) done s) :
    s.reallocations = ∑ n ∈ Finset.range UInt64.size, growths done n := by
  have hupholds := h.doubled hkind
  cases hsizing : s.lifecycle.sizing? with
  | none =>
    obtain ⟨hempty, hzero⟩ := hupholds.unopened hsizing
    rw [reallocations, hempty, reallocations_empty]
    exact (Finset.sum_eq_zero fun n _ ↦ hzero n).symm
  | some sizing =>
    have hdoubled := hupholds.opened sizing hsizing
    rw [reallocations, hdoubled.reallocations_eq]
    refine Finset.sum_subset ?_ ?_
    · exact Finset.range_subset_range.mpr (Nat.le_of_lt sizing.totalNodes.toNat_lt)
    · intro n _ hn
      exact hdoubled.growths_eq_zero n (Nat.le_of_not_lt fun hlt ↦ hn (Finset.mem_range.mpr hlt))

/-- In every stage of a history arrays grow by the rule, and nothing else changes their room. -/
structure GrowsByRule (kind : Kind) (options : Options) (calls : List Call) (reserve : Nat)
    (start : Sizing → Nat) : Prop where
  /-- What was added fits into the room that there was or that was made. -/
  held_le : ∀ stage ∈ allStages (new kind options) calls, ∀ n y,
    stage.2.contents.extent? n = some y → y.held ≤ y.capacity
  /-- The count is the number of times that the room of an array changed. -/
  reallocations_eq : (Outcome.after step (new kind options) calls).reallocations
    = ∑ n ∈ Finset.range UInt64.size, growths (allStages (new kind options) calls) n
  /-- The room only changes where there was too little, and then the array gets as much behind what
  it holds as it had. With every growth before it takes twice as much to get there. -/
  growth : ∀ done stage rest n, allStages (new kind options) calls = done ++ stage :: rest →
    grows n stage = true → ∃ sizing x y, stage.1.lifecycle.sizing? = some sizing ∧
      stage.1.contents.extent? n = some x ∧ stage.2.contents.extent? n = some y ∧
      x.capacity < x.held + reserve ∧ y.capacity = x.held + x.capacity ∧
      stage.2.reallocations = stage.1.reallocations + 1 ∧
      2 ^ growths done n * start sizing ≤ x.held

theorem growsByRule (kind : Kind) (hkind : kind.hasArrays = true) (options : Options)
    (calls : List Call) :
    GrowsByRule kind options calls (kind.reserve options) (kind.start options) := by
  have hwalk := walk_allStages (new kind options) calls
  refine ⟨?_, hwalk.reallocations_eq hkind, ?_⟩
  · intro stage hstage n y hy
    obtain ⟨done, hbefore, hpass⟩ := hwalk.of_mem hstage
    exact (hbefore.append (.single hpass)).held_le hkind hy
  · intro done stage rest n hsplit hgrows
    rw [hsplit] at hwalk
    obtain ⟨hbefore, hpass, -⟩ := hwalk.split
    obtain ⟨sizing, x, y, hopen, hx, hy, hdoubled, htight, hcapacity, hcount⟩ :=
      hbefore.growth hkind hpass hgrows
    exact ⟨sizing, x, y, hopen, hx, hy, Extent.isTight_iff.mp htight, hcapacity, hcount,
      hdoubled.le_held htight⟩

/-- **Arrays grow geometrically, and every growth is counted.** This holds in every stage of every
history, for arrays of ids and for arrays of codes. The first growth of an array of ids takes as
many ids as the fan-out, and a growth doubles its room; the first growth of an array of codes takes
more bytes than are expected for the fan-out. -/
theorem growth_after (options : Options) (calls : List Call) :
    GrowsByRule .plainArray options calls 1 (fun sizing ↦ sizing.fanOut) ∧
      GrowsByRule .byteArray options calls options.codec.maxLen
        (fun sizing ↦ sizing.fanOut * options.bytesPerEdge.toNat + 1) ∧
      ∀ stage ∈ allStages (new .plainArray options) calls, ∀ n x y, grows n stage = true →
        stage.1.contents.extent? n = some x → stage.2.contents.extent? n = some y →
        x.held = x.capacity ∧ y.capacity = 2 * x.capacity := by
  refine ⟨growsByRule .plainArray rfl options calls, growsByRule .byteArray rfl options calls, ?_⟩
  intro stage hstage n x y hgrows hx hy
  obtain ⟨done, hbefore, hpass⟩ := (walk_allStages (new .plainArray options) calls).of_mem hstage
  obtain ⟨sizing, _, _, -, hx', hy', hdoubled, htight, hcapacity, -⟩ :=
    hbefore.growth rfl hpass hgrows
  rw [hx] at hx'
  rw [hy] at hy'
  cases hx'
  cases hy'
  have hfull : x.held = x.capacity := Extent.held_eq_of_isTight hdoubled.held_le htight
  exact ⟨hfull, by omega⟩

/-- A node that is related to itself may have its array grown twice in one call. -/
example : growths (allStages (new .plainArray ⟨.lengthPrefixed, 1, 1, .one, none⟩)
    [.init 3 2, .add ⟨0, 1, 0, .outgoing⟩, .addRelationship ⟨0, 0, 0⟩]) 0 = 2 := by decide +kernel

end Store

end Adjacency
