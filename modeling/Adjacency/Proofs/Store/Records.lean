import Adjacency.Proofs.Arena.Represents
import Adjacency.Proofs.Arrays.Coded
import Adjacency.Proofs.Store.Admission

/-!
# The lists that a store keeps

However contents lay out their lists, they record a family of lists, one for each node. Fresh
contents record empty lists, an append adds to the list of its node or, if an arena has no memory
left, changes nothing, and the list of a node is read back as it was recorded. Contents that keep
nothing record anything.

For a store this becomes an invariant of its calls: once it was opened, its contents record the
lists of the entries that were not refused (`Store.Records.append_cases`).
-/

namespace Adjacency

namespace Contents

/-- The contents record the given lists, one for each of `nodes` nodes. -/
def Records : Contents → (nodes : Nat) → (lists : Nat → List NodeId) → Prop
  | .null, _, _ => True
  | .plain a, nodes, lists => a.nodes.size = nodes ∧ ∀ n, n < nodes → a.targets n = lists n
  | .coded a, nodes, lists => a.Records nodes lists
  | .paged a, nodes, lists => ∃ room chains, a.Represents nodes room chains ∧
    ∀ n, n < nodes → (chains n).ids = lists n

variable {c : Contents} {nodes node : Nat} {lists : Nat → List NodeId}

theorem records_allocate {kind : Kind} {options : Options} {sizing : Sizing}
    (hroom : 0 < sizing.fanOut * options.bytesPerEdge.toNat)
    (h : allocate kind options sizing = .ok c) :
    c.kind = kind ∧ c.Records sizing.totalNodes.toNat fun _ ↦ [] := by
  cases kind with
  | null => cases h; exact ⟨rfl, trivial⟩
  | plainArray =>
    obtain ⟨a, ha, h⟩ := Check.map_eq_ok.mp h
    cases h
    simp only [PlainArrays.allocate, Check.bind_eq_ok] at ha
    obtain ⟨-, -, -, -, -, -, -, -, ha⟩ := ha
    cases ha
    refine ⟨rfl, Array.size_replicate, ?_⟩
    intro n hn
    rw [PlainArrays.targets, Array.getD_eq_getD_getElem?, Array.getElem?_replicate, if_pos hn]
    rfl
  | byteArray =>
    obtain ⟨a, ha, h⟩ := Check.map_eq_ok.mp h
    cases h
    exact ⟨rfl, CodedArrays.records_allocate ha⟩
  | pagedBuffer =>
    obtain ⟨a, ha, h⟩ := Check.map_eq_ok.mp h
    cases h
    exact ⟨rfl, _, _, Arena.represents_allocate hroom ha, fun n _ ↦ rfl⟩

/-- **An append adds to the list of its node,** or an arena refuses it and nothing changes. -/
theorem Records.append (h : c.Records nodes lists) (hn : node < nodes) (target : NodeId) :
    (∃ trace, (c.append node target).result = .ok trace ∧
      (c.append node target).state.Records nodes
        (Function.update lists node (lists node ++ [target]))) ∨
    (∃ limit requested,
      (c.append node target).result = .error (.capacityExceeded .pagedArena limit requested) ∧
      (c.append node target).state = c) := by
  cases c with
  | null => exact Or.inl ⟨none, rfl, trivial⟩
  | plain a =>
    obtain ⟨hsize, hlists⟩ := h
    refine Or.inl ⟨none, rfl, ?_, ?_⟩
    · rw [← hsize]
      exact PlainArrays.size_append a node target
    · intro n hlt
      show (a.append node target).1.targets n = _
      rw [PlainArrays.targets_append (hsize ▸ hn), hlists n hlt]
      rcases eq_or_ne n node with rfl | hne
      · rw [if_pos rfl, Function.update_self]
      · rw [if_neg hne, Function.update_of_ne hne]
  | coded a => exact Or.inl ⟨none, rfl, CodedArrays.Records.append h hn target⟩
  | paged a =>
    obtain ⟨room, chains, ha, hids⟩ := h
    rw [append]
    rcases ha.append_ids hn target with ⟨trace, l, hresult, hl, hstate⟩ |
      ⟨limit, requested, hresult, hstate⟩
    · rcases heq : a.append node target with ⟨result, b, events⟩
      rw [heq] at hresult hstate
      obtain rfl : result = .ok trace := hresult
      refine Or.inl ⟨some trace, rfl, room, _, hstate, ?_⟩
      intro n hlt
      rcases eq_or_ne n node with rfl | hne
      · rw [Function.update_self, Function.update_self, hl, hids n hlt]
      · rw [Function.update_of_ne hne, Function.update_of_ne hne, hids n hlt]
    · rcases heq : a.append node target with ⟨result, b, events⟩
      rw [heq] at hresult hstate
      obtain rfl : result = .error _ := hresult
      obtain rfl : b = a := hstate
      exact Or.inr ⟨limit, requested, rfl, rfl⟩

@[simp] theorem kind_append (c : Contents) (node : Nat) (target : NodeId) :
    (c.append node target).state.kind = c.kind := by
  cases c with
  | null => rfl
  | plain a => rfl
  | coded a => rfl
  | paged a =>
    rw [append]
    rcases a.append node target with ⟨result, b, events⟩
    cases result with
    | ok trace => rfl
    | error e => rfl

theorem exists_eq_paged (h : c.kind = .pagedBuffer) : ∃ a, c = .paged a := by
  cases c with
  | null | plain | coded => cases h
  | paged a => exact ⟨a, rfl⟩

/-- **What was recorded for a node is read back,** unless nothing is kept. -/
theorem Records.targets_eq (h : c.Records nodes lists) (hn : node < nodes) :
    c.targets node = .ok (if c.kind = .null then [] else lists node) := by
  cases c with
  | null => rfl
  | plain a => rw [targets, h.2 node hn, kind, if_neg (by decide)]
  | coded a => rw [targets, CodedArrays.Records.targets_eq h hn, kind, if_neg (by decide)]
  | paged a =>
    obtain ⟨room, chains, ha, hids⟩ := h
    rw [targets, ha.targets_eq hn, hids node hn, kind, if_neg (by decide)]

end Contents

/-! ## Stores -/

theorem Lifecycle.room_pos {l : Lifecycle} {options : Options} {totalNodes totalRels : UInt64}
    {sizing : Sizing} (h : l.plan options totalNodes totalRels = .ok sizing) :
    0 < sizing.fanOut * options.bytesPerEdge.toNat := by
  obtain ⟨-, hvalid, rfl⟩ := plan_eq_ok h
  have hnonzero : options.bytesPerEdge ≠ 0 ∧ options.minFanOut ≠ 0 := by
    rw [Options.validate] at hvalid
    split at hvalid
    · exact nomatch hvalid
    · next hbytes =>
      split at hvalid
      · exact nomatch hvalid
      · next hfan => exact ⟨hbytes, hfan⟩
  have hbytes : options.bytesPerEdge.toNat ≠ 0 := fun h0 ↦ hnonzero.1 (UInt64.toNat_inj.mp h0)
  have hfan : options.minFanOut.toNat ≠ 0 := fun h0 ↦ hnonzero.2 (UInt64.toNat_inj.mp h0)
  have hle : options.minFanOut.toNat
      ≤ Sizing.estimatedFanOut totalNodes totalRels options.minFanOut := Nat.le_max_right _ _
  exact Nat.mul_pos (Nat.lt_of_lt_of_le (Nat.pos_of_ne_zero hfan) hle) (Nat.pos_of_ne_zero hbytes)

namespace Store

/-- Once the store was opened, its contents record the given lists. -/
def Records (s : Store) (lists : Nat → List NodeId) : Prop :=
  ∀ sizing, s.lifecycle.sizing? = some sizing → s.contents.Records sizing.totalNodes.toNat lists

variable {s : Store} {lists : Nat → List NodeId} {node target : NodeId}

/-- A store that was never opened records anything. -/
theorem records_new (kind : Kind) (options : Options) (lists : Nat → List NodeId) :
    (new kind options).Records lists :=
  fun _ h ↦ nomatch h

theorem Records.of_eq {t : Store} (h : s.Records lists) (hcontents : t.contents = s.contents)
    (hsizing : t.lifecycle.sizing? = s.lifecycle.sizing?) : t.Records lists := by
  rw [Records, hcontents, hsizing]
  exact h

@[simp] theorem kind_new (kind : Kind) (options : Options) : (new kind options).kind = kind := by
  cases kind <;> rfl

theorem init_cases (s : Store) (totalNodes totalRels : UInt64) :
    (∃ cause, (s.init totalNodes totalRels).result = .error cause ∧
      (s.init totalNodes totalRels).state = s) ∨
    (∃ sizing, sizing.totalNodes = totalNodes ∧ sizing.totalRels = totalRels ∧
      s.lifecycle = .created ∧ (s.init totalNodes totalRels).result = .ok () ∧
      (s.init totalNodes totalRels).state.lifecycle = .loading sizing 0 ∧
      (s.init totalNodes totalRels).state.kind = s.kind ∧
      (s.init totalNodes totalRels).state.Records fun _ ↦ []) := by
  rw [init]
  cases hplan : s.lifecycle.plan s.options totalNodes totalRels with
  | error r => exact Or.inl ⟨r.cause, rfl, rfl⟩
  | ok sizing =>
    obtain ⟨hcreated, -, rfl⟩ := Lifecycle.plan_eq_ok hplan
    dsimp only
    cases hcontents : Contents.allocate s.kind s.options _ with
    | error r => exact Or.inl ⟨r.cause, rfl, rfl⟩
    | ok contents =>
      obtain ⟨hkind, hrecords⟩ :=
        Contents.records_allocate (Lifecycle.room_pos hplan) hcontents
      refine Or.inr ⟨_, rfl, rfl, hcreated, rfl, rfl, hkind, ?_⟩
      intro sizing hsizing
      cases hsizing
      exact hrecords

/-- **The outcomes of an entry:** it is refused and nothing changes; it is recorded; or it is
counted, but there is no memory left in the arena and the contents stay as they were. -/
theorem Records.append_cases (h : s.Records lists) (node target : NodeId) :
    (∃ r, s.lifecycle.accept node target = .error r ∧ s.append node target = r.leave s) ∨
    (∃ sizing n, s.lifecycle.accept node target = .ok (node.toNat, .loading sizing (n + 1)) ∧
      s.lifecycle = .loading sizing n ∧
      (s.append node target).state.lifecycle = .loading sizing (n + 1) ∧
      ((∃ trace, (s.append node target).result = .ok trace ∧
        (s.append node target).state.Records
          (Function.update lists node.toNat (lists node.toNat ++ [target]))) ∨
      (∃ limit requested,
        (s.append node target).result = .error (.capacityExceeded .pagedArena limit requested) ∧
        (s.append node target).state.contents = s.contents))) := by
  cases haccept : s.lifecycle.accept node target with
  | error r => exact Or.inl ⟨r, rfl, append_of_refused haccept⟩
  | ok admitted =>
    obtain ⟨i, l⟩ := admitted
    obtain ⟨sizing, n, hloading, hnode, -, -, rfl, rfl⟩ := Lifecycle.accept_eq_ok.mp haccept
    obtain ⟨hresult, hlifecycle, hcontents⟩ := append_of_accepted haccept
    have hrecords := h sizing (by rw [hloading]; rfl)
    refine Or.inr ⟨sizing, n, rfl, hloading, hlifecycle, ?_⟩
    rcases hrecords.append (UInt64.lt_iff_toNat_lt.mp hnode) target with
      ⟨trace, heq, hstate⟩ | ⟨limit, requested, heq, hstate⟩
    · -- The totals are those from before the entry.
      refine Or.inl ⟨trace, hresult.trans heq, ?_⟩
      intro sizing' hsizing
      rw [hlifecycle] at hsizing
      cases hsizing
      rw [hcontents]
      exact hstate
    · exact Or.inr ⟨limit, requested, hresult.trans heq, hcontents.trans hstate⟩

theorem Records.add_cases (h : s.Records lists) (e : Entry) :
    (∃ r, s.lifecycle.accept e.node e.target = .error r ∧ (s.add e).result = .error r.cause ∧
      (s.add e).state = s) ∨
    (∃ sizing n, s.lifecycle.accept e.node e.target
        = .ok (e.node.toNat, .loading sizing (n + 1)) ∧
      s.lifecycle = .loading sizing n ∧ (s.add e).state.lifecycle = .loading sizing (n + 1) ∧
      ((s.add e).result = .ok () ∧ (s.add e).state.Records
          (Function.update lists e.node.toNat (lists e.node.toNat ++ [e.target])) ∨
        ∃ limit requested,
          (s.add e).result = .error (.capacityExceeded .pagedArena limit requested) ∧
          (s.add e).state.contents = s.contents)) := by
  obtain ⟨hstate, hresult⟩ := add_eq s e
  rw [hstate]
  rcases h.append_cases e.node e.target with ⟨r, hrefused, heq⟩ |
    ⟨sizing, n, haccept, hloading, hnext, ⟨trace, hok, hmore⟩ | ⟨limit, requested, hfail, hsame⟩⟩
  · exact Or.inl ⟨r, hrefused, add_result_of_refused hrefused, by rw [heq]; rfl⟩
  · refine Or.inr ⟨sizing, n, haccept, hloading, hnext, Or.inl ⟨?_, hmore⟩⟩
    rcases hresult with ⟨hdone, -⟩ | ⟨cause, -, herror⟩
    · exact hdone
    · rw [hok] at herror
      exact nomatch herror
  · refine Or.inr ⟨sizing, n, haccept, hloading, hnext, Or.inr ⟨limit, requested, ?_, hsame⟩⟩
    rcases hresult with ⟨-, trace, hok⟩ | ⟨cause, hcause, herror⟩
    · rw [hfail] at hok
      exact nomatch hok
    · rw [hfail] at herror
      cases herror
      exact hcause

@[simp] theorem kind_append (s : Store) (node target : NodeId) :
    (s.append node target).state.kind = s.kind := by
  cases haccept : s.lifecycle.accept node target with
  | error r => rw [append_of_refused haccept]; rfl
  | ok admitted =>
    rw [kind, (append_of_accepted haccept).2.2, Contents.kind_append, kind]

@[simp] theorem kind_add (s : Store) (e : Entry) : (s.add e).state.kind = s.kind := by
  rw [(add_eq s e).1, kind_append]

theorem Records.targets_eq {sizing : Sizing} {n : Nat} (h : s.Records lists)
    (hloading : s.lifecycle = .loading sizing n) (hnode : node < sizing.totalNodes) :
    (s.targets node).result = .ok (if s.kind = .null then [] else lists node.toNat) := by
  have hrecords := h sizing (by rw [hloading]; rfl)
  rw [targets, hloading, Lifecycle.startRead_of_lt hnode]
  exact hrecords.targets_eq (UInt64.lt_iff_toNat_lt.mp hnode)

theorem Records.exists_represents {sizing : Sizing} (h : s.Records lists)
    (hkind : s.kind = .pagedBuffer) (hsizing : s.lifecycle.sizing? = some sizing) :
    ∃ a room chains, s.contents = .paged a ∧ a.Represents sizing.totalNodes.toNat room chains ∧
      ∀ n, n < sizing.totalNodes.toNat → (chains n).ids = lists n := by
  obtain ⟨a, hpaged⟩ := Contents.exists_eq_paged hkind
  have hcontents := h sizing hsizing
  rw [hpaged] at hcontents
  obtain ⟨room, chains, hrepresents, hids⟩ := hcontents
  exact ⟨a, room, chains, hpaged, hrepresents, hids⟩

theorem Records.targets_cases (h : s.Records lists) (node : NodeId) :
    (∃ r, s.lifecycle.startRead node = .error r ∧ s.targets node = r.leave s) ∨
    ∃ i l ids, s.lifecycle.startRead node = .ok (i, l) ∧
      s.targets node = ⟨.ok ids, { s with lifecycle := l }, []⟩ := by
  rw [targets]
  cases hread : s.lifecycle.startRead node with
  | error r => exact Or.inl ⟨r, rfl, rfl⟩
  | ok began =>
    obtain ⟨i, l⟩ := began
    obtain ⟨rfl, sizing, hsizing, hnode⟩ := Lifecycle.lt_of_startRead hread
    have hlist := (h sizing hsizing).targets_eq (UInt64.lt_iff_toNat_lt.mp hnode)
    exact Or.inr ⟨_, l, _, rfl, congrArg (Outcome.mk · { s with lifecycle := l } []) hlist⟩

theorem Records.chain_cases (h : s.Records lists) (hkind : s.kind = .pagedBuffer) (node : NodeId) :
    (∃ r, s.lifecycle.startRead node = .error r ∧ s.chain node = r.leave s) ∨
    ∃ i l blocks, s.lifecycle.startRead node = .ok (i, l) ∧
      s.chain node = ⟨.ok (some blocks), { s with lifecycle := l }, []⟩ := by
  cases hread : s.lifecycle.startRead node with
  | error r =>
    obtain ⟨a, hpaged⟩ := Contents.exists_eq_paged hkind
    refine Or.inl ⟨r, rfl, ?_⟩
    rw [chain, hpaged]
    dsimp only
    rw [hread]
  | ok began =>
    obtain ⟨i, l⟩ := began
    obtain ⟨rfl, sizing, hsizing, hnode⟩ := Lifecycle.lt_of_startRead hread
    obtain ⟨a, room, chains, hpaged, hrepresents, -⟩ := h.exists_represents hkind hsizing
    refine Or.inr ⟨_, l, (chains node.toNat).infos a.codec, rfl, ?_⟩
    rw [chain, hpaged]
    dsimp only
    rw [hread]
    dsimp only
    rw [hrepresents.chain_eq (UInt64.lt_iff_toNat_lt.mp hnode)]

theorem chain_of_kind_ne (hkind : s.kind ≠ .pagedBuffer) (node : NodeId) :
    s.chain node = .done s none := by
  rw [chain]
  split
  · next a hpaged => exact absurd (by rw [kind, hpaged]; rfl) hkind
  · rfl

end Store

end Adjacency
