import Adjacency.Store.Call

/-!
# How a store admits entries

An entry is admitted exactly if the store is being filled, both its nodes exist and the quota is not
used up (`accept_eq_ok`). An entry that is not admitted leaves the store alone; one that is admitted
is counted and handed to the contents, whatever comes of it (`append_of_refused`,
`append_of_accepted`).
-/

namespace Adjacency

namespace Lifecycle

variable {l l' : Lifecycle} {node target : NodeId} {i n : Nat} {sizing : Sizing}

theorem checkNode_eq_ok : checkNode sizing node = .ok () ↔ node < sizing.totalNodes := by
  unfold checkNode
  split
  · next h => exact iff_of_true rfl h
  · next h => exact iff_of_false (fun heq ↦ nomatch heq) h

theorem accept_of_lt (hnode : node < sizing.totalNodes) (htarget : target < sizing.totalNodes) :
    (loading sizing n).accept node target
      = if n < sizing.maxAppends then .ok (node.toNat, .loading sizing (n + 1))
        else .error ⟨.capacityExceeded .adjacencyEntries sizing.maxAppends (n + 1),
          [.appendsExhausted n sizing.maxAppends]⟩ := by
  rw [accept, checkNode_eq_ok.mpr hnode, checkNode_eq_ok.mpr htarget]

theorem accept_eq_ok : l.accept node target = .ok (i, l') ↔
    ∃ sizing n, l = .loading sizing n ∧ node < sizing.totalNodes ∧ target < sizing.totalNodes ∧
      n < sizing.maxAppends ∧ i = node.toNat ∧ l' = .loading sizing (n + 1) := by
  constructor
  · intro h
    cases l with
    | created => exact nomatch h
    | «sealed» sizing n => exact nomatch h
    | closed sizing n => exact nomatch h
    | loading sizing n =>
      have hnode : node < sizing.totalNodes := by
        refine Classical.byContradiction ?_
        intro hge
        rw [accept, checkNode, if_neg hge] at h
        exact nomatch h
      have htarget : target < sizing.totalNodes := by
        refine Classical.byContradiction ?_
        intro hge
        rw [accept, checkNode_eq_ok.mpr hnode, checkNode, if_neg hge] at h
        exact nomatch h
      rw [accept_of_lt hnode htarget] at h
      split at h
      · next hlt =>
        cases h
        exact ⟨sizing, n, rfl, hnode, htarget, hlt, rfl, rfl⟩
      · exact nomatch h
  · rintro ⟨sizing, n, rfl, hnode, htarget, hlt, rfl, rfl⟩
    rw [accept_of_lt hnode htarget, if_pos hlt]

/-- **Why an entry is refused:** it comes at the wrong time, it names a node that there is not, or
the quota is used up. -/
theorem accept_eq_error {r : Refusal} (h : l.accept node target = .error r) :
    (∃ v, r.cause = .sequencing v) ∨ (∃ sizing id, r.cause = outOfRange sizing id) ∨
      ∃ sizing n, l = .loading sizing n ∧ node < sizing.totalNodes ∧ target < sizing.totalNodes ∧
        sizing.maxAppends ≤ n ∧
        r.cause = .capacityExceeded .adjacencyEntries sizing.maxAppends (n + 1) := by
  cases l with
  | created => cases h; exact Or.inl ⟨_, rfl⟩
  | «sealed» sizing n => cases h; exact Or.inl ⟨_, rfl⟩
  | closed sizing n => cases h; exact Or.inl ⟨_, rfl⟩
  | loading sizing n =>
    by_cases hnode : node < sizing.totalNodes
    · by_cases htarget : target < sizing.totalNodes
      · rw [accept_of_lt hnode htarget] at h
        split at h
        · exact nomatch h
        · next hge =>
          cases h
          exact Or.inr (Or.inr ⟨sizing, n, rfl, hnode, htarget, Nat.le_of_not_lt hge, rfl⟩)
      · rw [accept, checkNode_eq_ok.mpr hnode, checkNode, if_neg htarget] at h
        cases h
        exact Or.inr (Or.inl ⟨sizing, target, rfl⟩)
    · rw [accept, checkNode, if_neg hnode] at h
      cases h
      exact Or.inr (Or.inl ⟨sizing, node, rfl⟩)

theorem startRead_eq_ok : l.startRead node = .ok (i, l') ↔
    ∃ sizing n, (l = .loading sizing n ∨ l = .sealed sizing n) ∧ node < sizing.totalNodes ∧
      i = node.toNat ∧ l' = .sealed sizing n := by
  constructor
  · intro h
    cases l with
    | created => exact nomatch h
    | closed sizing n => exact nomatch h
    | loading sizing n =>
      rw [startRead] at h
      split at h
      · next hnode =>
        cases h
        exact ⟨sizing, n, Or.inl rfl, hnode, rfl, rfl⟩
      · exact nomatch h
    | «sealed» sizing n =>
      rw [startRead] at h
      split at h
      · next hnode =>
        cases h
        exact ⟨sizing, n, Or.inr rfl, hnode, rfl, rfl⟩
      · exact nomatch h
  · rintro ⟨sizing, n, rfl | rfl, hnode, rfl, rfl⟩
    · exact if_pos hnode
    · exact if_pos hnode

theorem startRead_keeps (h : l.startRead node = .ok (i, l')) :
    l'.sizing? = l.sizing? ∧ l'.appended = l.appended := by
  obtain ⟨sizing, n, rfl | rfl, -, -, rfl⟩ := startRead_eq_ok.mp h
  · exact ⟨rfl, rfl⟩
  · exact ⟨rfl, rfl⟩

theorem lt_of_startRead (h : l.startRead node = .ok (i, l')) :
    i = node.toNat ∧ ∃ sizing, l.sizing? = some sizing ∧ node < sizing.totalNodes := by
  obtain ⟨sizing, n, rfl | rfl, hnode, rfl, -⟩ := startRead_eq_ok.mp h
  · exact ⟨rfl, sizing, rfl, hnode⟩
  · exact ⟨rfl, sizing, rfl, hnode⟩

theorem startRead_of_lt (hnode : node < sizing.totalNodes) :
    (loading sizing n).startRead node = .ok (node.toNat, .sealed sizing n) :=
  if_pos hnode

theorem close_eq_ok (h : l.close = .ok l') : l'.sizing? = l.sizing? ∧ l'.appended = l.appended := by
  cases l with
  | created => cases h; exact ⟨rfl, rfl⟩
  | loading sizing n => cases h; exact ⟨rfl, rfl⟩
  | «sealed» sizing n => cases h; exact ⟨rfl, rfl⟩
  | closed sizing n => exact nomatch h

theorem plan_eq_ok {options : Options} {totalNodes totalRels : UInt64}
    (h : l.plan options totalNodes totalRels = .ok sizing) :
    l = .created ∧ options.validate = .ok () ∧
      sizing = ⟨totalNodes, totalRels,
        Sizing.estimatedFanOut totalNodes totalRels options.minFanOut⟩ := by
  cases l with
  | loading sizing n => exact nomatch h
  | «sealed» sizing n => exact nomatch h
  | closed sizing n => exact nomatch h
  | created =>
    rw [plan] at h
    cases hvalid : options.validate with
    | error e => rw [hvalid] at h; exact nomatch h
    | ok u =>
      rw [hvalid] at h
      dsimp only at h
      rw [Sizing.ofTotals] at h
      split at h
      · exact nomatch h
      · next heq =>
        cases h
        split at heq
        · exact nomatch heq
        · cases heq
          exact ⟨rfl, rfl, rfl⟩

end Lifecycle

namespace Store

variable {s : Store} {node target : NodeId} {i : Nat} {l : Lifecycle}

/-! ## Entries -/

theorem append_of_refused {r : Refusal} (h : s.lifecycle.accept node target = .error r) :
    s.append node target = r.leave s := by
  rw [append, h]

theorem append_of_accepted (h : s.lifecycle.accept node target = .ok (i, l)) :
    (s.append node target).result = (s.contents.append i target).result ∧
      (s.append node target).state.lifecycle = l ∧
      (s.append node target).state.contents = (s.contents.append i target).state := by
  rw [append, h]
  dsimp only
  rcases s.contents.append i target with ⟨result, contents, events⟩
  cases result with
  | error e => exact ⟨rfl, rfl, rfl⟩
  | ok trace => exact ⟨rfl, rfl, rfl⟩

theorem add_eq (s : Store) (e : Entry) :
    (s.add e).state = (s.append e.node e.target).state ∧
      ((s.add e).result = .ok () ∧ (∃ trace, (s.append e.node e.target).result = .ok trace) ∨
        ∃ cause, (s.add e).result = .error cause ∧
          (s.append e.node e.target).result = .error cause) := by
  rw [add]
  rcases s.append e.node e.target with ⟨result, state, events⟩
  cases result with
  | error cause => exact ⟨rfl, Or.inr ⟨cause, rfl, rfl⟩⟩
  | ok trace => exact ⟨rfl, Or.inl ⟨rfl, trace, rfl⟩⟩

theorem add_result_of_refused {e : Entry} {r : Refusal}
    (h : s.lifecycle.accept e.node e.target = .error r) : (s.add e).result = .error r.cause := by
  rw [add, append_of_refused h]
  rfl

/-- A relationship is its first entry if that one fails, and otherwise the second one after the
first. -/
theorem addRelationship_cases (s : Store) (r : Relationship) :
    (∃ cause, (s.add r.outgoing).result = .error cause ∧
      (s.addRelationship r).result = .error cause ∧
      (s.addRelationship r).state = (s.add r.outgoing).state) ∨
    ((s.add r.outgoing).result = .ok () ∧
      (s.addRelationship r).result = ((s.add r.outgoing).state.add r.incoming).result ∧
      (s.addRelationship r).state = ((s.add r.outgoing).state.add r.incoming).state) := by
  rw [addRelationship]
  rcases s.add r.outgoing with ⟨result, t, events⟩
  cases result with
  | error cause => exact Or.inl ⟨cause, rfl, rfl, rfl⟩
  | ok u => exact Or.inr ⟨rfl, rfl, rfl⟩

end Store

end Adjacency
