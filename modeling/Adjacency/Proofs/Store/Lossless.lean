import Adjacency.Proofs.Store.Records

/-!
# Nothing recorded is lost

However entries for different nodes are interleaved, and whichever of them are refused, a store
afterwards answers for each node with the targets of the entries that it accepted for that node, in
the order in which they came.
-/

namespace Adjacency

/-- The targets of a node among some entries, in order. -/
def Entry.targetsOf (entries : List Entry) (node : NodeId) : List NodeId :=
  (entries.filter fun e ↦ e.node = node).map Entry.target

theorem Entry.targetsOf_cons (e : Entry) (entries : List Entry) (node : NodeId) :
    targetsOf (e :: entries) node
      = (if e.node = node then [e.target] else []) ++ targetsOf entries node := by
  rw [targetsOf, List.filter_cons]
  by_cases h : e.node = node
  · rw [if_pos (decide_eq_true h), if_pos h]
    rfl
  · rw [if_neg (by simpa using h), if_neg h]
    rfl

namespace Store

variable {s : Store} {lists : Nat → List NodeId} {sizing : Sizing} {n : Nat}

theorem Records.add (h : s.Records lists) (hloading : s.lifecycle = .loading sizing n)
    (e : Entry) :
    (∃ n, (s.add e).state.lifecycle = .loading sizing n) ∧
      (((s.add e).result = .ok () ∧ (s.add e).state.Records
          (Function.update lists e.node.toNat (lists e.node.toNat ++ [e.target]))) ∨
        ∃ cause, (s.add e).result = .error cause ∧ (s.add e).state.Records lists) := by
  rcases h.add_cases e with ⟨r, -, herror, hsame⟩ | ⟨sizing', n', -, hloading', hnext, hcases⟩
  · rw [hsame]
    exact ⟨⟨n, hloading⟩, Or.inr ⟨r.cause, herror, h⟩⟩
  · obtain ⟨rfl, rfl⟩ : sizing' = sizing ∧ n' = n := by
      rw [hloading] at hloading'
      cases hloading'
      exact ⟨rfl, rfl⟩
    refine ⟨⟨n' + 1, hnext⟩, hcases.imp id ?_⟩
    rintro ⟨limit, requested, herror, hcontents⟩
    exact ⟨_, herror, h.of_eq hcontents (by rw [hnext, hloading]; rfl)⟩

/-- **A history of entries records those that were accepted.** The induction is on the history; the
lists so far are arbitrary. -/
theorem Records.after_add (h : s.Records lists) (hloading : s.lifecycle = .loading sizing n)
    (calls : List Entry) :
    (Outcome.after Store.add s calls).kind = s.kind ∧
      (∃ n, (Outcome.after Store.add s calls).lifecycle = .loading sizing n) ∧
      ∃ more : Nat → List NodeId, (Outcome.after Store.add s calls).Records more ∧
        ∀ node : NodeId, more node.toNat
          = lists node.toNat ++ Entry.targetsOf (Outcome.answered Store.add s calls) node := by
  induction calls generalizing s lists n with
  | nil => exact ⟨rfl, ⟨n, hloading⟩, lists, h, fun node ↦ (List.append_nil _).symm⟩
  | cons e calls ih =>
    obtain ⟨⟨m, hnext⟩, hcases⟩ := h.add hloading e
    rw [Outcome.answered]
    rcases hcases with ⟨hresult, hrecords⟩ | ⟨cause, hresult, hrecords⟩
    · obtain ⟨hkind, hfill, more, hmore, hlists⟩ := ih hrecords hnext
      refine ⟨hkind.trans (kind_add s e), hfill, more, hmore, ?_⟩
      intro node
      rw [hlists node, hresult]
      dsimp only
      rw [Entry.targetsOf_cons]
      by_cases hnode : e.node = node
      · rw [hnode, Function.update_self, if_pos rfl, List.append_assoc]
      · rw [Function.update_of_ne fun heq ↦ hnode (UInt64.toNat_inj.mp heq).symm, if_neg hnode,
          List.nil_append]
    · rw [hresult]
      obtain ⟨hkind, hrest⟩ := ih hrecords hnext
      exact ⟨hkind.trans (kind_add s e), hrest⟩

/-- **A paged store is lossless and keeps the order.** After any history of entries on an opened
store, the list of each node consists of the targets of the entries accepted for it. -/
theorem targets_after_add {options : Options} {totalNodes totalRels : UInt64}
    (hinit : ((new .pagedBuffer options).init totalNodes totalRels).result = .ok ())
    (calls : List Entry) {node : NodeId} (hnode : node < totalNodes) :
    ((Outcome.after add ((new .pagedBuffer options).init totalNodes totalRels).state
      calls).targets node).result
        = .ok (Entry.targetsOf (Outcome.answered add
          ((new .pagedBuffer options).init totalNodes totalRels).state calls) node) := by
  rcases init_cases (new .pagedBuffer options) totalNodes totalRels with
    ⟨cause, herror, -⟩ | ⟨sizing, rfl, -, -, -, hloading, hkind, hrecords⟩
  · rw [hinit] at herror
    exact nomatch herror
  · obtain ⟨hkindAfter, ⟨m, hfill⟩, more, hmore, hlists⟩ := hrecords.after_add hloading calls
    rw [hmore.targets_eq hfill hnode, if_neg (by rw [hkindAfter, hkind, kind_new]; decide),
      hlists node, List.nil_append]

/-- Options for the smallest blocks, in an arena that gets no block beyond the first ones. -/
def narrow : Options := ⟨.lengthPrefixed, 1, 1, .one, none⟩

/-- A history that fills the block of the first node up, and goes on at the second node. -/
def overfill : List Entry :=
  [(0, 1), (0, 0), (0, 1), (0, 0), (0, 1), (0, 0), (0, 1), (0, 0), (0, 1), (1, 0)].map
    fun ids ↦ ⟨ids.1, ids.2, 0, .outgoing⟩

/-- The ninth entry finds no room; the eight before it are read back. -/
theorem targets_after_overfill :
    ((new .pagedBuffer narrow).init 3 5).result = .ok () ∧ (0 : NodeId) < 3 ∧
      ((Outcome.after add ((new .pagedBuffer narrow).init 3 5).state overfill).targets 0).result
        = .ok [1, 0, 1, 0, 1, 0, 1, 0] := by
  have hinit : ((new .pagedBuffer narrow).init 3 5).result = .ok () :=
    by decide +kernel
  have hlist : Entry.targetsOf (Outcome.answered add ((new .pagedBuffer narrow).init 3 5).state
      overfill) 0 = [1, 0, 1, 0, 1, 0, 1, 0] := by decide +kernel
  have hnode : (0 : NodeId) < 3 := by decide
  refine ⟨hinit, hnode, ?_⟩
  rw [targets_after_add hinit overfill hnode, hlist]

end Store

end Adjacency
