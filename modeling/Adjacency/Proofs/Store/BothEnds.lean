import Adjacency.Proofs.Store.Counting
import Adjacency.Proofs.Store.Quota

/-!
# Both ends of a relationship

A relationship is entered twice, at its source and at its target, and a failure of the second entry
does not undo the first. So after some relationships the lists of two nodes need not mention each
other equally often. They do if each relationship that was entered at its source only is added once
more on the other side (`Balanced`), and every call keeps it so (`Paired.addRelationship`).

A relationship can be cut in half only where memory may run out halfway, in an arena. Everywhere
else the second entry goes the way of the first: both its nodes were checked already, and the quota
is even, so if it admits one more entry it admits two (`Records.addRelationship_of_room`).
-/

namespace Adjacency

/-! ## Lists that mention each other -/

/-- The lists with an entry added to the list of its node. -/
def Entry.enter (e : Entry) (lists : Nat → List NodeId) : Nat → List NodeId :=
  Function.update lists e.node.toNat (lists e.node.toNat ++ [e.target])

/-- The relationship goes from the one node to the other. -/
def Relationship.joins (source target : NodeId) (r : Relationship) : Bool :=
  decide (r.source = source ∧ r.target = target)

/-- Two nodes mention each other equally often in their lists, once the relationships of `halves`
that go from one to the other are added at their target. -/
def Balanced (lists : Nat → List NodeId) (halves : List Relationship) : Prop :=
  ∀ u v : NodeId, (lists u.toNat).count v + halves.countP (Relationship.joins v u)
    = (lists v.toNat).count u + halves.countP (Relationship.joins u v)

variable {lists : Nat → List NodeId} {halves : List Relationship}

namespace Entry

theorem enter_self (e : Entry) (lists : Nat → List NodeId) :
    e.enter lists e.node.toNat = lists e.node.toNat ++ [e.target] :=
  Function.update_self _ _ _

theorem enter_of_ne {e : Entry} {n : Nat} (hne : n ≠ e.node.toNat) : e.enter lists n = lists n :=
  Function.update_of_ne hne _ _

theorem enter_toNat_of_ne {e : Entry} {node : NodeId} (hne : e.node ≠ node) :
    e.enter lists node.toNat = lists node.toNat :=
  enter_of_ne fun heq ↦ hne (UInt64.toNat_inj.mp heq).symm

theorem count_enter (e : Entry) (lists : Nat → List NodeId) (u v : NodeId) :
    (e.enter lists u.toNat).count v
      = (lists u.toNat).count v + if e.node = u ∧ e.target = v then 1 else 0 := by
  by_cases hu : e.node = u
  · rw [← hu, enter_self, List.count_append, List.count_singleton]
    simp only [beq_iff_eq, true_and]
  · rw [enter_toNat_of_ne hu, if_neg fun hboth ↦ hu hboth.1, Nat.add_zero]

end Entry

theorem balanced_nil : Balanced (fun _ ↦ []) [] := fun _ _ ↦ rfl

theorem Balanced.both (h : Balanced lists halves) (r : Relationship) :
    Balanced (r.incoming.enter (r.outgoing.enter lists)) halves := by
  intro u v
  have huv := h u v
  simp only [Entry.count_enter, Relationship.outgoing, Relationship.incoming,
    and_comm (a := r.target = u), and_comm (a := r.target = v)]
  omega

theorem Balanced.half (h : Balanced lists halves) (r : Relationship) :
    Balanced (r.outgoing.enter lists) (halves ++ [r]) := by
  intro u v
  have huv := h u v
  simp only [Entry.count_enter, Relationship.outgoing, List.countP_append, List.countP_singleton,
    Relationship.joins, decide_eq_true_eq]
  omega

namespace Store

/-! ## Relationships cut in half -/

/-- The call enters the relationship at its source and then fails. -/
def isHalf (s : Store) (r : Relationship) : Bool :=
  (s.add r.outgoing).result.isOk && !(s.addRelationship r).result.isOk

/-- The relationships of a history that are entered at their source only. -/
def halfRecorded : Store → List Relationship → List Relationship
  | _, [] => []
  | s, r :: rels =>
    (if s.isHalf r then [r] else []) ++ halfRecorded (s.addRelationship r).state rels

/-- The store keeps lists and is being filled, and the lists are balanced but for some halves. -/
structure Paired (s : Store) (sizing : Sizing) (halves : List Relationship) : Prop where
  kind_ne : s.kind ≠ .null
  loading : ∃ n, s.lifecycle = .loading sizing n
  records : ∃ lists, s.Records lists ∧ Balanced lists halves

variable {s : Store} {sizing : Sizing} {n m k : Nat}

/-- The call fails at the source, or enters the relationship at both ends, or cuts it in half. -/
theorem isHalf_cases (s : Store) (r : Relationship) :
    (∃ cause, (s.add r.outgoing).result = .error cause ∧ s.isHalf r = false ∧
      (s.addRelationship r).state = (s.add r.outgoing).state) ∨
    (s.add r.outgoing).result = .ok () ∧
      (s.addRelationship r).state = ((s.add r.outgoing).state.add r.incoming).state ∧
      (((s.add r.outgoing).state.add r.incoming).result = .ok () ∧ s.isHalf r = false ∨
        ∃ cause, ((s.add r.outgoing).state.add r.incoming).result = .error cause ∧
          s.isHalf r = true) := by
  rw [isHalf]
  rcases addRelationship_cases s r with ⟨cause, herror, -, hstate⟩ | ⟨hok, hresult, hstate⟩
  · refine Or.inl ⟨cause, herror, ?_, hstate⟩
    rw [herror]
    rfl
  · refine Or.inr ⟨hok, hstate, ?_⟩
    rw [hok, hresult]
    cases hsecond : ((s.add r.outgoing).state.add r.incoming).result with
    | ok u => exact Or.inl ⟨rfl, rfl⟩
    | error cause => exact Or.inr ⟨cause, rfl, rfl⟩

theorem Records.add_of_ok (h : s.Records lists) (hloading : s.lifecycle = .loading sizing n)
    {e : Entry} (hok : (s.add e).result = .ok ()) :
    e.node < sizing.totalNodes ∧ e.target < sizing.totalNodes ∧ n < sizing.maxAppends ∧
      (s.add e).state.lifecycle = .loading sizing (n + 1) ∧
      (s.add e).state.Records (e.enter lists) := by
  rcases h.add_cases e with ⟨r, -, herror, -⟩ |
    ⟨_, _, haccept, -, hnext, ⟨-, hmore⟩ | ⟨limit, requested, herror, -⟩⟩
  · rw [hok] at herror
    exact nomatch herror
  · rw [hloading] at haccept
    obtain ⟨_, _, hl, hnode, htarget, hlt, -, hl'⟩ := Lifecycle.accept_eq_ok.mp haccept
    cases hl
    cases hl'
    exact ⟨hnode, htarget, hlt, hnext, hmore⟩
  · rw [hok] at herror
    exact nomatch herror

theorem Records.add_of_error (h : s.Records lists) {e : Entry} {cause : Error}
    (herror : (s.add e).result = .error cause) (hroom : isExhausted (s.add e).result = false) :
    (∃ r, s.lifecycle.accept e.node e.target = .error r) ∧ (s.add e).state = s := by
  rcases h.add_cases e with ⟨r, hrefused, -, hsame⟩ |
    ⟨_, _, -, -, -, ⟨hok, -⟩ | ⟨limit, requested, hfail, -⟩⟩
  · exact ⟨⟨r, hrefused⟩, hsame⟩
  · rw [herror] at hok
    exact nomatch hok
  · rw [hfail] at hroom
    exact nomatch hroom

/-- **A relationship is entered at both ends, at none, or noted as a half.** -/
theorem Paired.addRelationship (h : s.Paired sizing halves) (r : Relationship) :
    (s.addRelationship r).state.Paired sizing (halves ++ if s.isHalf r then [r] else []) := by
  obtain ⟨n, hloading⟩ := h.loading
  obtain ⟨lists, hrecords, hbalanced⟩ := h.records
  have hkind : ∀ e, (s.add e).state.kind ≠ .null := fun e ↦ (kind_add s e).symm ▸ h.kind_ne
  rcases isHalf_cases s r with ⟨cause, herror, hhalf, hstate⟩ | ⟨hok, hstate, hsecond⟩
  · obtain ⟨hfirst, ⟨hok, -⟩ | ⟨_, -, hsame⟩⟩ := hrecords.add hloading r.outgoing
    · rw [herror] at hok
      exact nomatch hok
    · rw [hstate, hhalf]
      exact ⟨hkind _, hfirst, lists, hsame, (List.append_nil halves).symm ▸ hbalanced⟩
  · obtain ⟨-, -, -, hnext, hentered⟩ := hrecords.add_of_ok hloading hok
    obtain ⟨hfill, hcases⟩ := hentered.add hnext r.incoming
    have hlast : ((s.add r.outgoing).state.add r.incoming).state.kind ≠ .null := by
      rw [kind_add]
      exact hkind r.outgoing
    rw [hstate]
    rcases hsecond with ⟨hdone, hhalf⟩ | ⟨cause, herror, hhalf⟩
    · rw [hhalf]
      obtain ⟨-, -, -, -, hboth⟩ := hentered.add_of_ok hnext hdone
      exact ⟨hlast, hfill, _, hboth, (List.append_nil halves).symm ▸ hbalanced.both r⟩
    · rw [hhalf]
      rcases hcases with ⟨hdone, -⟩ | ⟨_, -, hsource⟩
      · rw [herror] at hdone
        exact nomatch hdone
      · exact ⟨hlast, hfill, _, hsource, hbalanced.half r⟩

/-- **The lists are balanced after any history of relationships,** but for the halves in it. -/
theorem Paired.after (h : s.Paired sizing halves) (rels : List Relationship) :
    (Outcome.after Store.addRelationship s rels).Paired sizing
      (halves ++ halfRecorded s rels) := by
  induction rels generalizing s halves with
  | nil =>
    rw [halfRecorded, List.append_nil]
    exact h
  | cons r rels ih =>
    rw [halfRecorded, ← List.append_assoc]
    exact ih (h.addRelationship r)

theorem Paired.count_eq (h : s.Paired sizing halves) {u v : NodeId} (hu : u < sizing.totalNodes)
    (hv : v < sizing.totalNodes) :
    ∃ us vs, (s.targets u).result = .ok us ∧ (s.targets v).result = .ok vs ∧
      us.count v + halves.countP (Relationship.joins v u)
        = vs.count u + halves.countP (Relationship.joins u v) := by
  obtain ⟨n, hloading⟩ := h.loading
  obtain ⟨lists, hrecords, hbalanced⟩ := h.records
  refine ⟨lists u.toNat, lists v.toNat, ?_, ?_, hbalanced u v⟩
  · rw [hrecords.targets_eq hloading hu, if_neg h.kind_ne]
  · rw [hrecords.targets_eq hloading hv, if_neg h.kind_ne]

/-! ## Where no relationship is cut in half -/

/-- **With an even quota and enough memory no relationship is cut in half:** the quota admits both
entries or none. -/
theorem Records.addRelationship_of_room (h : s.Records lists)
    (hloading : s.lifecycle = .loading sizing (2 * m)) (hquota : sizing.maxAppends = 2 * k)
    {r : Relationship} (hroom : ∀ x ∈ s.entryResults (.addRelationship r), isExhausted x = false) :
    s.isHalf r = false ∧
      (∃ m, (s.addRelationship r).state.lifecycle = .loading sizing (2 * m)) ∧
      ∃ lists, (s.addRelationship r).state.Records lists := by
  have hfirst := hroom _ List.mem_cons_self
  rcases isHalf_cases s r with ⟨cause, herror, hhalf, hstate⟩ | ⟨hok, hstate, hsecond⟩
  · rw [hstate, (h.add_of_error herror hfirst).2]
    exact ⟨hhalf, ⟨m, hloading⟩, lists, h⟩
  · obtain ⟨hsource, htarget, hlt, hnext, hentered⟩ := h.add_of_ok hloading hok
    rw [hstate]
    rcases hsecond with ⟨hdone, hhalf⟩ | ⟨cause, herror, -⟩
    · obtain ⟨-, -, -, hlast, hboth⟩ := hentered.add_of_ok hnext hdone
      exact ⟨hhalf, ⟨m + 1, hlast⟩, _, hboth⟩
    · -- The second entry cannot be refused, since its nodes exist and the quota is even.
      have hmem : ((s.add r.outgoing).state.add r.incoming).result
          ∈ s.entryResults (.addRelationship r) := by
        rw [entryResults, hok]
        exact List.mem_cons_of_mem _ List.mem_cons_self
      obtain ⟨⟨refusal, hrefused⟩, -⟩ := hentered.add_of_error herror (hroom _ hmem)
      have haccept : (Lifecycle.loading sizing (2 * m + 1)).accept r.incoming.node r.incoming.target
          = _ := Lifecycle.accept_of_lt htarget hsource
      rw [← hnext, hrefused, if_pos (by omega)] at haccept
      cases haccept

theorem Records.halfRecorded_eq_nil (h : s.Records lists)
    (hloading : s.lifecycle = .loading sizing (2 * m)) (hquota : sizing.maxAppends = 2 * k)
    {rels : List Relationship}
    (hroom : ∀ x ∈ allEntryResults s (rels.map .addRelationship), isExhausted x = false) :
    halfRecorded s rels = [] := by
  induction rels generalizing s lists m with
  | nil => rfl
  | cons r rels ih =>
    obtain ⟨hhalf, ⟨m', hnext⟩, lists', hrecords⟩ := h.addRelationship_of_room hloading hquota
      fun x hx ↦ hroom x (List.mem_append_left _ hx)
    rw [halfRecorded, hhalf, ih hrecords hnext fun x hx ↦ hroom x (List.mem_append_right _ hx)]
    rfl

/-! ## Opened stores -/

/-- **How often two nodes mention each other.** After any relationships on an opened store that
keeps anything, two nodes mention each other equally often, if each relationship between them that
was cut in half is counted at its target as well. No relationship is cut in half unless an entry met
an exhausted arena; so only an arena ever cuts one in half. -/
theorem count_at_both_ends {kind : Kind} (hkind : kind ≠ .null) {options : Options}
    {totalNodes totalRels : UInt64}
    (hinit : ((new kind options).init totalNodes totalRels).result = .ok ())
    (rels : List Relationship) :
    let opened := ((new kind options).init totalNodes totalRels).state
    let s := Outcome.after addRelationship opened rels
    let halves := halfRecorded opened rels
    (∀ u v, u < totalNodes → v < totalNodes → ∃ us vs,
      (s.targets u).result = .ok us ∧ (s.targets v).result = .ok vs ∧
        us.count v + halves.countP (Relationship.joins v u)
          = vs.count u + halves.countP (Relationship.joins u v)) ∧
    ((∀ x ∈ allEntryResults opened (rels.map .addRelationship), isExhausted x = false) →
      halves = []) ∧
    (kind ≠ .pagedBuffer → halves = []) := by
  intro opened s halves
  rcases init_cases (new kind options) totalNodes totalRels with
    ⟨cause, herror, -⟩ | ⟨sizing, rfl, -, -, -, hloading, hsame, hrecords⟩
  · rw [hinit] at herror
    exact nomatch herror
  · have hnull : (new kind options).kind ≠ .null := by rw [kind_new]; exact hkind
    have hquota := maxAppends_eq_of_init hnull hinit hloading
    have hwhole : (∀ x ∈ allEntryResults opened (rels.map .addRelationship),
        isExhausted x = false) → halves = [] :=
      hrecords.halfRecorded_eq_nil (m := 0) hloading hquota
    have hopened : opened.kind = kind := by rw [hsame, kind_new]
    refine ⟨?_, hwhole, ?_⟩
    · intro u v hu hv
      have hpaired : opened.Paired sizing [] :=
        ⟨by rw [hopened]; exact hkind, ⟨0, hloading⟩, _, hrecords, balanced_nil⟩
      exact (hpaired.after rels).count_eq hu hv
    · intro hpaged
      exact hwhole (isExhausted_of_mem_allEntryResults (by rw [hopened]; exact hpaged) _)

/-- Relationships that all lead to the first node, and that its block has no room for all of. -/
def crowd : List Relationship := [1, 2, 3, 4, 5, 6, 7, 8, 9].map fun source ↦ ⟨source, 0, 0⟩

/-- The ninth relationship is cut in half, and balances the two lists if it is counted twice. -/
theorem count_at_both_ends_crowd :
    Kind.pagedBuffer ≠ .null ∧ ((new .pagedBuffer narrow).init 10 9).result = .ok () ∧
      halfRecorded ((new .pagedBuffer narrow).init 10 9).state crowd = [⟨9, 0, 0⟩] ∧
      ∃ us vs,
        ((Outcome.after addRelationship ((new .pagedBuffer narrow).init 10 9).state
          crowd).targets 0).result = .ok us ∧
        ((Outcome.after addRelationship ((new .pagedBuffer narrow).init 10 9).state
          crowd).targets 9).result = .ok vs ∧
        us.count 9 + 1 = vs.count 0 := by
  have hkind : Kind.pagedBuffer ≠ .null := by decide
  have hinit : ((new .pagedBuffer narrow).init 10 9).result = .ok () := by decide +kernel
  have hhalves : halfRecorded ((new .pagedBuffer narrow).init 10 9).state crowd = [⟨9, 0, 0⟩] := by
    decide +kernel
  obtain ⟨hcount, -, -⟩ := count_at_both_ends hkind hinit crowd
  obtain ⟨us, vs, hus, hvs, hbalanced⟩ := hcount 0 9 (by decide) (by decide)
  rw [hhalves] at hbalanced
  exact ⟨hkind, hinit, hhalves, us, vs, hus, hvs, hbalanced⟩

/-- The last node mentions the first one, which does not mention it. -/
theorem targets_after_crowd :
    ((new .pagedBuffer narrow).init 10 9).result = .ok () ∧
      ((Outcome.after addRelationship ((new .pagedBuffer narrow).init 10 9).state
        crowd).targets 0).result = .ok [1, 2, 3, 4, 5, 6, 7, 8] ∧
      ((Outcome.after addRelationship ((new .pagedBuffer narrow).init 10 9).state
        crowd).targets 9).result = .ok [0] := by
  refine ⟨?_, ?_, ?_⟩
  · decide +kernel
  · decide +kernel
  · decide +kernel

end Store

end Adjacency
