import Adjacency.Proofs.Store.Opening

/-!
# Warnings about limits

A call that fails for want of capacity should leave a warning in the log. Calls that open a store
or fill it do, whatever the limit (`Counted.warns_step`): no check on memory, on a layout or on an
entry gives a refusal for want of capacity without a warning, and an arena warns of a block that it
does not add.

Reads do not. That a node exists is checked again when a read begins, and this check, unlike the one
made for entries, says nothing. It is the only check on capacity that a read makes, so the calls
that fail silently are the reads of nodes that the store does not have (`warns_after_iff`).
-/

namespace Adjacency

/-- A warning is among the events. -/
def Event.Warned (events : List Event) : Prop := ∃ e ∈ events, e.level? = some .warn

theorem Event.warned_singleton {e : Event} (h : e.level? = some .warn) : Warned [e] :=
  ⟨e, List.mem_cons_self, h⟩

theorem Event.Warned.append_left {events : List Event} (h : Warned events) (before : List Event) :
    Warned (before ++ events) := by
  obtain ⟨e, he, hlevel⟩ := h
  exact ⟨e, List.mem_append_right before he, hlevel⟩

/-! ## Checks -/

namespace Check

/-- The check does not fail without a warning. -/
def Warned {α : Type} (x : Check α) : Prop := ∀ r, x = .error r → Event.Warned r.events

variable {α β : Type} {x : Check α}

theorem warned_ok (a : α) : Warned (.ok a) := fun _ h ↦ nomatch h

theorem warned_error {r : Refusal} (h : Event.Warned r.events) :
    Warned (.error r : Check α) := by
  intro r' heq
  cases heq
  exact h

theorem Warned.bind {f : α → Check β} (hx : Warned x) (hf : ∀ a, Warned (f a)) :
    Warned (x >>= f) := by
  intro r h
  rcases bind_eq_error.mp h with h | ⟨a, -, h⟩
  · exact hx r h
  · exact hf a r h

theorem Warned.map (hx : Warned x) (f : α → β) : Warned (f <$> x) := by
  cases x with
  | ok a => exact warned_ok (f a)
  | error r => exact warned_error (hx r rfl)

end Check

namespace Memory

open Check (Warned warned_ok warned_error)

theorem warned_product (what : Resource) (a b : Nat) : Warned (product what a b) := by
  rw [product]
  split
  · exact warned_ok _
  · exact warned_error (Event.warned_singleton rfl)

theorem warned_reserve (what : Resource) (elementSize capacity : Nat) :
    Warned (reserve what elementSize capacity) := by
  rw [reserve]
  split
  · exact warned_ok _
  · exact warned_error (Event.warned_singleton rfl)

end Memory

namespace Layout

open Check (Warned warned_ok warned_error)

variable (extraBlocks : Nat → Nat → Nat)

theorem warned_within (what : Resource) (nodes : Nat) (n? : Option Nat) :
    Warned (within what nodes n?) := by
  cases n? with
  | some n => exact warned_ok n
  | none => exact warned_error (Event.warned_singleton rfl)

theorem warned_ofHeader (nodes payload headerLen : Nat) :
    Warned (ofHeader extraBlocks nodes payload headerLen) :=
  (warned_within _ _ _).bind fun _ ↦ (warned_within _ _ _).bind fun _ ↦
    (warned_within _ _ _).bind fun _ ↦ (warned_within _ _ _).bind fun _ ↦ warned_ok _

theorem warned_settle (codec : Codec) (nodes payload rounds headerLen : Nat) :
    Warned (settle codec extraBlocks nodes payload rounds headerLen) := by
  induction rounds generalizing headerLen with
  | zero => exact warned_ofHeader extraBlocks nodes payload headerLen
  | succ rounds ih =>
    refine (warned_ofHeader extraBlocks nodes payload headerLen).bind fun l ↦ ?_
    split
    · exact warned_ok l
    · exact ih (l.widest codec)

theorem warned_choose (options : Options) (sizing : Sizing) :
    Warned (choose extraBlocks options sizing) :=
  (Memory.warned_product _ _ _).bind fun _ ↦ (warned_within _ _ _).bind fun _ ↦
    warned_settle extraBlocks _ _ _ _ _

end Layout

theorem Contents.warned_allocate (kind : Kind) (options : Options) (sizing : Sizing) :
    Check.Warned (allocate kind options sizing) := by
  cases kind with
  | null => exact Check.warned_ok _
  | plainArray =>
    exact Check.Warned.map ((Memory.warned_product _ _ _).bind fun _ ↦
      (Memory.warned_product _ _ _).bind fun _ ↦ (Memory.warned_reserve _ _ _).bind fun _ ↦
      (Memory.warned_reserve _ _ _).bind fun _ ↦ Check.warned_ok _) _
  | byteArray =>
    exact Check.Warned.map ((Memory.warned_product _ _ _).bind fun _ ↦
      (Memory.warned_product _ _ _).bind fun _ ↦ (Memory.warned_reserve _ _ _).bind fun _ ↦
      (Memory.warned_reserve _ _ _).bind fun _ ↦ Check.warned_ok _) _
  | pagedBuffer =>
    exact Check.Warned.map ((Layout.warned_choose _ options sizing).bind fun _ ↦
      (Memory.warned_reserve _ _ _).bind fun _ ↦ Check.warned_ok _) _

namespace Lifecycle

variable {l : Lifecycle} {node target : NodeId} {r : Refusal}

theorem warned_of_accept (h : l.accept node target = .error r) (hcapacity : r.cause.IsCapacity) :
    Event.Warned r.events := by
  cases l with
  | created | «sealed» | closed =>
    cases h
    exact hcapacity.elim
  | loading sizing n =>
    have hcheck {id : NodeId} {r : Refusal} (h : checkNode sizing id = .error r) :
        Event.Warned r.events := by
      rw [checkNode] at h
      split at h
      · cases h
      · cases h
        exact Event.warned_singleton rfl
    rw [accept] at h
    split at h
    · next hnode =>
      cases h
      exact hcheck hnode
    · next htarget =>
      cases h
      exact hcheck htarget
    · split at h
      · cases h
      · cases h
        exact Event.warned_singleton rfl

theorem not_isCapacity_of_plan {options : Options} {totalNodes totalRels : UInt64}
    (h : l.plan options totalNodes totalRels = .error r) : ¬ r.cause.IsCapacity := by
  cases l with
  | created =>
    obtain ⟨argument, hcause⟩ := plan_created_eq_error h
    rw [hcause]
    exact id
  | loading | «sealed» | closed =>
    cases h
    exact id

/-- The store can be read, but it does not have the node. -/
def Lacks (l : Lifecycle) (node : NodeId) : Prop :=
  ∃ sizing n, (l = .loading sizing n ∨ l = .sealed sizing n) ∧ sizing.totalNodes ≤ node

theorem startRead_of_lacks (h : l.Lacks node) :
    ∃ sizing, l.startRead node = .error (.silent (outOfRange sizing node)) := by
  obtain ⟨sizing, n, rfl | rfl, hle⟩ := h
  · exact ⟨sizing, if_neg (UInt64.not_lt.mpr hle)⟩
  · exact ⟨sizing, if_neg (UInt64.not_lt.mpr hle)⟩

theorem lacks_of_startRead (h : l.startRead node = .error r) (hcapacity : r.cause.IsCapacity) :
    l.Lacks node := by
  cases l with
  | created | closed =>
    cases h
    exact hcapacity.elim
  | loading sizing n =>
    rw [startRead] at h
    split at h
    · cases h
    · next hnode => exact ⟨sizing, n, Or.inl rfl, UInt64.not_lt.mp hnode⟩
  | «sealed» sizing n =>
    rw [startRead] at h
    split at h
    · cases h
    · next hnode => exact ⟨sizing, n, Or.inr rfl, UInt64.not_lt.mp hnode⟩

end Lifecycle

/-! ## Calls -/

namespace Outcome

variable {σ α β : Type} {o : Outcome σ α}

/-- The call does not fail for want of capacity without a warning. -/
def Warns (o : Outcome σ α) : Prop :=
  ∀ cause, o.result = .error cause → cause.IsCapacity → Event.Warned o.events

theorem warns_of_ok {a : α} (h : o.result = .ok a) : o.Warns := by
  intro cause herror
  rw [h] at herror
  cases herror

theorem warns_leave {r : Refusal} (h : r.cause.IsCapacity → Event.Warned r.events) (s : σ) :
    (r.leave s : Outcome σ α).Warns := by
  intro cause herror hcapacity
  cases herror
  exact h hcapacity

theorem not_warns {cause : Error} (herror : o.result = .error cause) (hcapacity : cause.IsCapacity)
    (hevents : o.events = []) : ¬ o.Warns := by
  intro hwarns
  obtain ⟨e, he, -⟩ := hwarns cause herror hcapacity
  rw [hevents] at he
  exact List.not_mem_nil he

theorem Warns.map (h : o.Warns) (f : α → β) : (o.map f).Warns :=
  fun cause herror ↦ h cause (result_map_eq_error.mp herror)

theorem Warns.andThen {next : σ → α → Outcome σ β} (h : o.Warns)
    (hnext : ∀ a, o.result = .ok a → (next o.state a).Warns) : (o.andThen next).Warns := by
  rcases o with ⟨result, s, events⟩
  cases result with
  | error e =>
    intro cause herror
    cases herror
    exact h e rfl
  | ok a =>
    intro cause herror hcapacity
    exact (hnext a rfl cause herror hcapacity).append_left events

end Outcome

theorem Contents.Records.warns_append {c : Contents} {nodes node : Nat}
    {lists : Nat → List NodeId} (h : c.Records nodes lists) (hn : node < nodes)
    (target : NodeId) : (c.append node target).Warns := by
  cases c with
  | null => exact Outcome.warns_of_ok rfl
  | plain a => exact Outcome.warns_of_ok rfl
  | coded a => exact Outcome.warns_of_ok rfl
  | paged a =>
    obtain ⟨room, chains, ha, -⟩ := h
    rw [Contents.append]
    rcases ha.append_cases hn target with ⟨-, heq⟩ | ⟨-, -, capacity, -, heq⟩ |
      ⟨-, limit, requested, event, hrefused, heq⟩
    · rw [heq]
      exact Outcome.warns_of_ok rfl
    · rw [heq]
      exact Outcome.warns_of_ok rfl
    · -- The links that were followed are told before.
      obtain ⟨hlevel, -⟩ := Arena.event_of_allocateBlock ha.nextFree_eq hrefused
      rw [heq]
      exact fun _ _ _ ↦ (Event.warned_singleton hlevel).append_left [_]

namespace Store

variable {s : Store} {lists : Nat → List NodeId} {rs : List (Except Error Unit)} {node : NodeId}

theorem warns_init (s : Store) (totalNodes totalRels : UInt64) :
    (s.init totalNodes totalRels).Warns := by
  rw [init]
  cases hplan : s.lifecycle.plan s.options totalNodes totalRels with
  | error r =>
    exact Outcome.warns_leave
      (fun hcapacity ↦ absurd hcapacity (Lifecycle.not_isCapacity_of_plan hplan)) s
  | ok sizing =>
    dsimp only
    cases hcontents : Contents.allocate s.kind s.options sizing with
    | error r =>
      exact Outcome.warns_leave (fun _ ↦ Contents.warned_allocate _ _ _ r hcontents) s
    | ok contents => exact Outcome.warns_of_ok rfl

theorem Records.warns_append (h : s.Records lists) (node target : NodeId) :
    (s.append node target).Warns := by
  cases haccept : s.lifecycle.accept node target with
  | error r =>
    rw [append_of_refused haccept]
    exact Outcome.warns_leave (Lifecycle.warned_of_accept haccept) s
  | ok admitted =>
    obtain ⟨sizing, n, hloading, hnode, -, -, hi, -⟩ := Lifecycle.accept_eq_ok.mp haccept
    have hcontents := (h sizing (by rw [hloading]; rfl)).warns_append
      (hi ▸ UInt64.lt_iff_toNat_lt.mp hnode) target
    rw [append, haccept]
    dsimp only
    rcases heq : s.contents.append admitted.1 target with ⟨result, contents, events⟩
    rw [heq] at hcontents
    cases result with
    | ok trace => exact Outcome.warns_of_ok rfl
    | error e =>
      intro cause herror
      cases herror
      exact hcontents e rfl

theorem Records.warns_add (h : s.Records lists) (e : Entry) : (s.add e).Warns := by
  have happend := h.warns_append e.node e.target
  rw [Store.add]
  rcases heq : s.append e.node e.target with ⟨result, t, events⟩
  rw [heq] at happend
  cases result with
  | ok trace => exact Outcome.warns_of_ok rfl
  | error cause => exact fun _ herror ↦ by cases herror; exact happend cause rfl

/-- The second entry comes to a store that counted the first. -/
theorem Counted.warns_addRelationship (h : s.Counted rs) (r : Relationship) :
    (s.addRelationship r).Warns := by
  obtain ⟨lists, hrecords⟩ := h.records
  obtain ⟨more, hmore⟩ := (h.add r.outgoing).records
  exact (hrecords.warns_add r.outgoing).andThen fun _ _ ↦ hmore.warns_add r.incoming

theorem warns_close (s : Store) : s.close.Warns := by
  rw [close]
  cases hclose : s.lifecycle.close with
  | ok l => exact Outcome.warns_of_ok rfl
  | error r =>
    refine Outcome.warns_leave ?_ s
    cases hlifecycle : s.lifecycle with
    | created | loading | «sealed» =>
      rw [hlifecycle] at hclose
      cases hclose
    | closed =>
      rw [hlifecycle] at hclose
      cases hclose
      exact False.elim

/-- The node that a call reads. Where there are no blocks, the call about blocks does not read. -/
def Call.nodeRead? (kind : Kind) : Call → Option NodeId
  | .targets node => some node
  | .chain node => if kind = .pagedBuffer then some node else none
  | .init .. | .add _ | .addRelationship _ | .trace .. | .close => none

/-- **A call that does not read warns of every limit.** -/
theorem Counted.warns_step (h : s.Counted rs) {c : Call} (hread : c.nodeRead? s.kind = none) :
    (s.step c).Warns := by
  obtain ⟨lists, hrecords⟩ := h.records
  cases c with
  | init totalNodes totalRels => exact (warns_init s totalNodes totalRels).map _
  | add e => exact (hrecords.warns_add e).map _
  | addRelationship r => exact (h.warns_addRelationship r).map _
  | trace node target =>
    refine Outcome.Warns.map ?_ _
    rw [trace]
    split
    · exact hrecords.warns_append node target
    · exact Outcome.warns_of_ok rfl
  | targets node => cases hread
  | chain node =>
    have hkind : s.kind ≠ .pagedBuffer := by
      intro hpaged
      rw [Call.nodeRead?, if_pos hpaged] at hread
      cases hread
    rw [Store.step, chain_of_kind_ne hkind]
    exact Outcome.warns_of_ok rfl
  | close => exact (warns_close s).map _

theorem Records.read_cases (h : s.Records lists) {c : Call}
    (hread : c.nodeRead? s.kind = some node) :
    (∃ r, s.lifecycle.startRead node = .error r ∧ (s.step c).result = .error r.cause ∧
      (s.step c).events = r.events) ∨
    ∃ i l answer, s.lifecycle.startRead node = .ok (i, l) ∧ (s.step c).result = .ok answer := by
  cases c with
  | init | add | addRelationship | trace | close => cases hread
  | targets node =>
    cases hread
    rw [step]
    rcases h.targets_cases node with ⟨r, hstart, heq⟩ | ⟨i, l, ids, hstart, heq⟩
    · rw [heq]
      exact Or.inl ⟨r, hstart, rfl, rfl⟩
    · rw [heq]
      exact Or.inr ⟨i, l, _, hstart, rfl⟩
  | chain node =>
    have hkind : s.kind = .pagedBuffer := by
      by_contra hne
      rw [Call.nodeRead?, if_neg hne] at hread
      cases hread
    rw [Call.nodeRead?, if_pos hkind] at hread
    cases hread
    rw [step]
    rcases h.chain_cases hkind node with ⟨r, hstart, heq⟩ | ⟨i, l, blocks, hstart, heq⟩
    · rw [heq]
      exact Or.inl ⟨r, hstart, rfl, rfl⟩
    · rw [heq]
      exact Or.inr ⟨i, l, _, hstart, rfl⟩

/-- The call reads a node that the store does not have. -/
def ReadsBeyond (s : Store) (c : Call) : Prop :=
  ∃ node, c.nodeRead? s.kind = some node ∧ s.lifecycle.Lacks node

theorem Records.silent_of_readsBeyond (h : s.Records lists) {c : Call} (hbeyond : s.ReadsBeyond c) :
    (s.step c).events = [] ∧ ∃ limit requested,
      (s.step c).result = .error (.capacityExceeded .nodeId limit requested) := by
  obtain ⟨node, hread, hlacks⟩ := hbeyond
  obtain ⟨sizing, hsilent⟩ := Lifecycle.startRead_of_lacks hlacks
  rcases h.read_cases hread with ⟨r, hstart, hresult, hevents⟩ | ⟨i, l, -, hstart, -⟩
  · rw [hsilent] at hstart
    cases hstart
    exact ⟨hevents, _, _, hresult⟩
  · rw [hsilent] at hstart
    cases hstart

/-- **The calls that fail silently** for want of capacity are the reads beyond the nodes. -/
theorem Counted.warns_iff (h : s.Counted rs) (c : Call) :
    (s.step c).Warns ↔ ¬ s.ReadsBeyond c := by
  obtain ⟨lists, hrecords⟩ := h.records
  constructor
  · intro hwarns hbeyond
    obtain ⟨hevents, limit, requested, hresult⟩ := hrecords.silent_of_readsBeyond hbeyond
    exact Outcome.not_warns hresult trivial hevents hwarns
  · intro hnot
    cases hread : c.nodeRead? s.kind with
    | none => exact h.warns_step hread
    | some node =>
      rcases hrecords.read_cases hread with ⟨r, hstart, hresult, -⟩ | ⟨i, l, answer, -, hresult⟩
      · intro cause hcause hcapacity
        rw [hresult] at hcause
        cases hcause
        exact absurd ⟨node, hread, Lifecycle.lacks_of_startRead hstart hcapacity⟩ hnot
      · exact Outcome.warns_of_ok hresult

/-- **Which limits a store warns of.** After any history of a store of any kind, a call that fails
for want of capacity leaves a warning, unless it reads a node that the store does not have. Such a
read, in a store that is being filled or read, fails for want of capacity and leaves no event at
all. -/
theorem warns_after_iff (kind : Kind) (options : Options) (calls : List Call) (c : Call) :
    let s := Outcome.after step (new kind options) calls
    ((s.step c).Warns ↔ ¬ s.ReadsBeyond c) ∧
      (s.ReadsBeyond c → (s.step c).events = [] ∧ ∃ limit requested,
        (s.step c).result = .error (.capacityExceeded .nodeId limit requested)) := by
  intro s
  obtain ⟨rs, hcounted⟩ := (lives_after kind options calls).counted
  obtain ⟨lists, hrecords⟩ := hcounted.records
  exact ⟨hcounted.warns_iff c, hrecords.silent_of_readsBeyond⟩

/-- A store with one node is asked for a second one. It has none, and says nothing about it. -/
theorem silent_targets :
    let s := Outcome.after step (new .null .default) [.init 1 1]
    (s.step (.targets 1)).result = .error (.capacityExceeded .nodeId 1 2) ∧
      (s.step (.targets 1)).events = [] ∧ ¬ (s.step (.targets 1)).Warns := by
  intro s
  have hresult : (s.step (.targets 1)).result = .error (.capacityExceeded .nodeId 1 2) := by
    decide +kernel
  have hevents : (s.step (.targets 1)).events = [] := by decide +kernel
  exact ⟨hresult, hevents, Outcome.not_warns hresult trivial hevents⟩

end Store

end Adjacency
