import Adjacency.Proofs.Store.Confinement
import Adjacency.Proofs.Store.Quota

/-!
# What the counters of a store say

The counters are moved by events in the middle of a call: the links that were followed are counted
before a block is asked for, a block before the entry is written, a growth before the id is added.
Whether the call goes on well after that is another matter. Still the counters agree with the store
after every call, since a call that fails either moves no counter or has followed the links that it
counts (`Contents.Records.tally_append`).

What the counters should say is kept in natural numbers (`Tally`); the counters themselves are
64-bit words and show it as far as it fits.
-/

namespace Adjacency

/-- The four counters as natural numbers. -/
structure Tally where
  targetsAdded : Nat
  blocksRelocated : Nat
  pageHops : Nat
  arraysGrown : Nat

namespace Tally

/-- Takes note of one event. -/
def take (t : Tally) : Event → Tally
  | .targetAdded => { t with targetsAdded := t.targetsAdded + 1 }
  | .blockRelocated .. => { t with blocksRelocated := t.blocksRelocated + 1 }
  | .pageHops hops => { t with pageHops := t.pageHops + hops }
  | .arrayGrown .. => { t with arraysGrown := t.arraysGrown + 1 }
  | _ => t

/-- What 64-bit counters show of a tally. -/
def counters (t : Tally) : Counters where
  targetsAdded := UInt64.ofNat t.targetsAdded
  blocksRelocated := UInt64.ofNat t.blocksRelocated
  pageHops := UInt64.ofNat t.pageHops
  arraysGrown := UInt64.ofNat t.arraysGrown

variable {t : Tally} {e : Event}

theorem take_of_measure?_eq_none (h : e.measure? = none) : t.take e = t := by
  cases e with
  | targetAdded | blockRelocated | pageHops | arrayGrown => exact nomatch h
  | _ => rfl

theorem record_singleton (t : Tally) (e : Event) :
    (Metrics.counting t.counters).record [e] = .counting (t.take e).counters := by
  cases hmeasure : e.measure? with
  | none =>
    rw [take_of_measure?_eq_none hmeasure, Metrics.record, List.filterMap_cons_none hmeasure]
    rfl
  | some x =>
    cases e with
    | targetAdded | blockRelocated | pageHops | arrayGrown =>
      simp [Metrics.record, Metrics.add, Counters.add, Event.measure?, take, counters,
        UInt64.ofNat_add]
    | _ => exact nomatch hmeasure

theorem record_counters (t : Tally) (events : List Event) :
    (Metrics.counting t.counters).record events = .counting (events.foldl take t).counters := by
  induction events generalizing t with
  | nil => rfl
  | cons e events ih =>
    rw [← List.singleton_append, Metrics.record_append, record_singleton, ih]
    rfl

end Tally

/-! ## Contents -/

namespace Contents

variable {c d : Contents} {nodes node : Nat} {lists : Nat → List NodeId}

/-- The tally that contents call for, next to the entries and links: they know themselves how often
memory was added, and their kind says which counter that is. -/
def tally (c : Contents) (added hops : Nat) : Tally :=
  match c with
  | .null => ⟨added, 0, hops, 0⟩
  | .plain a => ⟨added, 0, hops, a.reallocations⟩
  | .coded a => ⟨added, 0, hops, a.reallocations⟩
  | .paged a => ⟨added, a.reallocations, hops, 0⟩

/-- The links between the blocks of a node, where there are blocks. -/
def links (c : Contents) (node : Nat) : Nat :=
  match c with
  | .paged a =>
    match a.chain node with
    | .ok blocks => blocks.length - 1
    | .error _ => 0
  | _ => 0

theorem tally_eq (c : Contents) (added hops : Nat) :
    c.tally added hops = ⟨added, if c.kind = .pagedBuffer then c.reallocations else 0, hops,
      if c.kind = .plainArray ∨ c.kind = .byteArray then c.reallocations else 0⟩ := by
  cases c <;> rfl

theorem take_targetAdded (c : Contents) (added hops : Nat) :
    (c.tally added hops).take .targetAdded = c.tally (added + 1) hops := by
  cases c <;> rfl

theorem reallocations_allocate {kind : Kind} {options : Options} {sizing : Sizing}
    (h : allocate kind options sizing = .ok c) : c.reallocations = 0 := by
  cases kind with
  | null =>
    cases h
    rfl
  | plainArray =>
    obtain ⟨a, ha, rfl⟩ := Check.map_eq_ok.mp h
    simp only [PlainArrays.allocate, Check.bind_eq_ok] at ha
    obtain ⟨-, -, -, -, -, -, -, -, ha⟩ := ha
    cases ha
    rfl
  | byteArray =>
    obtain ⟨a, ha, rfl⟩ := Check.map_eq_ok.mp h
    simp only [CodedArrays.allocate, Check.bind_eq_ok] at ha
    obtain ⟨budget, -, -, -, -, -, -, -, ha⟩ := ha
    cases ha
    rfl
  | pagedBuffer =>
    obtain ⟨a, ha, rfl⟩ := Check.map_eq_ok.mp h
    simp only [Arena.allocate, Check.bind_eq_ok] at ha
    obtain ⟨l, -, -, -, ha⟩ := ha
    cases ha
    rfl

/-- **An append counts the memory it adds and the links it follows,** also if it fails later. -/
theorem Records.tally_append (h : c.Records nodes lists) (hn : node < nodes) (target : NodeId)
    (added hops : Nat) :
    (c.append node target).events.foldl Tally.take (c.tally added hops)
      = (c.append node target).state.tally added (hops + c.links node) := by
  cases c with
  | null => rfl
  | plain a =>
    rw [Contents.append, PlainArrays.append]
    dsimp only
    split <;> rfl
  | coded a =>
    rw [Contents.append, CodedArrays.append]
    dsimp only
    split <;> rfl
  | paged a =>
    obtain ⟨room, chains, ha, -⟩ := h
    have hlinks : (paged a).links node = (chains node).full.length := by
      rw [links, ha.chain_eq hn]
      dsimp only
      rw [Chain.infos, Page.length_infos, Nat.add_sub_cancel]
    rw [hlinks, Contents.append]
    rcases ha.append_cases hn target with ⟨-, heq⟩ | ⟨-, -, capacity, -, heq⟩ |
      ⟨-, limit, requested, event, hrefused, heq⟩
    · rw [heq]
      rfl
    · rw [heq]
      rfl
    · -- Nothing is counted for a block that was refused.
      obtain ⟨-, hmeasure⟩ := Arena.event_of_allocateBlock ha.nextFree_eq hrefused
      rw [heq]
      exact Tally.take_of_measure?_eq_none hmeasure

end Contents

namespace Store

variable {s : Store} {node target : NodeId} {i : Nat} {l : Lifecycle}

/-! ## One entry -/

/-- The links between the blocks of a node, where there are blocks. -/
def links (s : Store) (node : NodeId) : Nat :=
  match (s.chain node).result with
  | .ok (some blocks) => blocks.length - 1
  | _ => 0

/-- The entry is admitted by the store that it comes to. -/
def isAdmitted (p : Store × Entry) : Bool := (p.1.lifecycle.accept p.2.node p.2.target).isOk

/-- The links that are followed for an entry: none if it is not admitted. -/
def hopsFor (p : Store × Entry) : Nat := if isAdmitted p then p.1.links p.2.node else 0

theorem isAdmitted_iff {e : Entry} :
    isAdmitted (s, e) = true ↔ ∃ i l, s.lifecycle.accept e.node e.target = .ok (i, l) := by
  rw [isAdmitted]
  cases s.lifecycle.accept e.node e.target with
  | error r => exact iff_of_false nofun fun ⟨_, _, h⟩ ↦ nomatch h
  | ok admitted => exact iff_of_true rfl ⟨_, _, rfl⟩

theorem chain_result_of_loading {a : Arena} {sizing : Sizing} {n : Nat}
    (hpaged : s.contents = .paged a) (hloading : s.lifecycle = .loading sizing n)
    (hnode : node < sizing.totalNodes) :
    (s.chain node).result = (a.chain node.toNat).map some := by
  rw [chain, hpaged, hloading, Lifecycle.startRead_of_lt hnode]
  dsimp only
  cases a.chain node.toNat <;> rfl

theorem links_of_accepted (h : s.lifecycle.accept node target = .ok (i, l)) :
    s.links node = s.contents.links i := by
  obtain ⟨sizing, n, hloading, hnode, -, -, rfl, -⟩ := Lifecycle.accept_eq_ok.mp h
  cases hcontents : s.contents with
  | null | plain | coded =>
    rw [links, chain, hcontents]
    rfl
  | paged a =>
    rw [links, chain_result_of_loading hcontents hloading hnode, Contents.links]
    cases a.chain node.toNat <;> rfl

theorem metrics_append_of_accepted (h : s.lifecycle.accept node target = .ok (i, l)) :
    (s.append node target).state.metrics
      = s.metrics.record ((s.contents.append i target).events ++
        if (s.append node target).result.isOk then [.targetAdded] else []) := by
  rw [(append_of_accepted h).1, append, h]
  dsimp only
  rcases s.contents.append i target with ⟨result, contents, events⟩
  cases result with
  | ok trace => rfl
  | error e => exact congrArg s.metrics.record (List.append_nil events).symm

theorem Records.exists_chain {lists : Nat → List NodeId} (h : s.Records lists)
    (hkind : s.kind = .pagedBuffer) (haccept : s.lifecycle.accept node target = .ok (i, l)) :
    ∃ blocks, (s.chain node).result = .ok (some blocks) := by
  obtain ⟨sizing, n, hloading, hnode, -, -, -, -⟩ := Lifecycle.accept_eq_ok.mp haccept
  rcases h.chain_cases hkind node with ⟨r, hread, -⟩ | ⟨_, _, blocks, -, heq⟩
  · rw [hloading, Lifecycle.startRead_of_lt hnode] at hread
    cases hread
  · rw [heq]
    exact ⟨blocks, rfl⟩

/-! ## What the counters agree with -/

/-- The counters agree with the contents and with the entries that were brought so far. -/
structure Tallied (s : Store) (told : List (Store × Entry)) : Prop where
  metrics_eq : s.metrics = .counting (s.contents.tally (recordedCount (told.map outcomeOf))
    (told.map hopsFor).sum).counters
  counted : ∃ rs, s.Counted rs
  /-- Memory is added to open stores only. -/
  unopened : s.lifecycle.sizing? = none → s.reallocations = 0
  readable : s.kind = .pagedBuffer → ∀ p ∈ told, isAdmitted p = true →
    ∃ blocks, (p.1.chain p.2.node).result = .ok (some blocks)

variable {told : List (Store × Entry)}

theorem Tallied.add (h : s.Tallied told) (e : Entry) :
    (s.add e).state.Tallied (told ++ [(s, e)]) := by
  obtain ⟨rs, hcounted⟩ := h.counted
  obtain ⟨lists, hrecords⟩ := hcounted.records
  have hreadable : (s.add e).state.kind = .pagedBuffer → ∀ p ∈ told ++ [(s, e)],
      isAdmitted p = true → ∃ blocks, (p.1.chain p.2.node).result = .ok (some blocks) := by
    rw [kind_add]
    intro hkind p hp hadmitted
    rcases List.mem_append.mp hp with hp | hp
    · exact h.readable hkind p hp hadmitted
    · cases List.mem_singleton.mp hp
      obtain ⟨i, l, haccept⟩ := isAdmitted_iff.mp hadmitted
      exact hrecords.exists_chain hkind haccept
  have hmore : recordedCount ((told ++ [(s, e)]).map outcomeOf)
      = recordedCount (told.map outcomeOf) + if (s.add e).result.isOk then 1 else 0 := by
    rw [List.map_append, recordedCount, List.countP_append, List.map_singleton,
      List.countP_singleton, ← recordedCount, outcomeOf]
  have hhops : ((told ++ [(s, e)]).map hopsFor).sum = (told.map hopsFor).sum + hopsFor (s, e) := by
    rw [List.map_append, List.sum_append, List.map_singleton, List.sum_singleton]
  cases haccept : s.lifecycle.accept e.node e.target with
  | error r =>
    have hfail : (s.add e).result = .error r.cause := add_result_of_refused haccept
    have hstate : (s.add e).state = s := by
      rw [(add_eq s e).1, append_of_refused haccept]
      rfl
    have hnone : hopsFor (s, e) = 0 := by
      rw [hopsFor, isAdmitted, haccept]
      rfl
    refine ⟨?_, ?_, ?_, hreadable⟩
    · rw [hmore, hhops, hfail, hnone, hstate]
      exact h.metrics_eq
    · rw [hstate]
      exact h.counted
    · rw [hstate]
      exact h.unopened
  | ok admitted =>
    obtain ⟨i, l⟩ := admitted
    obtain ⟨-, hlifecycle, hcontents⟩ := append_of_accepted haccept
    obtain ⟨sizing, n, hloading, hnode, -, -, hi, hl⟩ := Lifecycle.accept_eq_ok.mp haccept
    have hfollowed : hopsFor (s, e) = s.contents.links i := by
      rw [hopsFor, if_pos (isAdmitted_iff.mpr ⟨i, l, haccept⟩), links_of_accepted haccept]
    refine ⟨?_, ⟨_, hcounted.add e⟩, ?_, hreadable⟩
    · have htally := (hrecords sizing (by rw [hloading]; rfl)).tally_append
        (hi ▸ UInt64.lt_iff_toNat_lt.mp hnode) e.target (recordedCount (told.map outcomeOf))
        (told.map hopsFor).sum
      rw [hmore, hhops, hfollowed, (add_eq s e).1, metrics_append_of_accepted haccept, h.metrics_eq,
        Tally.record_counters, List.foldl_append, hcontents, htally, add_result_eq,
        Outcome.isOk_map]
      cases (s.append e.node e.target).result.isOk with
      | false => rfl
      | true =>
        exact congrArg (fun t : Tally ↦ Metrics.counting t.counters)
          (Contents.take_targetAdded _ _ _)
    · intro hnone
      rw [(add_eq s e).1, hlifecycle, hl] at hnone
      cases hnone

theorem Tallied.init (h : s.Tallied told) (totalNodes totalRels : UInt64) :
    (s.init totalNodes totalRels).state.Tallied told := by
  rcases init_cases s totalNodes totalRels with ⟨cause, -, hstate⟩ |
    ⟨_, -, -, hcreated, hok, hloading, hkind, -⟩
  · rw [hstate]
    exact h
  · obtain ⟨sizing, contents, -, hcontents, hstate⟩ := init_eq_ok hok
    obtain ⟨rs, hcounted⟩ := h.counted
    have hzero : s.reallocations = 0 := h.unopened (by rw [hcreated]; rfl)
    have hfresh : contents.reallocations = 0 := Contents.reallocations_allocate hcontents
    refine ⟨?_, ⟨rs, hcounted.init totalNodes totalRels⟩, ?_, ?_⟩
    · -- No memory was added to the old contents or to the new ones, which are of the same kind.
      rw [hstate] at hkind ⊢
      have hsame : contents.kind = s.contents.kind := hkind
      have hmetrics := h.metrics_eq
      rw [Contents.tally_eq, show s.contents.reallocations = 0 from hzero] at hmetrics
      rw [Contents.tally_eq, hfresh, hsame]
      exact hmetrics
    · rw [hloading]
      exact nofun
    · rw [hkind]
      exact h.readable

theorem tallied_new (kind : Kind) (options : Options) :
    (new kind { options with metrics := some (.counting .zero) }).Tallied [] where
  metrics_eq := by cases kind <;> rfl
  counted := ⟨[], counted_new kind _⟩
  unopened _ := by cases kind <;> rfl
  readable _ _ hp := absurd hp List.not_mem_nil

theorem Tallied.after (h : s.Tallied []) (calls : List Call) :
    (Outcome.after step s calls).Tallied (allBrought s calls) := by
  have hafter := after_allBrought (P := Tallied) (f := id)
    (fun s l told h hsizing happended ↦ ?_) (fun _ _ _ _ h ↦ h.init _ _) (fun _ _ e h ↦ h.add e) h
    calls
  · rw [List.nil_append, List.map_id] at hafter
    exact hafter
  · obtain ⟨rs, hcounted⟩ := h.counted
    exact ⟨h.metrics_eq, ⟨rs, hcounted.of_eq rfl hsizing happended⟩, hsizing ▸ h.unopened,
      h.readable⟩

/-- **What the counters of a store say.** After any history of a store of any kind, with counters of
its own that begin at zero, they show in 64 bits how many entries were recorded; how often memory
was added, as blocks in an arena and as growths of the arrays where each node has one; and how many
links lead to the last block of the node, summed over all entries that were admitted. The chain of
the node can be read then. -/
theorem counters_after (kind : Kind) (options : Options) (calls : List Call) :
    let new := new kind { options with metrics := some (.counting .zero) }
    let s := Outcome.after step new calls
    s.counters.targetsAdded.toNat = recordedCount (allEntryResults new calls) % 2 ^ 64 ∧
      s.counters.blocksRelocated.toNat
        = (if kind = .pagedBuffer then s.reallocations else 0) % 2 ^ 64 ∧
      s.counters.arraysGrown.toNat
        = (if kind = .plainArray ∨ kind = .byteArray then s.reallocations else 0) % 2 ^ 64 ∧
      s.counters.pageHops.toNat = ((allBrought new calls).map hopsFor).sum % 2 ^ 64 ∧
      (kind = .pagedBuffer → ∀ p ∈ allBrought new calls, isAdmitted p = true →
        ∃ blocks, (p.1.chain p.2.node).result = .ok (some blocks)) := by
  intro new s
  have h : s.Tallied (allBrought new calls) := (tallied_new kind options).after calls
  have hkind : s.kind = kind := (lives_after kind _ calls).kind_eq
  have hcounters : s.counters = (Tally.mk (recordedCount (allEntryResults new calls))
      (if kind = .pagedBuffer then s.reallocations else 0)
      ((allBrought new calls).map hopsFor).sum
      (if kind = .plainArray ∨ kind = .byteArray then s.reallocations else 0)).counters := by
    rw [counters, h.metrics_eq, Contents.tally_eq, map_outcomeOf_allBrought, ← hkind]
    rfl
  rw [hcounters]
  exact ⟨UInt64.toNat_ofNat', UInt64.toNat_ofNat', UInt64.toNat_ofNat', UInt64.toNat_ofNat',
    fun hpaged ↦ h.readable (hkind.trans hpaged)⟩

end Store

end Adjacency
