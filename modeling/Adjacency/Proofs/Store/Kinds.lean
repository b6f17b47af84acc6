import Adjacency.Proofs.Store.Phases

/-!
# One contract for all kinds

What users see of a store is its *ledger*: where it is in its life, and one list for each node. The
calls act on a ledger by themselves (`Ledger.step`), and a store of any kind that keeps a ledger
answers as the ledger does and goes on to keep it (`Keeps.step`). Two things depend on the kind all
the same. Whether there is memory shows when a store is opened and when an entry meets an exhausted
arena; and a store that keeps nothing shows empty lists (`Answer.shownBy`).

So stores of all kinds that are opened by the same calls, with an arena that is never exhausted,
agree on everything else (`agree_after`).
-/

namespace Adjacency

/-- What users see of a store: its life, and the list of each node. -/
structure Ledger where
  lifecycle : Lifecycle
  lists : Nat → List NodeId

namespace Ledger

open Store (Call Answer)

/-- A ledger with empty lists. -/
def blank (lifecycle : Lifecycle) : Ledger := ⟨lifecycle, fun _ ↦ []⟩

/-- Enters `target` in the list of `node`. -/
def add (l : Ledger) (e : Entry) : Outcome Ledger Unit :=
  match l.lifecycle.accept e.node e.target with
  | .error r => r.leave l
  | .ok (i, lifecycle) =>
    .done ⟨lifecycle, Function.update l.lists i (l.lists i ++ [e.target])⟩ ()

/-- Enters a relationship at both ends. -/
def addRelationship (l : Ledger) (r : Relationship) : Outcome Ledger Unit :=
  (l.add r.outgoing).andThen fun l _ ↦ l.add r.incoming

/-- Reads the list of a node. -/
def targets (l : Ledger) (node : NodeId) : Outcome Ledger (List NodeId) :=
  match l.lifecycle.startRead node with
  | .error r => r.leave l
  | .ok (i, lifecycle) => .done { l with lifecycle } (l.lists i)

def close (l : Ledger) : Outcome Ledger Unit :=
  match l.lifecycle.close with
  | .error r => r.leave l
  | .ok lifecycle => .done { l with lifecycle } ()

/-- Makes a call. How a store is opened depends on its kind, and so do the calls about blocks. -/
def step (l : Ledger) : Call → Outcome Ledger Answer
  | .add e => (l.add e).map fun _ ↦ .done
  | .addRelationship r => (l.addRelationship r).map fun _ ↦ .done
  | .targets node => (l.targets node).map .targets
  | .close => l.close.map fun _ ↦ .done
  | .init .. | .trace .. | .chain .. => .done l .done

end Ledger

namespace Store

/-- The call is one that stores of all kinds have in common. -/
def Call.isCommon : Call → Bool
  | .trace .. | .chain .. => false
  | .init .. | .add _ | .addRelationship _ | .targets _ | .close => true

/-- An answer as a store of the given kind shows it. Where nothing is kept, lists are empty. -/
def Answer.shownBy (kind : Kind) : Answer → Answer
  | .targets ids => .targets (if kind = .null then [] else ids)
  | a => a

/-- The store keeps the ledger. -/
structure Keeps (s : Store) (l : Ledger) : Prop where
  lifecycle_eq : s.lifecycle = l.lifecycle
  records : s.Records l.lists

variable {s : Store} {l : Ledger} {node : NodeId}

theorem keeps_new (kind : Kind) (options : Options) : (new kind options).Keeps (.blank .created) :=
  ⟨rfl, records_new kind options _⟩

/-! ## Calls on a store and its ledger -/

/-- **An entry goes the same way in a store and its ledger,** unless an arena is exhausted. -/
theorem Keeps.add (h : s.Keeps l) {e : Entry} (hroom : isExhausted (s.add e).result = false) :
    (s.add e).Agree (l.add e) Keeps := by
  rw [Ledger.add, ← h.lifecycle_eq]
  rcases h.records.add_cases e with ⟨r, hrefused, herror, hsame⟩ |
    ⟨sizing, n, haccept, hloading, hnext, ⟨hok, hmore⟩ | ⟨limit, requested, herror, -⟩⟩
  · rw [hrefused]
    refine ⟨herror, ?_⟩
    rw [hsame]
    exact h
  · rw [haccept]
    exact ⟨hok, hnext, hmore⟩
  · rw [herror] at hroom
    exact nomatch hroom

theorem Keeps.addRelationship (h : s.Keeps l) {r : Relationship}
    (hroom : ∀ x ∈ s.entryResults (.addRelationship r), isExhausted x = false) :
    (s.addRelationship r).Agree (l.addRelationship r) Keeps := by
  have hfirst := h.add (hroom _ List.mem_cons_self)
  refine hfirst.andThen_of_ok ?_
  intro _ hok
  refine Keeps.add hfirst.state (hroom _ (List.mem_cons_of_mem _ ?_))
  rw [hok]
  exact List.mem_cons_self

theorem Keeps.targets (h : s.Keeps l) (node : NodeId) :
    (s.targets node).Agree
      ((l.targets node).map fun ids ↦ if s.kind = .null then [] else ids) Keeps := by
  rw [Store.targets, Ledger.targets, ← h.lifecycle_eq]
  cases hread : s.lifecycle.startRead node with
  | error r => exact ⟨rfl, h⟩
  | ok began =>
    obtain ⟨i, lifecycle⟩ := began
    obtain ⟨rfl, sizing, hsizing, hnode⟩ := Lifecycle.lt_of_startRead hread
    refine ⟨(h.records sizing hsizing).targets_eq (UInt64.lt_iff_toNat_lt.mp hnode), rfl, ?_⟩
    exact h.records.of_eq rfl (Lifecycle.startRead_keeps hread).1

theorem Keeps.close (h : s.Keeps l) : s.close.Agree l.close Keeps := by
  rw [Store.close, Ledger.close, ← h.lifecycle_eq]
  cases hclose : s.lifecycle.close with
  | error r => exact ⟨rfl, h⟩
  | ok lifecycle => exact ⟨rfl, rfl, h.records.of_eq rfl (Lifecycle.close_eq_ok hclose).1⟩

/-- **A call on a store comes to what it comes to on the ledger.** -/
theorem Keeps.step (h : s.Keeps l) {c : Call} (hcommon : c.isCommon = true)
    (hinit : c.role s.kind ≠ .opens) (hroom : ∀ x ∈ s.entryResults c, isExhausted x = false) :
    (s.step c).Agree ((l.step c).map (Answer.shownBy s.kind)) Keeps := by
  cases c with
  | init => exact absurd rfl hinit
  | add e =>
    rw [Ledger.step, Outcome.map_map]
    exact (h.add (hroom _ List.mem_cons_self)).map _
  | addRelationship r =>
    rw [Ledger.step, Outcome.map_map]
    exact (h.addRelationship hroom).map _
  | targets node =>
    have hread := (h.targets node).map Answer.targets
    rw [Outcome.map_map] at hread
    rw [Ledger.step, Outcome.map_map]
    exact hread
  | close =>
    rw [Ledger.step, Outcome.map_map]
    exact h.close.map _
  | trace => exact nomatch hcommon
  | chain => exact nomatch hcommon

/-! ## Opening stores -/

/-- Whether a call that opens a store answers. -/
def initResult (s : Store) : Call → List Bool
  | .init totalNodes totalRels => [(s.init totalNodes totalRels).result.isOk]
  | _ => []

/-- Which of the calls that open a store answer, in a history. -/
def allInitResults : Store → List Call → List Bool
  | _, [] => []
  | s, c :: calls => s.initResult c ++ allInitResults (s.step c).state calls

theorem length_initResult (s t : Store) (c : Call) :
    (s.initResult c).length = (t.initResult c).length := by
  cases c <;> rfl

/-- The life of a store that was just opened, with some totals and by some options. -/
def opened (options : Options) (totalNodes totalRels : UInt64) : Lifecycle :=
  .loading ⟨totalNodes, totalRels,
    Sizing.estimatedFanOut totalNodes totalRels options.minFanOut⟩ 0

theorem lifecycle_init {totalNodes totalRels : UInt64}
    (hok : (s.init totalNodes totalRels).result.isOk = true) :
    (s.init totalNodes totalRels).state.lifecycle = opened s.options totalNodes totalRels := by
  rw [init] at hok ⊢
  cases hplan : s.lifecycle.plan s.options totalNodes totalRels with
  | error r =>
    rw [hplan] at hok
    cases hok
  | ok sizing =>
    obtain ⟨-, -, rfl⟩ := Lifecycle.plan_eq_ok hplan
    rw [hplan] at hok
    dsimp only at hok ⊢
    split
    · next hcontents =>
      rw [hcontents] at hok
      cases hok
    · rfl

theorem keeps_init_of_isOk {totalNodes totalRels : UInt64}
    (hok : (s.init totalNodes totalRels).result.isOk = true) :
    s.lifecycle = .created ∧ (s.init totalNodes totalRels).state.Keeps
      (.blank (opened s.options totalNodes totalRels)) := by
  rcases init_cases s totalNodes totalRels with ⟨cause, herror, -⟩ |
    ⟨-, -, -, hcreated, -, -, -, hrecords⟩
  · rw [herror] at hok
    exact nomatch hok
  · exact ⟨hcreated, lifecycle_init hok, hrecords⟩

theorem state_init_of_not_isOk {totalNodes totalRels : UInt64}
    (hfail : (s.init totalNodes totalRels).result.isOk = false) :
    (s.init totalNodes totalRels).state = s := by
  rcases init_cases s totalNodes totalRels with ⟨-, -, hstate⟩ | ⟨-, -, -, -, hok, -, -, -⟩
  · exact hstate
  · rw [hok] at hfail
    exact nomatch hfail

/-! ## Stores of all kinds -/

/-- Stores of all kinds can be compared over a history. -/
structure Comparable (stores : Kind → Store) (calls : List Call) : Prop where
  isCommon : ∀ c ∈ calls, c.isCommon = true
  /-- Each call that opens a store opens all of them or none. -/
  initResults_eq : ∀ kind,
    allInitResults (stores kind) calls = allInitResults (stores .plainArray) calls
  /-- No entry meets an exhausted arena. -/
  not_isExhausted : ∀ r ∈ allEntryResults (stores .pagedBuffer) calls, isExhausted r = false

/-- Stores of all kinds, new at first, keep one ledger. -/
structure Together (stores : Kind → Store) (options : Options) (l : Ledger) : Prop where
  keeps : ∀ kind, (stores kind).Keeps l
  lives : ∀ kind, ∃ done, (stores kind).Lives kind options done

section

variable {stores : Kind → Store} {options : Options} {c : Call} {done more : List Call}

theorem Comparable.initResult_eq (h : Comparable stores (c :: more)) (kind : Kind) :
    (stores kind).initResult c = (stores .plainArray).initResult c ∧
      allInitResults ((stores kind).step c).state more
        = allInitResults ((stores .plainArray).step c).state more :=
  List.append_inj (h.initResults_eq kind) (length_initResult _ _ c)

theorem Comparable.tail (h : Comparable stores (c :: more)) :
    Comparable (fun kind ↦ ((stores kind).step c).state) more where
  isCommon := fun d hd ↦ h.isCommon d (List.mem_cons_of_mem c hd)
  initResults_eq := fun kind ↦ (h.initResult_eq kind).2
  not_isExhausted := fun r hr ↦ h.not_isExhausted r (List.mem_append_right _ hr)

theorem together_new (options : Options) :
    Together (fun kind ↦ new kind options) options (.blank .created) :=
  ⟨fun kind ↦ keeps_new kind options, fun kind ↦ ⟨[], lives_new kind options⟩⟩

theorem Together.lives_step (h : Together stores options l) (c : Call) (kind : Kind) :
    ∃ done, ((stores kind).step c).state.Lives kind options done := by
  obtain ⟨done, hlives⟩ := h.lives kind
  cases hresult : ((stores kind).step c).result with
  | ok a => exact ⟨_, hlives.answer (by rw [hresult]; rfl)⟩
  | error cause => exact ⟨_, hlives.failure hresult⟩

theorem Together.init (h : Together stores options l) {totalNodes totalRels : UInt64}
    (hinit : ∀ kind, ((stores kind).init totalNodes totalRels).result.isOk
      = ((stores .plainArray).init totalNodes totalRels).result.isOk) :
    ∃ l', Together (fun kind ↦ ((stores kind).step (.init totalNodes totalRels)).state)
      options l' := by
  cases hplain : ((stores .plainArray).init totalNodes totalRels).result.isOk with
  | false =>
    refine ⟨l, ?_, h.lives_step _⟩
    intro kind
    rw [step, Outcome.state_map, state_init_of_not_isOk ((hinit kind).trans hplain)]
    exact h.keeps kind
  | true =>
    refine ⟨.blank (opened options totalNodes totalRels), ?_, h.lives_step _⟩
    intro kind
    obtain ⟨done, hlives⟩ := h.lives kind
    obtain ⟨hcreated, hkeeps⟩ := keeps_init_of_isOk ((hinit kind).trans hplain)
    -- The options are those of a new store, which is what it was until now.
    have hnew : stores kind = new kind options := by
      refine hlives.eq_new ?_
      rw [phase, hcreated]
      rfl
    have hoptions : (stores kind).options = options := by
      rw [hnew]
      rfl
    rw [hoptions] at hkeeps
    exact hkeeps

theorem Together.agree (h : Together stores options l) (hcomparable : Comparable stores (c :: more))
    {kind : Kind} (hrole : c.role kind ≠ .opens) :
    ((stores kind).step c).Agree ((l.step c).map (Answer.shownBy kind)) Keeps := by
  obtain ⟨done, hlives⟩ := h.lives kind
  have hkind := hlives.kind_eq
  have hroom : ∀ r ∈ (stores kind).entryResults c, isExhausted r = false := by
    by_cases hpaged : kind = .pagedBuffer
    · rw [hpaged]
      exact fun r hr ↦ hcomparable.not_isExhausted r (List.mem_append_left _ hr)
    · exact fun r hr ↦ isExhausted_of_mem_entryResults (by rw [hkind]; exact hpaged) hr
  have hstep := (h.keeps kind).step (hcomparable.isCommon c List.mem_cons_self)
    (by rw [hkind]; exact hrole) hroom
  rw [hkind] at hstep
  exact hstep

/-- **Stores of all kinds stay together** from call to call. -/
theorem Together.step (h : Together stores options l)
    (hcomparable : Comparable stores (c :: more)) :
    ∃ l', Together (fun kind ↦ ((stores kind).step c).state) options l' := by
  have hgo (hrole : ∀ kind, c.role kind ≠ .opens) :
      Together (fun kind ↦ ((stores kind).step c).state) options (l.step c).state :=
    ⟨fun kind ↦ (h.agree hcomparable (hrole kind)).state, h.lives_step c⟩
  cases c with
  | init totalNodes totalRels =>
    exact h.init fun kind ↦ (List.cons.inj (hcomparable.initResult_eq kind).1).1
  | add | addRelationship | targets | close => exact ⟨_, hgo nofun⟩
  | trace | chain => exact nomatch hcomparable.isCommon _ List.mem_cons_self

theorem Together.after (h : Together stores options l)
    (hcomparable : Comparable stores (done ++ more)) :
    ∃ l', Together (fun kind ↦ Outcome.after Store.step (stores kind) done) options l' ∧
      Comparable (fun kind ↦ Outcome.after Store.step (stores kind) done) more := by
  induction done generalizing stores l with
  | nil => exact ⟨l, h, hcomparable⟩
  | cons d done ih =>
    obtain ⟨l', hnext⟩ := h.step hcomparable
    exact ih hnext hcomparable.tail

end

/-! ## Agreement -/

theorem map_shownBy_plainArray (answer : Except Error Answer) :
    answer.map (Answer.shownBy .plainArray) = answer := by
  cases answer with
  | error e => rfl
  | ok a => cases a <;> rfl

/-- **All kinds of stores implement one contract.** Whenever stores of all kinds can be compared
over a history, each call of it answers on all of them or fails on all of them, and afterwards they
are in the same phase, have the same totals and admitted equally many entries. But for the calls
that open a store, which fail for want of memory in different ways, the stores come to the same
answers and causes of failure as one with plain arrays; only where nothing is kept, lists are
empty. -/
theorem agree_after {options : Options} {done more : List Call} {c : Call}
    (h : Comparable (fun kind ↦ new kind options) (done ++ c :: more)) (kind : Kind) :
    let s := Outcome.after step (new kind options) done
    let plain := Outcome.after step (new .plainArray options) done
    (s.step c).state.lifecycle = (plain.step c).state.lifecycle ∧
      (s.step c).result.isOk = (plain.step c).result.isOk ∧
      (c.role kind ≠ .opens →
        (s.step c).result = (plain.step c).result.map (Answer.shownBy kind)) := by
  intro s plain
  obtain ⟨l, htogether, hcomparable⟩ := (together_new options).after h
  obtain ⟨l', hnext⟩ := htogether.step hcomparable
  have hanswer (hopens : ¬ ∃ totalNodes totalRels, c = .init totalNodes totalRels) :
      (s.step c).result = (plain.step c).result.map (Answer.shownBy kind) := by
    have hrole (kind : Kind) : c.role kind ≠ .opens := mt Call.role_eq_opens.mp hopens
    rw [(htogether.agree hcomparable (hrole kind)).result,
      (htogether.agree hcomparable (hrole .plainArray)).result, Outcome.result_map,
      Outcome.result_map, map_shownBy_plainArray]
  refine ⟨(hnext.keeps kind).lifecycle_eq.trans (hnext.keeps .plainArray).lifecycle_eq.symm, ?_,
    fun hrole ↦ hanswer (mt Call.role_eq_opens.mpr hrole)⟩
  by_cases hopens : ∃ totalNodes totalRels, c = .init totalNodes totalRels
  · obtain ⟨totalNodes, totalRels, rfl⟩ := hopens
    rw [step, step, Outcome.isOk_map, Outcome.isOk_map]
    exact (List.cons.inj (hcomparable.initResult_eq kind).1).1
  · rw [hanswer hopens]
    cases (plain.step c).result <;> rfl

/-- A history with calls that come too early, too late, or name a node that there is not. -/
def mixed : List Call :=
  [.targets 0, .init 3 5, .addRelationship ⟨0, 1, 7⟩, .add ⟨0, 2, 7, .outgoing⟩,
    .add ⟨0, 3, 7, .outgoing⟩, .targets 4, .targets 1, .add ⟨0, 1, 7, .incoming⟩]

/-- After it, an arena and plain arrays give the same list. -/
theorem agree_after_mixed :
    Comparable (fun kind ↦ new kind .default) (mixed ++ .targets 0 :: [.close]) ∧
      ((Outcome.after step (new .pagedBuffer .default) mixed).step (.targets 0)).result
        = .ok (.targets [1, 2]) := by
  have h : Comparable (fun kind ↦ new kind .default) (mixed ++ .targets 0 :: [.close]) := by
    refine ⟨by decide, ?_, by decide +kernel⟩
    intro kind
    cases kind <;> decide +kernel
  have hplain : ((Outcome.after step (new .plainArray .default) mixed).step (.targets 0)).result
      = .ok (.targets [1, 2]) := by decide +kernel
  refine ⟨h, ?_⟩
  rw [(agree_after h .pagedBuffer).2.2 nofun, hplain]
  rfl

end Store

end Adjacency
