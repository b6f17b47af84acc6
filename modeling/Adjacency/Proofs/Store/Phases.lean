import Adjacency.Proofs.Runs
import Adjacency.Proofs.Store.Counting

/-!
# Opened once, filled, read, closed

Each call has a role in the life of a store: it opens, fills, reads or closes the store, or it has
nothing to do with any of this. A call that answers makes the move of its role (`Lifecycle.Move`). A
call that fails leaves the store as it was; only an entry that failed may have been counted, or
followed one that was recorded (`Store.Obeys`).

So phases only go forward, and the roles of the calls that answered tell the phase (`Phase.told`). A
store that was not opened is still new, one that was opened keeps its totals, and one that is read
stays as it is until it is closed.
-/

namespace Adjacency

/-! ## Roles and phases -/

/-- What a call has to do with the life of a store. -/
inductive Role
  | opens
  | fills
  | reads
  | closes
  | idle
  deriving DecidableEq, Repr

/-- The role of a call on a store of the given kind. Where there are no blocks, the calls about
blocks do nothing. -/
def Store.Call.role (kind : Kind) : Store.Call → Role
  | .init .. => .opens
  | .add _ | .addRelationship _ => .fills
  | .trace .. => if kind = .pagedBuffer then .fills else .idle
  | .targets _ => .reads
  | .chain _ => if kind = .pagedBuffer then .reads else .idle
  | .close => .closes

theorem Store.Call.role_eq_opens {kind : Kind} {c : Store.Call} :
    c.role kind = .opens ↔ ∃ totalNodes totalRels, c = .init totalNodes totalRels := by
  cases c with
  | init totalNodes totalRels => exact iff_of_true rfl ⟨_, _, rfl⟩
  | add | addRelationship | targets | close => exact iff_of_false nofun nofun
  | trace | chain =>
    rw [role]
    split
    · exact iff_of_false nofun nofun
    · exact iff_of_false nofun nofun

/-- How far a store is in its life. -/
def Phase.rank : Phase → Nat
  | .created => 0
  | .loading => 1
  | .sealed => 2
  | .closed => 3

/-- The phase after calls in the given roles have answered. -/
def Phase.told (roles : List Role) : Phase :=
  if Role.closes ∈ roles then .closed
  else if Role.reads ∈ roles then .sealed
  else if Role.opens ∈ roles then .loading
  else .created

namespace Phase

variable {roles : List Role}

theorem rank_le_closed (p : Phase) : p.rank ≤ Phase.closed.rank := by
  cases p <;> decide

theorem told_eq_closed : told roles = .closed ↔ Role.closes ∈ roles := by
  rw [told]
  split_ifs with hcloses hreads hopens
  · exact iff_of_true rfl hcloses
  · exact iff_of_false nofun hcloses
  · exact iff_of_false nofun hcloses
  · exact iff_of_false nofun hcloses

theorem told_eq_sealed : told roles = .sealed ↔ Role.reads ∈ roles ∧ Role.closes ∉ roles := by
  rw [told]
  split_ifs with hcloses hreads hopens
  · exact iff_of_false nofun fun h ↦ h.2 hcloses
  · exact iff_of_true rfl ⟨hreads, hcloses⟩
  · exact iff_of_false nofun fun h ↦ hreads h.1
  · exact iff_of_false nofun fun h ↦ hreads h.1

theorem told_eq_loading :
    told roles = .loading ↔ Role.opens ∈ roles ∧ Role.reads ∉ roles ∧ Role.closes ∉ roles := by
  rw [told]
  split_ifs with hcloses hreads hopens
  · exact iff_of_false nofun fun h ↦ h.2.2 hcloses
  · exact iff_of_false nofun fun h ↦ h.2.1 hreads
  · exact iff_of_true rfl ⟨hopens, hreads, hcloses⟩
  · exact iff_of_false nofun fun h ↦ hopens h.1

theorem told_eq_created :
    told roles = .created ↔ Role.opens ∉ roles ∧ Role.reads ∉ roles ∧ Role.closes ∉ roles := by
  rw [told]
  split_ifs with hcloses hreads hopens
  · exact iff_of_false nofun fun h ↦ h.2.2 hcloses
  · exact iff_of_false nofun fun h ↦ h.2.1 hreads
  · exact iff_of_false nofun fun h ↦ h.1 hopens
  · exact iff_of_true rfl ⟨hopens, hreads, hcloses⟩

end Phase

/-- The call came at the wrong time or named a node that there is not. -/
def Error.isMisuse : Error → Bool
  | .sequencing _ => true
  | .capacityExceeded .nodeId _ _ => true
  | _ => false

/-! ## Moves -/

namespace Lifecycle

/-- The moves that calls in each role make if they answer. -/
inductive Move : Role → Lifecycle → Lifecycle → Prop
  | opens (sizing : Sizing) : Move .opens .created (.loading sizing 0)
  | fills (sizing : Sizing) {n m : Nat} (hlt : n < m) :
    Move .fills (.loading sizing n) (.loading sizing m)
  | seals (sizing : Sizing) (n : Nat) : Move .reads (.loading sizing n) (.sealed sizing n)
  | reads (sizing : Sizing) (n : Nat) : Move .reads (.sealed sizing n) (.sealed sizing n)
  | closes {l : Lifecycle} (hopen : l.phase ≠ .closed) :
    Move .closes l (.closed l.sizing? l.appended)
  | idle (l : Lifecycle) : Move .idle l l

variable {l l' l'' : Lifecycle} {role : Role} {node : NodeId} {i : Nat}

theorem Move.rank_le (h : Move role l l') : l.phase.rank ≤ l'.phase.rank := by
  cases h with
  | opens sizing => exact Nat.zero_le _
  | fills sizing hlt => exact Nat.le_refl _
  | seals sizing n => exact Nat.le_succ 1
  | reads sizing n => exact Nat.le_refl _
  | closes hopen => exact Phase.rank_le_closed l.phase
  | idle => exact Nat.le_refl _

theorem Move.sizing?_eq (h : Move role l l') {sizing : Sizing} (hsizing : l.sizing? = some sizing) :
    l'.sizing? = some sizing := by
  cases h with
  | opens sizing' => exact nomatch hsizing
  | fills sizing' hlt => exact hsizing
  | seals sizing' n => exact hsizing
  | reads sizing' n => exact hsizing
  | closes hopen => exact hsizing
  | idle => exact hsizing

theorem Move.trans_fills (h : Move .fills l l') (h' : Move .fills l' l'') : Move .fills l l'' := by
  cases h with
  | fills sizing hlt =>
    cases h' with
    | fills _ hlt' => exact .fills sizing (Nat.lt_trans hlt hlt')

theorem Move.eq_idle (h : Move role l l') (hcreated : l'.phase = .created) : role = .idle := by
  cases h with
  | idle => rfl
  | opens | fills | seals | reads | closes => exact nomatch hcreated

theorem Move.loading_of_fills (h : Move .fills l l') : l.phase = .loading ∧ l'.phase = .loading := by
  cases h with
  | fills => exact ⟨rfl, rfl⟩

theorem Move.sealed_of_reads (h : Move .reads l l') :
    (l.phase = .loading ∨ l.phase = .sealed) ∧ l'.phase = .sealed := by
  cases h with
  | seals => exact ⟨Or.inl rfl, rfl⟩
  | reads => exact ⟨Or.inr rfl, rfl⟩

theorem Move.of_loading {sizing : Sizing} {n : Nat} (h : l = .loading sizing n)
    (h' : l' = .loading sizing (n + 1)) : Move .fills l l' := by
  rw [h, h']
  exact .fills sizing (Nat.lt_succ_self n)

theorem Move.of_startRead (h : l.startRead node = .ok (i, l')) : Move .reads l l' := by
  obtain ⟨sizing, n, rfl | rfl, -, -, rfl⟩ := startRead_eq_ok.mp h
  · exact .seals sizing n
  · exact .reads sizing n

theorem Move.of_close (h : l.close = .ok l') : Move .closes l l' := by
  cases l with
  | closed sizing n => exact nomatch h
  | created => cases h; exact .closes nofun
  | loading sizing n => cases h; exact .closes nofun
  | «sealed» sizing n => cases h; exact .closes nofun

theorem startRead_again (h : l.startRead node = .ok (i, l')) :
    l'.phase = .sealed ∧ l'.startRead node = .ok (i, l') := by
  obtain ⟨sizing, n, -, hnode, rfl, rfl⟩ := startRead_eq_ok.mp h
  exact ⟨rfl, startRead_eq_ok.mpr ⟨sizing, n, Or.inr rfl, hnode, rfl, rfl⟩⟩

theorem Move.told {roles : List Role} (h : Move role l l') (htold : l.phase = Phase.told roles) :
    l'.phase = Phase.told (roles ++ [role]) := by
  cases h with
  | opens sizing =>
    obtain ⟨-, hreads, hcloses⟩ := Phase.told_eq_created.mp htold.symm
    exact (Phase.told_eq_loading.mpr (by simp [hreads, hcloses])).symm
  | fills sizing hlt =>
    obtain ⟨hopens, hreads, hcloses⟩ := Phase.told_eq_loading.mp htold.symm
    exact (Phase.told_eq_loading.mpr (by simp [hopens, hreads, hcloses])).symm
  | seals sizing n =>
    obtain ⟨-, -, hcloses⟩ := Phase.told_eq_loading.mp htold.symm
    exact (Phase.told_eq_sealed.mpr (by simp [hcloses])).symm
  | reads sizing n =>
    obtain ⟨-, hcloses⟩ := Phase.told_eq_sealed.mp htold.symm
    exact (Phase.told_eq_sealed.mpr (by simp [hcloses])).symm
  | closes hopen => exact (Phase.told_eq_closed.mpr (by simp)).symm
  | idle =>
    rw [htold]
    simp only [Phase.told, List.mem_append, List.mem_singleton, reduceCtorEq, or_false]

end Lifecycle

namespace Store

open Lifecycle (Move)

variable {s : Store} {role : Role} {lists : Nat → List NodeId} {node target : NodeId}

/-! ## What a call does to the life of a store -/

/-- The call keeps to its role. -/
structure Obeys {α : Type} (s : Store) (role : Role) (o : Outcome Store α) : Prop where
  /-- A call that answers makes the move of its role. -/
  move : o.result.isOk = true → Move role s.lifecycle o.state.lifecycle
  /-- A call that fails leaves the store as it was, but an entry that failed may have been counted. -/
  fail : ∀ cause, o.result = .error cause → o.state = s ∨
    role = .fills ∧ cause.isMisuse = false ∧ Move .fills s.lifecycle o.state.lifecycle
  idle : role = .idle → o.state = s

section

variable {α β : Type} {o : Outcome Store α} {p : Outcome Store β}

theorem Obeys.of_ok {a : α} (hok : o.result = .ok a)
    (hmove : Move role s.lifecycle o.state.lifecycle) (hrole : role ≠ .idle) : s.Obeys role o where
  move := fun _ ↦ hmove
  fail := by
    intro cause herror
    rw [hok] at herror
    exact nomatch herror
  idle := fun hidle ↦ absurd hidle hrole

theorem Obeys.of_error {cause : Error} (herror : o.result = .error cause) (hstate : o.state = s) :
    s.Obeys role o where
  move := by
    intro hok
    rw [herror] at hok
    exact nomatch hok
  fail := fun _ _ ↦ Or.inl hstate
  idle := fun _ ↦ hstate

/-- An entry without room is counted all the same. -/
theorem Obeys.of_counted {cause : Error} (herror : o.result = .error cause)
    (hcause : cause.isMisuse = false) (hmove : Move .fills s.lifecycle o.state.lifecycle) :
    s.Obeys .fills o where
  move := fun _ ↦ hmove
  fail := by
    intro cause' hcause'
    rw [herror] at hcause'
    cases hcause'
    exact Or.inr ⟨rfl, hcause, hmove⟩
  idle := nofun

theorem Obeys.congr (h : s.Obeys role o) (hstate : p.state = o.state)
    (hok : p.result.isOk = o.result.isOk)
    (herror : ∀ cause, p.result = .error cause → o.result = .error cause) : s.Obeys role p where
  move := by
    rw [hok, hstate]
    exact h.move
  fail := by
    intro cause hcause
    rw [hstate]
    exact h.fail cause (herror cause hcause)
  idle := by
    rw [hstate]
    exact h.idle

theorem Obeys.map (h : s.Obeys role o) (f : α → β) : s.Obeys role (o.map f) := by
  refine h.congr rfl (Outcome.isOk_map f o) ?_
  rcases o with ⟨result, state, events⟩
  cases result with
  | ok a => exact fun _ hcause ↦ nomatch hcause
  | error e =>
    intro cause hcause
    cases hcause
    rfl

end

theorem obeys_init (s : Store) (totalNodes totalRels : UInt64) :
    s.Obeys .opens (s.init totalNodes totalRels) := by
  rcases init_cases s totalNodes totalRels with ⟨cause, herror, hstate⟩ |
    ⟨sizing, -, -, hcreated, hok, hloading, -, -⟩
  · exact .of_error herror hstate
  · refine .of_ok hok ?_ nofun
    rw [hcreated, hloading]
    exact .opens sizing

theorem Records.obeys_append (h : s.Records lists) (node target : NodeId) :
    s.Obeys .fills (s.append node target) := by
  rcases h.append_cases node target with ⟨r, -, heq⟩ |
    ⟨sizing, n, -, hloading, hnext, ⟨trace, hok, -⟩ | ⟨limit, requested, herror, -⟩⟩
  · rw [heq]
    exact .of_error rfl rfl
  · exact .of_ok hok (.of_loading hloading hnext) nofun
  · exact .of_counted herror rfl (.of_loading hloading hnext)

theorem Records.obeys_add (h : s.Records lists) (e : Entry) : s.Obeys .fills (s.add e) := by
  rcases h.add_cases e with ⟨r, -, herror, hsame⟩ |
    ⟨sizing, n, -, hloading, hnext, ⟨hok, -⟩ | ⟨limit, requested, herror, -⟩⟩
  · exact .of_error herror hsame
  · exact .of_ok hok (.of_loading hloading hnext) nofun
  · exact .of_counted herror rfl (.of_loading hloading hnext)

/-- An entry between nodes of a store that is being filled is no misuse, even if it fails. -/
theorem Records.isMisuse_of_add (h : s.Records lists) {sizing : Sizing} {n : Nat} {e : Entry}
    {cause : Error} (hloading : s.lifecycle = .loading sizing n) (hnode : e.node < sizing.totalNodes)
    (htarget : e.target < sizing.totalNodes) (herror : (s.add e).result = .error cause) :
    cause.isMisuse = false := by
  rcases h.add_cases e with ⟨r, hrefused, hcause, -⟩ |
    ⟨-, -, -, -, -, ⟨hok, -⟩ | ⟨limit, requested, hcause, -⟩⟩
  · rw [hcause] at herror
    cases herror
    rw [hloading, Lifecycle.accept_of_lt hnode htarget] at hrefused
    split at hrefused
    · exact nomatch hrefused
    · cases hrefused
      rfl
  · rw [hok] at herror
    exact nomatch herror
  · rw [hcause] at herror
    cases herror
    rfl

theorem Records.obeys_addRelationship (h : s.Records lists) (r : Relationship) :
    s.Obeys .fills (s.addRelationship r) := by
  rcases addRelationship_cases s r with ⟨cause, herror, hresult, hstate⟩ | ⟨hok, hresult, hstate⟩
  · refine (h.obeys_add r.outgoing).congr hstate ?_ ?_
    · rw [hresult, herror]
    · rw [hresult, herror]
      exact fun _ ↦ id
  · rcases h.add_cases r.outgoing with ⟨_, -, herror, -⟩ |
      ⟨sizing, n, haccept, hloading, hnext, ⟨-, hmore⟩ | ⟨limit, requested, herror, -⟩⟩
    · rw [hok] at herror
      exact nomatch herror
    · -- Both nodes exist, or the first entry would have been refused.
      obtain ⟨_, _, -, hsource, htarget, -, -, hl⟩ := Lifecycle.accept_eq_ok.mp haccept
      cases hl
      have hfirst : Move .fills s.lifecycle (s.add r.outgoing).state.lifecycle :=
        .of_loading hloading hnext
      have hsecond := hmore.obeys_add r.incoming
      refine ⟨?_, ?_, nofun⟩
      · intro hdone
        rw [hresult] at hdone
        rw [hstate]
        exact hfirst.trans_fills (hsecond.move hdone)
      · intro cause hcause
        rw [hresult] at hcause
        have hmisuse := hmore.isMisuse_of_add hnext htarget hsource hcause
        refine Or.inr ⟨rfl, hmisuse, ?_⟩
        rw [hstate]
        rcases hsecond.fail cause hcause with hsame | ⟨-, -, hmove⟩
        · rw [hsame]
          exact hfirst
        · exact hfirst.trans_fills hmove
    · rw [hok] at herror
      exact nomatch herror

theorem obeys_close (s : Store) : s.Obeys .closes s.close := by
  rw [close]
  cases hclose : s.lifecycle.close with
  | error r => exact .of_error rfl rfl
  | ok l => exact .of_ok rfl (.of_close hclose) (by decide)

theorem Records.obeys_targets (h : s.Records lists) (node : NodeId) :
    s.Obeys .reads (s.targets node) := by
  rcases h.targets_cases node with ⟨r, -, heq⟩ | ⟨i, l, ids, hread, heq⟩
  · rw [heq]
    exact .of_error rfl rfl
  · rw [heq]
    exact .of_ok rfl (.of_startRead hread) (by decide)

theorem Records.obeys_chain (h : s.Records lists) (node : NodeId) :
    s.Obeys (Call.role s.kind (.chain node)) (s.chain node) := by
  by_cases hkind : s.kind = .pagedBuffer
  · rw [Call.role, if_pos hkind]
    rcases h.chain_cases hkind node with ⟨r, -, heq⟩ | ⟨i, l, blocks, hread, heq⟩
    · rw [heq]
      exact .of_error rfl rfl
    · rw [heq]
      exact .of_ok rfl (.of_startRead hread) (by decide)
  · rw [Call.role, if_neg hkind, chain_of_kind_ne hkind]
    exact ⟨fun _ ↦ .idle _, fun _ h ↦ (by cases h), fun _ ↦ rfl⟩

theorem Records.obeys_trace (h : s.Records lists) (node target : NodeId) :
    s.Obeys (Call.role s.kind (.trace node target)) (s.trace node target) := by
  rw [trace]
  cases hkind : s.kind with
  | pagedBuffer => exact h.obeys_append node target
  | null | plainArray | byteArray => exact ⟨fun _ ↦ .idle _, fun _ h ↦ (by cases h), fun _ ↦ rfl⟩

/-- **Every call keeps to its role.** -/
theorem Records.obeys (h : s.Records lists) (c : Call) : s.Obeys (c.role s.kind) (s.step c) := by
  cases c with
  | init totalNodes totalRels => exact (obeys_init s totalNodes totalRels).map _
  | add e => exact (h.obeys_add e).map _
  | addRelationship r => exact (h.obeys_addRelationship r).map _
  | trace node target => exact (h.obeys_trace node target).map _
  | targets node => exact (h.obeys_targets node).map _
  | chain node => exact (h.obeys_chain node).map _
  | close => exact (obeys_close s).map _

/-! ## Stores that are read -/

/-- **A store that is read stays as it is,** whatever the call, unless it is closed. -/
theorem step_of_sealed (hsealed : s.phase = .sealed) {c : Call} (hc : c ≠ .close) :
    (s.step c).state = s := by
  obtain ⟨options, metrics, lifecycle, contents⟩ := s
  cases lifecycle with
  | created | loading | closed => exact nomatch hsealed
  | «sealed» sizing n =>
    have hread {node : NodeId} {i : Nat} {l : Lifecycle}
        (h : (Lifecycle.sealed sizing n).startRead node = .ok (i, l)) : l = .sealed sizing n := by
      obtain ⟨_, _, heq | ⟨⟨⟩⟩, -, -, rfl⟩ := Lifecycle.startRead_eq_ok.mp h
      · exact nomatch heq
      · rfl
    cases c with
    | init => rfl
    | add => rfl
    | addRelationship => rfl
    | trace => cases contents <;> rfl
    | targets node =>
      rw [step, Outcome.state_map, targets]
      split
      · rfl
      · next hbegan => rw [hread hbegan]
    | chain node =>
      cases contents with
      | null | plain | coded => rfl
      | paged arena =>
        rw [step, Outcome.state_map, chain]
        dsimp only
        split
        · rfl
        · next hbegan => rw [hread hbegan]
    | close => exact absurd rfl hc

theorem after_of_sealed (hsealed : s.phase = .sealed) {calls : List Call}
    (hcalls : Call.close ∉ calls) : Outcome.after step s calls = s := by
  induction calls with
  | nil => rfl
  | cons c calls ih =>
    have hc : c ≠ .close := fun heq ↦ hcalls (heq ▸ List.mem_cons_self)
    show Outcome.after step (s.step c).state calls = s
    rw [step_of_sealed hsealed hc]
    exact ih fun hmem ↦ hcalls (List.mem_cons_of_mem c hmem)

theorem targets_of_startRead {i : Nat} {l : Lifecycle}
    (h : s.lifecycle.startRead node = .ok (i, l)) :
    s.targets node = ⟨s.contents.targets i, { s with lifecycle := l }, []⟩ := by
  rw [targets, h]

theorem targets_again {ids : List NodeId} (hids : (s.targets node).result = .ok ids)
    {calls : List Call} (hcalls : Call.close ∉ calls) :
    ((Outcome.after step (s.targets node).state calls).targets node).result = .ok ids := by
  cases hread : s.lifecycle.startRead node with
  | error r =>
    rw [targets, hread] at hids
    cases hids
  | ok began =>
    obtain ⟨i, l⟩ := began
    obtain ⟨hphase, hagain⟩ := Lifecycle.startRead_again hread
    have hsealed : phase { s with lifecycle := l } = .sealed := hphase
    rw [targets_of_startRead hread] at hids ⊢
    dsimp only at hids ⊢
    rw [after_of_sealed hsealed hcalls, targets_of_startRead hagain]
    exact hids

/-! ## Histories -/

/-- What the calls that answered tell of a store that was new at first. -/
structure Lives (s : Store) (kind : Kind) (options : Options) (done : List Call) : Prop where
  kind_eq : s.kind = kind
  counted : ∃ rs, s.Counted rs
  phase_eq : s.phase = Phase.told (done.map (Call.role kind))
  /-- The totals are those the store was opened with. -/
  sizing_eq : ∀ totalNodes totalRels, Call.init totalNodes totalRels ∈ done →
    ∃ sizing, s.lifecycle.sizing? = some sizing ∧ sizing.totalNodes = totalNodes ∧
      sizing.totalRels = totalRels
  eq_new : s.phase = .created → s = new kind options

section

variable {kind : Kind} {options : Options} {done : List Call}

theorem lives_new (kind : Kind) (options : Options) : (new kind options).Lives kind options [] where
  kind_eq := kind_new kind options
  counted := ⟨[], counted_new kind options⟩
  phase_eq := rfl
  sizing_eq := nofun
  eq_new := fun _ ↦ rfl

theorem Lives.obeys (h : s.Lives kind options done) (c : Call) : s.Obeys (c.role kind) (s.step c) := by
  obtain ⟨rs, hcounted⟩ := h.counted
  obtain ⟨lists, hrecords⟩ := hcounted.records
  rw [← h.kind_eq]
  exact hrecords.obeys c

theorem Lives.exists_move (h : s.Lives kind options done) (c : Call) :
    ∃ role, Move role s.lifecycle (s.step c).state.lifecycle := by
  have hobeys := h.obeys c
  cases hresult : (s.step c).result with
  | ok a => exact ⟨_, hobeys.move (by rw [hresult]; rfl)⟩
  | error cause =>
    rcases hobeys.fail cause hresult with hsame | ⟨-, -, hmove⟩
    · rw [hsame]
      exact ⟨.idle, .idle _⟩
    · exact ⟨.fills, hmove⟩

theorem Lives.sizing_step (h : s.Lives kind options done) (c : Call) {totalNodes totalRels : UInt64}
    (hinit : Call.init totalNodes totalRels ∈ done) :
    ∃ sizing, (s.step c).state.lifecycle.sizing? = some sizing ∧ sizing.totalNodes = totalNodes ∧
      sizing.totalRels = totalRels := by
  obtain ⟨role, hmove⟩ := h.exists_move c
  obtain ⟨sizing, hsizing, htotals⟩ := h.sizing_eq _ _ hinit
  exact ⟨sizing, hmove.sizing?_eq hsizing, htotals⟩

theorem Lives.answer (h : s.Lives kind options done) {c : Call}
    (hok : (s.step c).result.isOk = true) :
    (s.step c).state.Lives kind options (done ++ [c]) := by
  obtain ⟨rs, hcounted⟩ := h.counted
  have hobeys := h.obeys c
  have hmove := hobeys.move hok
  refine ⟨(kind_step s c).trans h.kind_eq, ⟨_, hcounted.step c⟩, ?_, ?_, ?_⟩
  · rw [List.map_append]
    exact hmove.told h.phase_eq
  · intro totalNodes totalRels hinit
    rcases List.mem_append.mp hinit with hbefore | hnow
    · exact h.sizing_step c hbefore
    · rw [← List.mem_singleton.mp hnow] at hok ⊢
      rw [step, Outcome.isOk_map] at hok
      rcases init_cases s totalNodes totalRels with ⟨cause, herror, -⟩ |
        ⟨sizing, hnodes, hrels, -, -, hloading, -, -⟩
      · rw [herror] at hok
        exact nomatch hok
      · refine ⟨sizing, ?_, hnodes, hrels⟩
        rw [step, Outcome.state_map, hloading]
        rfl
  · intro hcreated
    have hsame := hobeys.idle (hmove.eq_idle hcreated)
    rw [hsame] at hcreated ⊢
    exact h.eq_new hcreated

theorem Lives.failure (h : s.Lives kind options done) {c : Call} {cause : Error}
    (herror : (s.step c).result = .error cause) : (s.step c).state.Lives kind options done := by
  rcases (h.obeys c).fail cause herror with hsame | ⟨-, -, hmove⟩
  · rw [hsame]
    exact h
  · obtain ⟨rs, hcounted⟩ := h.counted
    obtain ⟨hloading, hloading'⟩ := hmove.loading_of_fills
    refine ⟨(kind_step s c).trans h.kind_eq, ⟨_, hcounted.step c⟩, ?_,
      fun _ _ ↦ h.sizing_step c, ?_⟩
    · rw [← h.phase_eq]
      exact hloading'.trans hloading.symm
    · intro hcreated
      exact nomatch hloading'.symm.trans hcreated

/-- **The calls that answered tell the life of a store.** -/
theorem lives_after (kind : Kind) (options : Options) (calls : List Call) :
    (Outcome.after step (new kind options) calls).Lives kind options
      (Outcome.answered step (new kind options) calls) :=
  Outcome.answered_after (P := fun s done ↦ Lives s kind options done)
    (fun _ _ _ h ↦ h.answer) (fun _ _ _ _ h ↦ h.failure) (lives_new kind options) calls

theorem Lives.rank_le_after (h : s.Lives kind options done) (calls : List Call) :
    s.phase.rank ≤ (Outcome.after step s calls).phase.rank := by
  induction calls generalizing s done with
  | nil => exact Nat.le_refl _
  | cons c calls ih =>
    obtain ⟨role, hmove⟩ := h.exists_move c
    refine Nat.le_trans hmove.rank_le ?_
    cases hresult : (s.step c).result with
    | ok a => exact ih (h.answer (by rw [hresult]; rfl))
    | error cause => exact ih (h.failure hresult)

end

/-- **The life of a store.** After any history of a store of any kind:

* the phase only goes forward, whatever calls follow;
* the roles of the calls that answered tell the phase;
* an entry is recorded only if the store was opened and neither read nor closed;
* a read answers only while the store is being filled or read, and seals it;
* a call that fails leaves the store as it was, also one about entries if it came at the wrong time
  or named a node that there is not;
* a store that was not opened is still new;
* a store that is read stays as it is until it is closed;
* a list that was read is read again until then. -/
theorem phase_after (kind : Kind) (options : Options) (calls : List Call) :
    let s := Outcome.after step (new kind options) calls
    let roles := (Outcome.answered step (new kind options) calls).map (Call.role kind)
    (∀ more, s.phase.rank ≤ (Outcome.after step s more).phase.rank) ∧
      s.phase = Phase.told roles ∧
      (∀ c, c.role kind = .fills → (s.step c).result.isOk = true →
        Role.opens ∈ roles ∧ Role.reads ∉ roles ∧ Role.closes ∉ roles) ∧
      (∀ c, c.role kind = .reads → (s.step c).result.isOk = true →
        (s.phase = .loading ∨ s.phase = .sealed) ∧ (s.step c).state.phase = .sealed) ∧
      (∀ c cause, (s.step c).result = .error cause →
        c.role kind ≠ .fills ∨ cause.isMisuse = true → (s.step c).state = s) ∧
      (s.phase = .created → s = new kind options) ∧
      (s.phase = .sealed → ∀ more, Call.close ∉ more → Outcome.after step s more = s) ∧
      ∀ node ids, (s.targets node).result = .ok ids → ∀ more, Call.close ∉ more →
        ((Outcome.after step (s.targets node).state more).targets node).result = .ok ids := by
  intro s roles
  have hlives : s.Lives kind options (Outcome.answered step (new kind options) calls) :=
    lives_after kind options calls
  refine ⟨hlives.rank_le_after, hlives.phase_eq, ?_, ?_, ?_, hlives.eq_new,
    fun hsealed _ hmore ↦ after_of_sealed hsealed hmore,
    fun _ _ hids _ hmore ↦ targets_again hids hmore⟩
  · intro c hrole hok
    have hmove := (hlives.obeys c).move hok
    rw [hrole] at hmove
    exact Phase.told_eq_loading.mp (hlives.phase_eq.symm.trans hmove.loading_of_fills.1)
  · intro c hrole hok
    have hmove := (hlives.obeys c).move hok
    rw [hrole] at hmove
    exact hmove.sealed_of_reads
  · intro c cause herror hrefused
    rcases (hlives.obeys c).fail cause herror with hsame | ⟨hrole, hcause, -⟩
    · exact hsame
    · -- An entry that was counted or followed one that was recorded is no misuse.
      rw [hcause] at hrefused
      exact absurd hrole (hrefused.resolve_right Bool.false_ne_true)

end Store

end Adjacency
