import Adjacency.Proofs.Store.Lossless

/-!
# What the count of a store counts

A store counts an entry when it admits it, before the contents make room for it. In an arena room
may be lacking, and then the entry fails although it was counted. So the count is the number of
entries that were recorded plus the number of those that an arena had no room for
(`Counted.appended_eq`), and it is the first number alone exactly as long as the second is zero. The
quota is used up when the sum reaches it.

A relationship brings two entries, the second one only if the first was recorded. `entryResults`
lists what becomes of the entries of a call, so both kinds of calls are counted in the same way.
A property that each entry keeps in step with the entries brought so far is kept by every call and
every history (`step_brought`, `after_allBrought`).
-/

namespace Adjacency

namespace Store

/-- The entry failed because the arena had no room for it. -/
def isExhausted : Except Error Unit → Bool
  | .error (.capacityExceeded .pagedArena _ _) => true
  | _ => false

/-- What becomes of the entries that a call brings, in order. -/
def entryResults (s : Store) : Call → List (Except Error Unit)
  | .add e => [(s.add e).result]
  | .addRelationship r =>
    (s.add r.outgoing).result ::
      if (s.add r.outgoing).result.isOk then [((s.add r.outgoing).state.add r.incoming).result]
      else []
  | .trace node target =>
    match s.kind with
    | .pagedBuffer => [((s.append node target).map fun _ ↦ ()).result]
    | _ => []
  | .init .. | .targets _ | .chain _ | .close => []

/-- What becomes of the entries that a history brings, in order. -/
def allEntryResults : Store → List Call → List (Except Error Unit)
  | _, [] => []
  | s, c :: calls => s.entryResults c ++ allEntryResults (s.step c).state calls

/-- The entries that were recorded. -/
def recordedCount (rs : List (Except Error Unit)) : Nat := rs.countP Except.isOk

/-- The entries that an arena had no room for. -/
def exhaustedCount (rs : List (Except Error Unit)) : Nat := rs.countP isExhausted

/-- The count of the store agrees with what became of the entries so far. -/
structure Counted (s : Store) (rs : List (Except Error Unit)) : Prop where
  appended_eq : s.appended = recordedCount rs + exhaustedCount rs
  le_maxAppends : ∀ sizing, s.lifecycle.sizing? = some sizing → s.appended ≤ sizing.maxAppends
  records : ∃ lists, s.Records lists

variable {s : Store} {rs : List (Except Error Unit)} {node target : NodeId}

/-! ## Counting results -/

theorem isExhausted_iff {r : Except Error Unit} : isExhausted r = true ↔
    ∃ limit requested, r = .error (.capacityExceeded .pagedArena limit requested) := by
  constructor
  · intro h
    unfold isExhausted at h
    split at h
    · exact ⟨_, _, rfl⟩
    · exact nomatch h
  · rintro ⟨limit, requested, rfl⟩
    rfl

theorem isExhausted_of_refused {l : Lifecycle} {r : Refusal}
    (h : l.accept node target = .error r) : isExhausted (.error r.cause) = false := by
  rcases Lifecycle.accept_eq_error h with ⟨v, hcause⟩ | ⟨sizing, id, hcause⟩ |
    ⟨sizing, n, -, -, -, -, hcause⟩
  · rw [hcause]
    rfl
  · rw [hcause]
    rfl
  · rw [hcause]
    rfl

/-- No entry is both recorded and without room, so each adds at most one to the two counts. -/
theorem counts_concat (rs : List (Except Error Unit)) (r : Except Error Unit) :
    recordedCount (rs ++ [r]) + exhaustedCount (rs ++ [r])
      = recordedCount rs + exhaustedCount rs + if r.isOk || isExhausted r then 1 else 0 := by
  rw [recordedCount, exhaustedCount, List.countP_append, List.countP_append, List.countP_singleton,
    List.countP_singleton, ← recordedCount, ← exhaustedCount]
  cases r with
  | ok u =>
    have hok : (Except.ok u : Except Error Unit).isOk = true := rfl
    have hroom : isExhausted (.ok u) = false := rfl
    rw [hok, hroom]
    simp only [if_true, Bool.true_or, Bool.false_eq_true, if_false]
    omega
  | error e =>
    have hfail : (Except.error e : Except Error Unit).isOk = false := rfl
    rw [hfail]
    simp only [Bool.false_or, Bool.false_eq_true, if_false]
    omega

/-! ## One entry -/

theorem Counted.add_of_accepted (h : s.Counted rs) {e : Entry} {i : Nat} {l : Lifecycle}
    (haccept : s.lifecycle.accept e.node e.target = .ok (i, l)) :
    (s.add e).result = .ok () ∨ isExhausted (s.add e).result = true := by
  obtain ⟨lists, hrecords⟩ := h.records
  rcases hrecords.add_cases e with ⟨r, hrefused, -, -⟩ |
    ⟨-, -, -, -, -, ⟨hdone, -⟩ | ⟨limit, requested, herror, -⟩⟩
  · rw [hrefused] at haccept
    exact nomatch haccept
  · exact Or.inl hdone
  · exact Or.inr (isExhausted_iff.mpr ⟨limit, requested, herror⟩)

/-- An entry changes the count by one if it is recorded or meets an exhausted arena, and not at all
if it is refused. -/
theorem Records.appended_append {lists : Nat → List NodeId} (h : s.Records lists)
    (node target : NodeId) :
    (s.append node target).state.appended = s.appended +
      if ((s.append node target).map fun _ ↦ ()).result.isOk ||
        isExhausted ((s.append node target).map fun _ ↦ ()).result then 1 else 0 := by
  rcases h.append_cases node target with ⟨r, hrefused, heq⟩ |
    ⟨sizing, n, -, hloading, hnext, ⟨trace, hok, -⟩ | ⟨limit, requested, hfail, -⟩⟩
  · have hfalse := isExhausted_of_refused hrefused
    rw [heq]
    simp [Refusal.leave, Outcome.fail, Outcome.map, Except.isOk, Except.toBool, hfalse]
  · rw [appended, hnext, appended, hloading, Outcome.map, hok]
    rfl
  · rw [appended, hnext, appended, hloading, Outcome.map, hfail]
    rfl

/-- **Every entry is counted that is recorded or meets an exhausted arena.** -/
theorem Counted.append (h : s.Counted rs) (node target : NodeId) :
    (s.append node target).state.Counted
      (rs ++ [((s.append node target).map fun _ ↦ ()).result]) := by
  obtain ⟨lists, hrecords⟩ := h.records
  refine ⟨?_, ?_, ?_⟩
  · rw [hrecords.appended_append, h.appended_eq, counts_concat]
  · intro sizing hsizing
    rcases hrecords.append_cases node target with ⟨r, -, heq⟩ | ⟨sizing', n, haccept, -, hnext, -⟩
    · rw [heq] at hsizing ⊢
      exact h.le_maxAppends sizing hsizing
    · -- The quota is not passed, since an entry is admitted below it only.
      obtain ⟨_, _, -, -, -, hlt, -, hl⟩ := Lifecycle.accept_eq_ok.mp haccept
      cases hl
      rw [hnext] at hsizing
      cases hsizing
      rw [appended, hnext]
      exact hlt
  · rcases hrecords.append_cases node target with ⟨r, -, heq⟩ |
      ⟨sizing, n, -, hloading, hnext, ⟨trace, -, hmore⟩ | ⟨limit, requested, -, hcontents⟩⟩
    · rw [heq]
      exact ⟨lists, hrecords⟩
    · exact ⟨_, hmore⟩
    · -- The entry is counted, but the contents are as they were.
      exact ⟨lists, hrecords.of_eq hcontents (by rw [hnext, hloading]; rfl)⟩

theorem add_result_eq (s : Store) (e : Entry) :
    (s.add e).result = ((s.append e.node e.target).map fun _ ↦ ()).result := by
  rw [Outcome.map]
  rcases (add_eq s e).2 with ⟨hdone, trace, hok⟩ | ⟨cause, herror, hfail⟩
  · rw [hdone, hok]
  · rw [herror, hfail]

theorem Counted.add (h : s.Counted rs) (e : Entry) :
    (s.add e).state.Counted (rs ++ [(s.add e).result]) := by
  rw [(add_eq s e).1, add_result_eq]
  exact h.append e.node e.target

/-! ## One call -/

theorem Counted.of_eq {t : Store} (h : s.Counted rs) (hcontents : t.contents = s.contents)
    (hsizing : t.lifecycle.sizing? = s.lifecycle.sizing?)
    (happended : t.lifecycle.appended = s.lifecycle.appended) : t.Counted rs := by
  obtain ⟨lists, hrecords⟩ := h.records
  refine ⟨?_, ?_, lists, ?_⟩
  · rw [appended, happended]
    exact h.appended_eq
  · rw [appended, happended, hsizing]
    exact h.le_maxAppends
  · exact hrecords.of_eq hcontents hsizing

theorem Counted.init (h : s.Counted rs) (totalNodes totalRels : UInt64) :
    (s.init totalNodes totalRels).state.Counted rs := by
  rcases init_cases s totalNodes totalRels with ⟨cause, -, hstate⟩ |
    ⟨sizing, -, -, hcreated, -, hloading, -, hrecords⟩
  · rw [hstate]
    exact h
  · -- Nothing was counted in a store that was not open.
    have hzero : s.appended = 0 := by rw [appended, hcreated]; rfl
    refine ⟨?_, ?_, _, hrecords⟩
    · rw [appended, hloading, ← h.appended_eq, hzero]
      rfl
    · intro _ _
      rw [appended, hloading]
      exact Nat.zero_le _

/-! ## The entries of a history -/

/-- The entries that a call brings, each with the store that it comes to. -/
def brought (s : Store) : Call → List (Store × Entry)
  | .add e => [(s, e)]
  | .addRelationship r =>
    (s, r.outgoing) ::
      if (s.add r.outgoing).result.isOk then [((s.add r.outgoing).state, r.incoming)] else []
  | .trace node target =>
    match s.kind with
    -- A traced id has no type and no direction; whatever they are, they are not kept.
    | .pagedBuffer => [(s, ⟨node, target, 0, .outgoing⟩)]
    | _ => []
  | .init .. | .targets _ | .chain _ | .close => []

/-- The entries that a history brings, each with the store that it comes to. -/
def allBrought : Store → List Call → List (Store × Entry)
  | _, [] => []
  | s, c :: calls => s.brought c ++ allBrought (s.step c).state calls

/-- What becomes of an entry that is brought. -/
def outcomeOf (p : Store × Entry) : Except Error Unit := (p.1.add p.2).result

theorem map_outcomeOf_brought (s : Store) (c : Call) :
    (s.brought c).map outcomeOf = s.entryResults c := by
  cases c with
  | init | add | targets | chain | close => rfl
  | addRelationship r =>
    rw [brought, entryResults]
    split <;> rfl
  | trace node target =>
    rw [brought, entryResults]
    split
    · rw [List.map_singleton, outcomeOf, add_result_eq]
    · rfl

theorem map_outcomeOf_allBrought (s : Store) (calls : List Call) :
    (allBrought s calls).map outcomeOf = allEntryResults s calls := by
  induction calls generalizing s with
  | nil => rfl
  | cons c calls ih => rw [allBrought, List.map_append, map_outcomeOf_brought, ih, allEntryResults]

section Brought

variable {α : Type} {P : Store → List α → Prop} {f : Store × Entry → α} {told : List α}
  (hkeeps : ∀ (s : Store) l told, P s told → l.sizing? = s.lifecycle.sizing? →
    l.appended = s.lifecycle.appended → P { s with lifecycle := l } told)
  (hinit : ∀ s told totalNodes totalRels, P s told → P (s.init totalNodes totalRels).state told)
  (hadd : ∀ s told e, P s told → P (s.add e).state (told ++ [f (s, e)]))

include hkeeps hinit hadd

/-- **What each entry keeps in step with what is told of the entries, each call does.** The property
may depend on everything in a store but its phase. -/
theorem step_brought (h : P s told) (c : Call) :
    P (s.step c).state (told ++ (s.brought c).map f) := by
  cases c with
  | init totalNodes totalRels =>
    rw [brought, List.map_nil, List.append_nil]
    exact hinit s told totalNodes totalRels h
  | add e => exact hadd s told e h
  | addRelationship r =>
    show P (s.addRelationship r).state _
    have hfirst := hadd s told r.outgoing h
    rw [brought]
    rcases addRelationship_cases s r with ⟨cause, hresult, -, hstate⟩ | ⟨hresult, -, hstate⟩
    · -- An entry that fails keeps the other one from being brought.
      rw [hresult, hstate]
      exact hfirst
    · have hsecond := hadd _ _ r.incoming hfirst
      rw [List.append_assoc] at hsecond
      rw [hresult, hstate]
      exact hsecond
  | trace node target =>
    show P (s.trace node target).state _
    rw [trace, brought]
    cases hkind : s.kind with
    | pagedBuffer =>
      have hentry := hadd s told ⟨node, target, 0, .outgoing⟩ h
      rw [(add_eq s _).1] at hentry
      exact hentry
    | null | plainArray | byteArray =>
      rw [List.map_nil, List.append_nil]
      exact h
  | targets node =>
    show P (s.targets node).state _
    rw [brought, List.map_nil, List.append_nil, targets]
    cases hread : s.lifecycle.startRead node with
    | error r => exact h
    | ok began =>
      obtain ⟨hsizing, happended⟩ := Lifecycle.startRead_keeps hread
      exact hkeeps s began.2 told h hsizing happended
  | chain node =>
    show P (s.chain node).state _
    rw [brought, List.map_nil, List.append_nil, chain]
    split
    · cases hread : s.lifecycle.startRead node with
      | error r => exact h
      | ok began =>
        obtain ⟨hsizing, happended⟩ := Lifecycle.startRead_keeps hread
        exact hkeeps s began.2 told h hsizing happended
    · exact h
  | close =>
    show P s.close.state _
    rw [brought, List.map_nil, List.append_nil, close]
    cases hclose : s.lifecycle.close with
    | error r => exact h
    | ok l =>
      obtain ⟨hsizing, happended⟩ := Lifecycle.close_eq_ok hclose
      exact hkeeps s l told h hsizing happended

theorem after_allBrought (h : P s told) (calls : List Call) :
    P (Outcome.after Store.step s calls) (told ++ (allBrought s calls).map f) := by
  induction calls generalizing s told with
  | nil =>
    rw [allBrought, List.map_nil, List.append_nil]
    exact h
  | cons c calls ih =>
    rw [allBrought, List.map_append, ← List.append_assoc]
    exact ih (step_brought hkeeps hinit hadd h c)

end Brought

/-! ## The log of a history -/

/-- The entries that a call brings if none of them fails. -/
def Call.entries : Call → List Entry
  | .add e => [e]
  | .addRelationship r => r.entries
  | .trace node target => [⟨node, target, 0, .outgoing⟩]
  | .init .. | .targets _ | .chain _ | .close => []

/-- The entries of a call, each with what becomes of it. -/
def entryLog (s : Store) (c : Call) : List (Entry × Except Error Unit) :=
  c.entries.zip (s.entryResults c)

/-- The entries of a history, each with what becomes of it. -/
def allEntryLogs : Store → List Call → List (Entry × Except Error Unit)
  | _, [] => []
  | s, c :: calls => s.entryLog c ++ allEntryLogs (s.step c).state calls

/-- An entry that is brought, with what becomes of it. -/
def logged (p : Store × Entry) : Entry × Except Error Unit := (p.2, outcomeOf p)

theorem map_logged_brought (s : Store) (c : Call) :
    (s.brought c).map logged = s.entryLog c := by
  rw [entryLog, ← map_outcomeOf_brought]
  cases c with
  | init | add | targets | chain | close => rfl
  | addRelationship r =>
    rw [brought]
    split <;> rfl
  | trace node target =>
    rw [brought]
    split <;> rfl

theorem map_logged_allBrought (s : Store) (calls : List Call) :
    (allBrought s calls).map logged = allEntryLogs s calls := by
  induction calls generalizing s with
  | nil => rfl
  | cons c calls ih => rw [allBrought, List.map_append, map_logged_brought, ih, allEntryLogs]

theorem after_allEntryLogs {P : Store → List (Entry × Except Error Unit) → Prop}
    (hkeeps : ∀ s t log, P s log → t.contents = s.contents →
      t.lifecycle.sizing? = s.lifecycle.sizing? → t.lifecycle.appended = s.lifecycle.appended →
      P t log)
    (hinit : ∀ s log totalNodes totalRels, P s log → P (s.init totalNodes totalRels).state log)
    (hadd : ∀ s log e, P s log → P (s.add e).state (log ++ [(e, (s.add e).result)]))
    {log : List (Entry × Except Error Unit)} (h : P s log) (calls : List Call) :
    P (Outcome.after Store.step s calls) (log ++ allEntryLogs s calls) := by
  rw [← map_logged_allBrought]
  exact after_allBrought (f := logged) (fun s l _ h ↦ hkeeps s { s with lifecycle := l } _ h rfl)
    hinit hadd h calls

/-- **A call changes the count by what becomes of its entries.** -/
theorem Counted.step (h : s.Counted rs) (c : Call) :
    (s.step c).state.Counted (rs ++ s.entryResults c) := by
  rw [← map_outcomeOf_brought]
  exact step_brought (P := Counted) (f := outcomeOf)
    (fun s l _ h ↦ h.of_eq (t := { s with lifecycle := l }) rfl) (fun _ _ _ _ h ↦ h.init _ _)
    (fun _ _ e h ↦ h.add e) h c

/-! ## Histories -/

theorem counted_new (kind : Kind) (options : Options) : (new kind options).Counted [] :=
  ⟨rfl, fun _ _ ↦ Nat.zero_le _, fun _ ↦ [], records_new kind options _⟩

theorem Counted.after (h : s.Counted rs) (calls : List Call) :
    (Outcome.after Store.step s calls).Counted (rs ++ allEntryResults s calls) := by
  induction calls generalizing s rs with
  | nil =>
    rw [allEntryResults, List.append_nil]
    exact h
  | cons c calls ih =>
    rw [allEntryResults, ← List.append_assoc]
    exact ih (h.step c)

theorem exhaustedCount_eq_zero : exhaustedCount rs = 0 ↔ ∀ r ∈ rs, isExhausted r = false := by
  rw [exhaustedCount, List.countP_eq_zero]
  simp only [Bool.not_eq_true]

theorem Counted.add_refused_iff (h : s.Counted rs) {sizing : Sizing} {n : Nat}
    (hloading : s.lifecycle = .loading sizing n) {e : Entry} (hnode : e.node < sizing.totalNodes)
    (htarget : e.target < sizing.totalNodes) :
    (∃ limit requested,
      (s.add e).result = .error (.capacityExceeded .adjacencyEntries limit requested)) ↔
    recordedCount rs + exhaustedCount rs = sizing.maxAppends := by
  have hcount : recordedCount rs + exhaustedCount rs = n := by
    rw [← h.appended_eq, appended, hloading]
    rfl
  have hle : n ≤ sizing.maxAppends := by
    have hle := h.le_maxAppends sizing (by rw [hloading]; rfl)
    rw [appended, hloading] at hle
    exact hle
  have haccept := Lifecycle.accept_of_lt (n := n) hnode htarget
  rw [← hloading] at haccept
  rw [hcount]
  constructor
  · rintro ⟨limit, requested, hresult⟩
    refine Nat.le_antisymm hle (Nat.le_of_not_lt ?_)
    intro hlt
    -- An admitted entry fails for want of room in an arena only.
    rw [if_pos hlt] at haccept
    rcases h.add_of_accepted haccept with hok | hexhausted
    · rw [hok] at hresult
      exact nomatch hresult
    · rw [hresult] at hexhausted
      exact nomatch hexhausted
  · rintro rfl
    rw [if_neg (Nat.lt_irrefl _)] at haccept
    exact ⟨_, _, add_result_of_refused haccept⟩

/-! ## Kinds without an arena -/

theorem kind_step (s : Store) (c : Call) : (s.step c).state.kind = s.kind := by
  cases c with
  | init totalNodes totalRels =>
    show (s.init totalNodes totalRels).state.kind = s.kind
    rcases init_cases s totalNodes totalRels with ⟨cause, -, hstate⟩ | ⟨_, -, -, -, -, -, hkind, -⟩
    · rw [hstate]
    · exact hkind
  | add e => exact kind_add s e
  | addRelationship r =>
    show (s.addRelationship r).state.kind = s.kind
    rcases addRelationship_cases s r with ⟨cause, -, -, hstate⟩ | ⟨-, -, hstate⟩
    · rw [hstate, kind_add]
    · rw [hstate, kind_add, kind_add]
  | trace node target =>
    show (s.trace node target).state.kind = s.kind
    rw [trace]
    split
    · exact kind_append s node target
    · rfl
  | targets node =>
    show (s.targets node).state.kind = s.kind
    rw [targets]
    split <;> rfl
  | chain node =>
    show (s.chain node).state.kind = s.kind
    rw [chain]
    split
    · split <;> rfl
    · rfl
  | close =>
    show s.close.state.kind = s.kind
    rw [close]
    split <;> rfl

theorem isExhausted_add_of_kind_ne (hkind : s.kind ≠ .pagedBuffer) (e : Entry) :
    isExhausted (s.add e).result = false := by
  cases haccept : s.lifecycle.accept e.node e.target with
  | error r =>
    rw [add_result_of_refused haccept]
    exact isExhausted_of_refused haccept
  | ok admitted =>
    obtain ⟨hresult, -, -⟩ := append_of_accepted haccept
    have hok : (s.contents.append admitted.1 e.target).result = .ok none := by
      cases hcontents : s.contents with
      | null => rfl
      | plain a => rfl
      | coded a => rfl
      | paged a => exact absurd (by rw [kind, hcontents]; rfl) hkind
    rcases (add_eq s e).2 with ⟨hdone, -⟩ | ⟨cause, -, hfail⟩
    · rw [hdone]
      rfl
    · rw [hresult, hok] at hfail
      cases hfail

theorem isExhausted_of_mem_entryResults (hkind : s.kind ≠ .pagedBuffer) {c : Call}
    {r : Except Error Unit} (hr : r ∈ s.entryResults c) : isExhausted r = false := by
  cases c with
  | init | targets | chain | close => exact absurd hr List.not_mem_nil
  | add e =>
    rw [List.mem_singleton.mp hr]
    exact isExhausted_add_of_kind_ne hkind e
  | addRelationship rel =>
    rcases List.mem_cons.mp hr with rfl | hr
    · exact isExhausted_add_of_kind_ne hkind rel.outgoing
    · split at hr
      · rw [List.mem_singleton.mp hr]
        exact isExhausted_add_of_kind_ne (by rw [kind_add]; exact hkind) rel.incoming
      · exact absurd hr List.not_mem_nil
  | trace node target =>
    rw [entryResults] at hr
    split at hr
    · next hpaged => exact absurd hpaged hkind
    · exact absurd hr List.not_mem_nil

/-- **Only an arena is ever exhausted.** -/
theorem isExhausted_of_mem_allEntryResults (hkind : s.kind ≠ .pagedBuffer) (calls : List Call) :
    ∀ r ∈ allEntryResults s calls, isExhausted r = false := by
  induction calls generalizing s with
  | nil => exact fun r hr ↦ absurd hr List.not_mem_nil
  | cons c calls ih =>
    intro r hr
    rcases List.mem_append.mp hr with hr | hr
    · exact isExhausted_of_mem_entryResults hkind hr
    · exact ih (by rw [kind_step]; exact hkind) r hr

/-! ## The count -/

/-- **What the count of a store counts.** After any history of a store of any kind the count is the
number of recorded entries plus the number of entries that an arena had no room for, and there are
none of these but in an arena. So the count is the number of recorded entries exactly if no entry
met an exhausted arena, and an entry that fails leaves it alone exactly if that was not the cause.
An entry whose nodes exist is refused for the quota exactly if the sum of the two numbers has
reached it. -/
theorem appended_eq_recorded_iff (kind : Kind) (options : Options) (calls : List Call) :
    let s := Outcome.after step (new kind options) calls
    let rs := allEntryResults (new kind options) calls
    s.appended = recordedCount rs + exhaustedCount rs ∧
      (s.appended = recordedCount rs ↔ ∀ r ∈ rs, isExhausted r = false) ∧
      (kind ≠ .pagedBuffer → ∀ r ∈ rs, isExhausted r = false) ∧
      (∀ (e : Entry) (cause : Error), (s.add e).result = .error cause →
        ((s.add e).state.appended = s.appended ↔ isExhausted (.error cause) = false)) ∧
      ∀ (sizing : Sizing) (n : Nat) (e : Entry), s.lifecycle = .loading sizing n →
        e.node < sizing.totalNodes → e.target < sizing.totalNodes →
        ((∃ limit requested,
          (s.add e).result = .error (.capacityExceeded .adjacencyEntries limit requested)) ↔
        recordedCount rs + exhaustedCount rs = sizing.maxAppends) := by
  intro s rs
  have hcounted : s.Counted rs := (counted_new kind options).after calls
  refine ⟨hcounted.appended_eq, ?_, ?_, ?_, ?_⟩
  · rw [hcounted.appended_eq, ← exhaustedCount_eq_zero]
    omega
  · intro hkind
    exact isExhausted_of_mem_allEntryResults (by rw [kind_new]; exact hkind) calls
  · -- What an entry that failed adds to the sum is one or nothing.
    intro e cause hcause
    have hnext := (hcounted.add e).appended_eq
    rw [counts_concat, ← hcounted.appended_eq, hcause] at hnext
    rw [hnext]
    cases isExhausted (.error cause) with
    | true => simp [Except.isOk, Except.toBool]
    | false => simp [Except.isOk, Except.toBool]
  · intro sizing n e hloading hnode htarget
    exact hcounted.add_refused_iff hloading hnode htarget

/-- The ninth entry meets an exhausted arena and is counted all the same; with nine entries recorded
the quota of ten is used up. -/
theorem appended_overfill :
    (Outcome.after step (new .pagedBuffer narrow) (.init 3 5 :: overfill.map .add)).appended = 10 ∧
      recordedCount (allEntryResults (new .pagedBuffer narrow)
        (.init 3 5 :: overfill.map .add)) = 9 ∧
      ((Outcome.after step (new .pagedBuffer narrow) (.init 3 5 :: overfill.map .add)).add
        ⟨1, 0, 0, .outgoing⟩).result = .error (.capacityExceeded .adjacencyEntries 10 11) := by
  refine ⟨?_, ?_, ?_⟩
  · decide +kernel
  · decide +kernel
  · decide +kernel

end Store

end Adjacency
