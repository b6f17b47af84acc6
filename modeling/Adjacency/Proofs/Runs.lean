import Adjacency.Outcome

/-!
# Invariants of runs

What a call does to an object is said by what holds of the object if the call answers and what holds
if it fails (`Ends`). Calls that are joined by `andThen` are joined on this level too.

Whoever makes one call after another knows something of the object that depends on what is still to
be done. If every call keeps that knowledge, it holds at the end of the run (`run_ends`). What is
asked of the object in order that all calls answer is taken through a run in the same way
(`run_iff`). Two more shapes of runs are the repeated reads that gather their answers (`gather_eq`)
and those that stop as soon as an answer settles the matter (`seek_eq`). A history goes on after
failures and has no end of this kind; there it is an account of the calls that is kept in step with
the object (`account_after`, `answered_after`).

The same calls on two objects go together if they come to the same results and keep the objects in
some relation (`Agree`). This too is kept by joined calls and by runs (`run_agree`).
-/

namespace Adjacency

namespace Outcome

variable {σ τ α β γ : Type} {P Q R : σ → Prop}

/-! ## How calls end -/

/-- The call leaves an object with `P` if it answers, and one with `Q` if it fails. -/
structure Ends (o : Outcome σ α) (P Q : σ → Prop) : Prop where
  ok : ∀ a, o.result = .ok a → P o.state
  error : ∀ e, o.result = .error e → Q o.state

theorem Ends.of_ok {o : Outcome σ α} {a : α} (hok : o.result = .ok a) (h : P o.state) :
    o.Ends P Q := by
  refine ⟨fun _ _ ↦ h, ?_⟩
  intro e he
  rw [hok] at he
  exact nomatch he

theorem Ends.of_error {o : Outcome σ α} {e : Error} (herror : o.result = .error e)
    (h : Q o.state) : o.Ends P Q := by
  refine ⟨?_, fun _ _ ↦ h⟩
  intro a ha
  rw [herror] at ha
  exact nomatch ha

theorem Ends.of_state {o : Outcome σ α} (h : P o.state) : o.Ends P P := ⟨fun _ _ ↦ h, fun _ _ ↦ h⟩

theorem Ends.state {o : Outcome σ α} (h : o.Ends P P) : P o.state := by
  cases hresult : o.result with
  | ok a => exact h.ok a hresult
  | error e => exact h.error e hresult

theorem Ends.answers {o : Outcome σ α} (h : o.Ends P fun _ ↦ False) :
    ∃ a, o.result = .ok a ∧ P o.state := by
  cases hresult : o.result with
  | ok a => exact ⟨a, rfl, h.ok a hresult⟩
  | error e => exact absurd (h.error e hresult) id

theorem Ends.mono {P' Q' : σ → Prop} {o : Outcome σ α} (h : o.Ends P Q)
    (hP : ∀ s, P s → P' s) (hQ : ∀ s, Q s → Q' s) : o.Ends P' Q' :=
  ⟨fun a ha ↦ hP _ (h.ok a ha), fun e he ↦ hQ _ (h.error e he)⟩

theorem Ends.and {P' Q' : σ → Prop} {o : Outcome σ α} (h : o.Ends P Q) (h' : o.Ends P' Q') :
    o.Ends (fun s ↦ P s ∧ P' s) fun s ↦ Q s ∧ Q' s :=
  ⟨fun a ha ↦ ⟨h.ok a ha, h'.ok a ha⟩, fun e he ↦ ⟨h.error e he, h'.error e he⟩⟩

theorem Ends.and_state {o : Outcome σ α} (h : o.Ends P Q) (hR : R o.state) :
    o.Ends (fun s ↦ P s ∧ R s) fun s ↦ Q s ∧ R s :=
  h.and (.of_state hR)

theorem Ends.onto {f : σ → τ} {P Q : τ → Prop} {o : Outcome σ α}
    (h : o.Ends (fun s ↦ P (f s)) (fun s ↦ Q (f s))) : (o.onto f).Ends P Q := ⟨h.ok, h.error⟩

/-- **One call after another ends as the first fails or as the second ends.** -/
theorem Ends.andThen {o : Outcome σ α} {next : σ → α → Outcome σ β} (h : o.Ends P Q)
    (hnext : ∀ s a, P s → (next s a).Ends R Q) : (o.andThen next).Ends R Q := by
  rcases o with ⟨result, s, events⟩
  cases result with
  | error e => exact Ends.of_error rfl (h.error e rfl)
  | ok a =>
    rw [ok_andThen]
    exact ⟨(hnext s a (h.ok a rfl)).ok, (hnext s a (h.ok a rfl)).error⟩

/-- **One call after another answers exactly if both do.** -/
theorem result_andThen_eq_ok {o : Outcome σ Unit} {next : σ → Unit → Outcome σ β} {b : β} :
    (o.andThen next).result = .ok b ↔ o.result = .ok () ∧ (next o.state ()).result = .ok b := by
  rcases o with ⟨e | a, s, events⟩
  · exact iff_of_false nofun fun h ↦ nomatch h.1
  · exact (and_iff_right rfl).symm

/-! ## Runs of given calls -/

theorem runFrom_ends {call : σ → β → Outcome σ α} {P : σ → List β → Prop} {Q : σ → Prop}
    (hstep : ∀ s x xs, P s (x :: xs) → (call s x).Ends (P · xs) Q) {s : σ} {xs : List β}
    (h : P s xs) (n : Nat) (events : List Event) :
    (runFrom call n s events xs).outcome.Ends (P · []) Q := by
  induction xs generalizing s n events with
  | nil => exact Ends.of_ok rfl h
  | cons x xs ih =>
    rw [runFrom]
    have hcall := hstep s x xs h
    rcases heq : call s x with ⟨result, t, more⟩
    rw [heq] at hcall
    cases result with
    | error e => exact Ends.of_error rfl (hcall.error e rfl)
    | ok a => exact ih (hcall.ok a rfl) _ _

/-- **A run keeps what each of its calls keeps,** up to the first that fails. -/
theorem run_ends {call : σ → β → Outcome σ α} {P : σ → List β → Prop} {Q : σ → Prop}
    (hstep : ∀ s x xs, P s (x :: xs) → (call s x).Ends (P · xs) Q) {s : σ} {xs : List β}
    (h : P s xs) : (run call s xs).outcome.Ends (P · []) Q :=
  runFrom_ends hstep h 0 []

theorem runFrom_iff {call : σ → β → Outcome σ Unit} {P : σ → List β → Prop}
    (hstep : ∀ s x xs, P s (x :: xs) ↔ (call s x).result = .ok () ∧ P (call s x).state xs)
    (s : σ) (xs : List β) (n : Nat) (events : List Event) :
    P s xs ↔ (runFrom call n s events xs).outcome.result = .ok () ∧
      P (runFrom call n s events xs).outcome.state [] := by
  induction xs generalizing s n events with
  | nil => exact (and_iff_right rfl).symm
  | cons x xs ih =>
    rw [hstep, runFrom]
    rcases call s x with ⟨e | a, t, more⟩
    · exact iff_of_false (fun h ↦ nomatch h.1) fun h ↦ nomatch h.1
    · rw [and_iff_right rfl]
      exact ih t _ _

/-- **What is asked of an object and the calls to come, and is settled call by call, is settled by a
run:** the run must answer, and the same is asked of the object afterwards, with no calls to
come. -/
theorem run_iff {call : σ → β → Outcome σ Unit} {P : σ → List β → Prop}
    (hstep : ∀ s x xs, P s (x :: xs) ↔ (call s x).result = .ok () ∧ P (call s x).state xs)
    (s : σ) (xs : List β) :
    P s xs ↔ (run call s xs).outcome.result = .ok () ∧ P (run call s xs).outcome.state [] :=
  runFrom_iff hstep s xs 0 []

/-! ## Repeated calls -/

theorem gatherFrom_eq {call : σ → Outcome σ α} {P : σ → List α → Prop}
    (hstep : ∀ s a as, P s (a :: as) → (call s).result = .ok a ∧ P (call s).state as)
    {s : σ} {as : List α} (h : P s as) (answers : List α) (events : List Event) :
    (gatherFrom call as.length answers s events).1 = answers.reverse ++ as ∧
      (gatherFrom call as.length answers s events).2.failure = none ∧
      P (gatherFrom call as.length answers s events).2.state [] := by
  induction as generalizing s answers events with
  | nil => exact ⟨(List.append_nil _).symm, rfl, h⟩
  | cons a as ih =>
    rw [List.length_cons, gatherFrom]
    obtain ⟨hresult, hnext⟩ := hstep s a as h
    rcases heq : call s with ⟨result, t, more⟩
    rw [heq] at hresult hnext
    obtain rfl : result = .ok a := hresult
    obtain ⟨hanswers, hnone, hend⟩ := ih hnext (a :: answers) (more.reverse ++ events)
    refine ⟨?_, hnone, hend⟩
    rw [hanswers, List.reverse_cons, List.append_assoc, List.singleton_append]

theorem gather_eq {call : σ → Outcome σ α} {P : σ → List α → Prop}
    (hstep : ∀ s a as, P s (a :: as) → (call s).result = .ok a ∧ P (call s).state as)
    {s : σ} {as : List α} (h : P s as) :
    (gather call as.length s).1 = as ∧ (gather call as.length s).2.failure = none ∧
      P (gather call as.length s).2.state [] :=
  gatherFrom_eq hstep h [] []

theorem seekFrom_eq (verdict : α → Option γ) {call : σ → Outcome σ α} {P : σ → List α → Prop}
    (hstep : ∀ s a as, P s (a :: as) → (call s).result = .ok a ∧ P (call s).state as)
    {s : σ} {as : List α} (h : P s as) (events : List Event) :
    (seekFrom call verdict as.length s events).result = .ok (as.findSome? verdict) ∧
      ∃ rest, P (seekFrom call verdict as.length s events).state rest := by
  induction as generalizing s events with
  | nil => exact ⟨rfl, [], h⟩
  | cons a as ih =>
    rw [List.length_cons, seekFrom, List.findSome?_cons]
    obtain ⟨hresult, hnext⟩ := hstep s a as h
    rcases heq : call s with ⟨result, t, more⟩
    rw [heq] at hresult hnext
    obtain rfl : result = .ok a := hresult
    dsimp only
    cases verdict a with
    | some b => exact ⟨rfl, as, hnext⟩
    | none => exact ih hnext _

theorem seek_eq (verdict : α → Option γ) {call : σ → Outcome σ α} {P : σ → List α → Prop}
    (hstep : ∀ s a as, P s (a :: as) → (call s).result = .ok a ∧ P (call s).state as)
    {s : σ} {as : List α} (h : P s as) :
    (seek call verdict as.length s).result = .ok (as.findSome? verdict) ∧
      ∃ rest, P (seek call verdict as.length s).state rest :=
  seekFrom_eq verdict hstep h []

theorem gatherFrom_state {call : σ → Outcome σ α} (hstep : ∀ s, P s → P (call s).state) {s : σ}
    (h : P s) (n : Nat) (answers : List α) (events : List Event) :
    P (gatherFrom call n answers s events).2.state := by
  induction n generalizing s answers events with
  | zero => exact h
  | succ n ih =>
    rw [gatherFrom]
    have hnext := hstep s h
    rcases heq : call s with ⟨result, t, more⟩
    rw [heq] at hnext
    cases result with
    | error e => exact hnext
    | ok a => exact ih hnext _ _

theorem gather_state {call : σ → Outcome σ α} (hstep : ∀ s, P s → P (call s).state) {s : σ}
    (h : P s) (n : Nat) : P (gather call n s).2.state :=
  gatherFrom_state hstep h n [] []

theorem seekFrom_state (verdict : α → Option γ) {call : σ → Outcome σ α}
    (hstep : ∀ s, P s → P (call s).state) {s : σ} (h : P s) (n : Nat) (events : List Event) :
    P (seekFrom call verdict n s events).state := by
  induction n generalizing s events with
  | zero => exact h
  | succ n ih =>
    rw [seekFrom]
    have hnext := hstep s h
    rcases heq : call s with ⟨result, t, more⟩
    rw [heq] at hnext
    cases result with
    | error e => exact hnext
    | ok a =>
      dsimp only
      cases verdict a with
      | some b => exact hnext
      | none => exact ih hnext _

theorem seek_state (verdict : α → Option γ) {call : σ → Outcome σ α}
    (hstep : ∀ s, P s → P (call s).state) {s : σ} (h : P s) (n : Nat) :
    P (seek call verdict n s).state :=
  seekFrom_state verdict hstep h n []

/-! ## Calls on two objects -/

/-- Two calls come to the same result and leave their objects in the relation `R`. -/
structure Agree (o : Outcome σ α) (p : Outcome τ α) (R : σ → τ → Prop) : Prop where
  result : o.result = p.result
  state : R o.state p.state

section

variable {R : σ → τ → Prop}

theorem Agree.andThen_of_ok {o : Outcome σ α} {p : Outcome τ α} {next : σ → α → Outcome σ β}
    {next' : τ → α → Outcome τ β} (h : o.Agree p R)
    (hnext : ∀ a, o.result = .ok a → (next o.state a).Agree (next' p.state a) R) :
    (o.andThen next).Agree (p.andThen next') R := by
  rcases o with ⟨result, s, events⟩
  rcases p with ⟨result', t, events'⟩
  obtain rfl : result = result' := h.result
  cases result with
  | error e => exact ⟨rfl, h.state⟩
  | ok a =>
    rw [ok_andThen, ok_andThen]
    have hcalls := hnext a rfl
    exact ⟨hcalls.result, hcalls.state⟩

/-- **Calls that go together are followed by calls that do.** -/
theorem Agree.andThen {o : Outcome σ α} {p : Outcome τ α} {next : σ → α → Outcome σ β}
    {next' : τ → α → Outcome τ β} (h : o.Agree p R)
    (hnext : ∀ s t a, R s t → (next s a).Agree (next' t a) R) :
    (o.andThen next).Agree (p.andThen next') R :=
  h.andThen_of_ok fun a _ ↦ hnext _ _ a h.state

theorem result_map (f : α → β) (o : Outcome σ α) : (o.map f).result = o.result.map f := by
  rcases o with ⟨result, state, events⟩
  cases result <;> rfl

theorem result_map_eq_error {f : α → β} {o : Outcome σ α} {e : Error} :
    (o.map f).result = .error e ↔ o.result = .error e := by
  rcases o with ⟨result, state, events⟩
  rcases result with cause | a
  · show Except.error cause = .error e ↔ Except.error cause = .error e
    rw [Except.error.injEq, Except.error.injEq]
  · exact iff_of_false nofun nofun

theorem map_map (f : α → β) (g : β → γ) (o : Outcome σ α) : (o.map f).map g = o.map (g ∘ f) := by
  rcases o with ⟨result, state, events⟩
  cases result <;> rfl

theorem Agree.map {o : Outcome σ α} {p : Outcome τ α} (h : o.Agree p R) (f : α → β) :
    (o.map f).Agree (p.map f) R := by
  refine ⟨?_, h.state⟩
  rw [Outcome.map, Outcome.map, h.result]

theorem runFrom_agree {call : σ → β → Outcome σ α} {call' : τ → β → Outcome τ α}
    (hstep : ∀ s t x, R s t → (call s x).Agree (call' t x) R) {s : σ} {t : τ} (h : R s t)
    (xs : List β) (n : Nat) (events events' : List Event) :
    (runFrom call n s events xs).outcome.Agree (runFrom call' n t events' xs).outcome R := by
  induction xs generalizing s t n events events' with
  | nil => exact ⟨rfl, h⟩
  | cons x xs ih =>
    rw [runFrom, runFrom]
    have hcalls := hstep s t x h
    rcases heq : call s x with ⟨result, s', more⟩
    rcases heq' : call' t x with ⟨result', t', more'⟩
    rw [heq, heq'] at hcalls
    obtain rfl : result = result' := hcalls.result
    cases result with
    | error e => exact ⟨rfl, hcalls.state⟩
    | ok a => exact ih hcalls.state _ _ _

theorem run_agree {call : σ → β → Outcome σ α} {call' : τ → β → Outcome τ α}
    (hstep : ∀ s t x, R s t → (call s x).Agree (call' t x) R) {s : σ} {t : τ} (h : R s t)
    (xs : List β) : (run call s xs).outcome.Agree (run call' t xs).outcome R :=
  runFrom_agree hstep h xs 0 [] []

end

/-! ## Accounts of histories -/

/-- An account of a history. It is told the calls and whether they answered, and nothing else of the
object. -/
def account (step : σ → β → Outcome σ α) (next : τ → β → Bool → τ) : σ → τ → List β → τ
  | _, t, [] => t
  | s, t, c :: calls => account step next (step s c).state (next t c (step s c).result.isOk) calls

/-- **Object and account stay in step over a history** if every call keeps them so. -/
theorem account_after {step : σ → β → Outcome σ α} {next : τ → β → Bool → τ} {P : σ → τ → Prop}
    (hstep : ∀ s t c, P s t → P (step s c).state (next t c (step s c).result.isOk)) {s : σ} {t : τ}
    (h : P s t) (calls : List β) : P (after step s calls) (account step next s t calls) := by
  induction calls generalizing s t with
  | nil => exact h
  | cons c calls ih => exact ih (hstep s t c h)

/-- **The calls that answered are an account too:** what each call keeps, told whether it answered,
holds of the object and these calls. -/
theorem answered_after {step : σ → β → Outcome σ α} {P : σ → List β → Prop}
    (hok : ∀ s done c, P s done → (step s c).result.isOk = true → P (step s c).state (done ++ [c]))
    (herror : ∀ s done c cause, P s done → (step s c).result = .error cause →
      P (step s c).state done)
    {s : σ} {done : List β} (h : P s done) (calls : List β) :
    P (after step s calls) (done ++ answered step s calls) := by
  induction calls generalizing s done with
  | nil =>
    rw [answered, List.append_nil]
    exact h
  | cons c calls ih =>
    rw [answered]
    cases hresult : (step s c).result with
    | ok a =>
      have hnext := ih (hok s done c h (by rw [hresult]; rfl))
      rw [List.append_assoc, List.singleton_append] at hnext
      exact hnext
    | error cause => exact ih (herror s done c cause h hresult)

end Outcome

end Adjacency
