import Adjacency.Event

/-!
# Outcomes of calls

A call on an object answers or fails, leaves the object in some state, and makes events known. The
state is part of the outcome in either case: a call that fails halfway leaves what it did before.
Calls are joined by `andThen`, which stops at the first failure and keeps the events of both.
-/

namespace Adjacency

instance instDecidableEqExcept {ε α : Type} [DecidableEq ε] [DecidableEq α] : DecidableEq (Except ε α)
  | .ok a, .ok b => decidable_of_iff (a = b) ⟨congrArg _, Except.ok.inj⟩
  | .error a, .error b => decidable_of_iff (a = b) ⟨congrArg _, Except.error.inj⟩
  | .ok _, .error _ => .isFalse nofun
  | .error _, .ok _ => .isFalse nofun

/-- What comes of a call on an object of type `σ` that answers with an `α`. -/
structure Outcome (σ α : Type) where
  /-- The answer, or the cause of the failure. -/
  result : Except Error α
  /-- The object after the call. -/
  state : σ
  /-- What happened during the call, in order. -/
  events : List Event

namespace Outcome

variable {σ τ α β : Type}

/-- The call answers and nothing else is made known. -/
def done (state : σ) (answer : α) : Outcome σ α := ⟨.ok answer, state, []⟩

/-- The call fails. -/
def fail (state : σ) (cause : Error) (events : List Event) : Outcome σ α :=
  ⟨.error cause, state, events⟩

/-- Goes on after an answer; a failure is final. -/
@[inline] def andThen (o : Outcome σ α) (next : σ → α → Outcome σ β) : Outcome σ β :=
  match o with
  | ⟨.error e, state, events⟩ => ⟨.error e, state, events⟩
  | ⟨.ok a, state, events⟩ =>
    match next state a with
    | ⟨result, state, more⟩ => ⟨result, state, events ++ more⟩

/-- Adds events behind those of the call. -/
def also (o : Outcome σ α) (events : List Event) : Outcome σ α :=
  { o with events := o.events ++ events }

/-- The same outcome, seen on a larger object. -/
@[inline] def onto (o : Outcome σ α) (f : σ → τ) : Outcome τ α :=
  ⟨o.result, f o.state, o.events⟩

@[simp] theorem done_andThen (s : σ) (a : α) (next : σ → α → Outcome σ β) :
    (done s a).andThen next = next s a := by
  simp [done, andThen]

theorem ok_andThen (s : σ) (a : α) (events : List Event) (next : σ → α → Outcome σ β) :
    (⟨.ok a, s, events⟩ : Outcome σ α).andThen next
      = ⟨(next s a).result, (next s a).state, events ++ (next s a).events⟩ := rfl

@[simp] theorem fail_andThen (s : σ) (e : Error) (events : List Event)
    (next : σ → α → Outcome σ β) : (fail s e events).andThen next = fail s e events := rfl

/-- The same outcome with the answer in another form. -/
@[inline] def map (f : α → β) (o : Outcome σ α) : Outcome σ β :=
  ⟨match o.result with
    | .ok a => .ok (f a)
    | .error e => .error e, o.state, o.events⟩

@[simp] theorem state_map (f : α → β) (o : Outcome σ α) : (o.map f).state = o.state := rfl

@[simp] theorem isOk_map (f : α → β) (o : Outcome σ α) :
    (o.map f).result.isOk = o.result.isOk := by
  rcases o with ⟨result, state, events⟩
  cases result <;> rfl

/-! ## Histories

A history is a list of calls made one after another, whether or not they succeed. -/

/-- The object after a history. -/
def after (step : σ → β → Outcome σ α) (s : σ) (calls : List β) : σ :=
  calls.foldl (fun s c ↦ (step s c).state) s

/-- What each call of a history came to. -/
def results (step : σ → β → Outcome σ α) : σ → List β → List (Except Error α)
  | _, [] => []
  | s, c :: calls => (step s c).result :: results step (step s c).state calls

/-- The calls of a history that answered. -/
def answered (step : σ → β → Outcome σ α) : σ → List β → List β
  | _, [] => []
  | s, c :: calls =>
    match (step s c).result with
    | .ok _ => c :: answered step (step s c).state calls
    | .error _ => answered step (step s c).state calls

/-- Everything that happened during a history. -/
def allEvents (step : σ → β → Outcome σ α) : σ → List β → List Event
  | _, [] => []
  | s, c :: calls => (step s c).events ++ allEvents step (step s c).state calls

theorem after_append (step : σ → β → Outcome σ α) (s : σ) (calls more : List β) :
    after step s (calls ++ more) = after step (after step s calls) more :=
  List.foldl_append

theorem results_append (step : σ → β → Outcome σ α) (s : σ) (calls more : List β) :
    results step s (calls ++ more)
      = results step s calls ++ results step (after step s calls) more := by
  induction calls generalizing s with
  | nil => rfl
  | cons c calls ih => simp [results, after, ih]

theorem allEvents_append (step : σ → β → Outcome σ α) (s : σ) (calls more : List β) :
    allEvents step s (calls ++ more)
      = allEvents step s calls ++ allEvents step (after step s calls) more := by
  induction calls generalizing s with
  | nil => rfl
  | cons c calls ih => simp [allEvents, after, ih]

/-! ## Runs

A run is a list of calls of which the first that fails is the last. -/

/-- What comes of calls made in order until one fails. -/
structure Run (σ : Type) where
  /-- How many calls answered. -/
  succeeded : Nat
  /-- The cause of the failure that ended the run, if one did. -/
  failure : Option Error
  /-- The object after the last call. -/
  state : σ
  /-- What happened during all calls, in order. -/
  events : List Event

/-- A run as one call, which answers if every call did. -/
def Run.outcome (r : Run σ) : Outcome σ Unit :=
  match r.failure with
  | none => ⟨.ok (), r.state, r.events⟩
  | some e => ⟨.error e, r.state, r.events⟩

/-- Makes the remaining calls of a run; `events` has the latest event first. -/
def runFrom (call : σ → β → Outcome σ α) : (succeeded : Nat) → σ → (events : List Event) →
    List β → Run σ
  | succeeded, s, events, [] => ⟨succeeded, none, s, events.reverse⟩
  | succeeded, s, events, x :: xs =>
    match call s x with
    | ⟨.error e, s, more⟩ => ⟨succeeded, some e, s, (more.reverse ++ events).reverse⟩
    | ⟨.ok _, s, more⟩ => runFrom call (succeeded + 1) s (more.reverse ++ events) xs

/-- Makes calls in order until one fails. -/
def run (call : σ → β → Outcome σ α) (s : σ) (xs : List β) : Run σ := runFrom call 0 s [] xs

/-- Repeats a call up to `n` times until it fails, gathering the answers; `answers` has the latest
answer first. -/
def gatherFrom (call : σ → Outcome σ α) :
    (n : Nat) → (answers : List α) → σ → (events : List Event) → List α × Run σ
  | 0, answers, s, events => (answers.reverse, ⟨answers.length, none, s, events.reverse⟩)
  | n + 1, answers, s, events =>
    match call s with
    | ⟨.error e, s, more⟩ =>
      (answers.reverse, ⟨answers.length, some e, s, (more.reverse ++ events).reverse⟩)
    | ⟨.ok a, s, more⟩ => gatherFrom call n (a :: answers) s (more.reverse ++ events)

/-- Repeats a call up to `n` times until it fails, gathering the answers. -/
def gather (call : σ → Outcome σ α) (n : Nat) (s : σ) : List α × Run σ := gatherFrom call n [] s []

/-- Repeats a call up to `n` times until an answer settles the matter or it fails. -/
def seekFrom (call : σ → Outcome σ α) (verdict : α → Option β) : (n : Nat) → σ →
    (events : List Event) → Outcome σ (Option β)
  | 0, s, events => ⟨.ok none, s, events.reverse⟩
  | n + 1, s, events =>
    match call s with
    | ⟨.error e, s, more⟩ => ⟨.error e, s, (more.reverse ++ events).reverse⟩
    | ⟨.ok a, s, more⟩ =>
      match verdict a with
      | some b => ⟨.ok (some b), s, (more.reverse ++ events).reverse⟩
      | none => seekFrom call verdict n s (more.reverse ++ events)

/-- Repeats a call up to `n` times until an answer settles the matter or it fails. -/
def seek (call : σ → Outcome σ α) (verdict : α → Option β) (n : Nat) (s : σ) :
    Outcome σ (Option β) :=
  seekFrom call verdict n s []

end Outcome

end Adjacency
