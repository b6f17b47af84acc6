import Adjacency.Proofs.RunLength.Reading
import Adjacency.Proofs.Runs
import Adjacency.RunLength.Call

/-!
# A buffer replays what it accepted

The calls made on a buffer, with whether they answered, tell what the buffer must hold: the values
accepted in the current write pass, or the values of the last one and how many of them were read
since. A *tape* is that account, kept without looking at the buffer. Every call keeps buffer and
tape in step (`Plays.step`), so the buffer reads what the tape says, whatever the history.
-/

namespace Adjacency

namespace RunLength

/-- What the history of a buffer says about it. -/
inductive Tape
  /-- A write pass, and the values accepted in it. -/
  | writing (accepted : List Int64)
  /-- A read pass, the values accepted in the write pass before, and how many of them were read
  since the pass or the last rewind began. -/
  | reading (written : List Int64) (reads : Nat)

/-- The tape after a call that answered or failed. -/
def Tape.next (t : Tape) (c : Call) (answered : Bool) : Tape :=
  match t, c, answered with
  | .writing vs, .store v, true => .writing (vs ++ [v])
  | .writing vs, .toggle, true => .reading vs 0
  | .reading _ _, .toggle, true => .writing []
  | .reading vs _, .rewind, true => .reading vs 0
  | .reading vs n, .read, true => .reading vs (n + 1)
  | t, _, _ => t

namespace Buffer

/-- The buffer holds what the tape says. -/
def Plays (b : Buffer) : Tape → Prop
  | .writing vs => b.Accepted vs
  | .reading vs n => n ≤ vs.length ∧ b.Replaying vs (vs.drop n)

variable {b : Buffer} {t : Tape} {vs rest : List Int64}

theorem Replaying.read_of_some {v : Int64} {n : Nat} (h : b.Replaying vs (vs.drop n))
    (hv : vs[n]? = some v) :
    ∃ c : Buffer, b.read = .done c v ∧ c.Replaying vs (vs.drop (n + 1)) := by
  obtain ⟨hn, rfl⟩ := List.getElem?_eq_some_iff.mp hv
  rw [List.drop_eq_getElem_cons hn] at h
  exact h.read_cons

theorem Replaying.read_of_none {n : Nat} (h : b.Replaying vs (vs.drop n)) (hnone : vs[n]? = none) :
    b.read = .fail b (.decode .pastEnd) [] := by
  rw [List.drop_eq_nil_of_le (List.getElem?_eq_none_iff.mp hnone)] at h
  exact h.read_nil

theorem Accepted.step (h : b.Accepted vs) (c : Call) :
    (b.step c).state.Plays ((Tape.writing vs).next c (b.step c).result.isOk) := by
  have hmode : b.mode = .write := h.mode
  cases c with
  | store v =>
    rw [Buffer.step, Outcome.state_map, Outcome.isOk_map]
    rcases h.store v with ⟨hok, hmore⟩ | ⟨cause, herror, hkept, -⟩
    · rw [hok]
      exact hmore
    · rw [herror]
      exact hkept
  | flush =>
    rw [Buffer.step, Outcome.state_map]
    rcases h.flush with ⟨c, rs, heq, hw, hzero, rfl, -⟩ | ⟨-, bytes, cause, events, -, heq, hkept⟩
    · rw [heq]
      refine ⟨rs, hw, ?_⟩
      show _ = Streak.valuesAll rs ++ List.replicate c.pending c.last
      rw [hzero, List.replicate_zero, List.append_nil]
    · rw [heq]
      exact hkept
  | toggle =>
    rw [Buffer.step, Outcome.state_map, Outcome.isOk_map]
    rcases h.toggle with ⟨hok, hreplay⟩ | ⟨cause, herror, hkept, -⟩
    · rw [hok]
      exact ⟨Nat.zero_le _, hreplay⟩
    · rw [herror]
      exact hkept
  | rewind =>
    have heq : b.rewind = .fail b (.sequencing .rewindWhileWriting) [] :=
      if_neg (by rw [hmode]; exact nofun)
    rw [Buffer.step, Outcome.state_map, heq]
    exact h
  | read =>
    have heq : b.read = .fail b (.sequencing .readWhileWriting) [] := if_pos hmode
    rw [Buffer.step, Outcome.state_map, heq]
    exact h

theorem Replaying.step {n : Nat} (hn : n ≤ vs.length) (h : b.Replaying vs (vs.drop n)) (c : Call) :
    (b.step c).state.Plays ((Tape.reading vs n).next c (b.step c).result.isOk) := by
  have hmode : b.mode = .read := h.mode
  cases c with
  | store v =>
    have heq : b.store v = .fail b (.sequencing .storeWhileReading) [] := if_pos hmode
    rw [Buffer.step, Outcome.state_map, heq]
    exact ⟨hn, h⟩
  | flush =>
    have heq : b.flush = .done b () := if_pos (Or.inl hmode)
    rw [Buffer.step, Outcome.state_map, heq]
    exact ⟨hn, h⟩
  | toggle =>
    obtain ⟨hok, hfresh⟩ := h.toggle
    rw [Buffer.step, Outcome.state_map, Outcome.isOk_map, hok]
    exact hfresh
  | rewind =>
    obtain ⟨hok, hagain⟩ := h.rewind
    rw [Buffer.step, Outcome.state_map, Outcome.isOk_map, hok]
    exact ⟨Nat.zero_le _, hagain⟩
  | read =>
    rw [Buffer.step, Outcome.state_map, Outcome.isOk_map]
    cases hv : vs[n]? with
    | some v =>
      obtain ⟨c, heq, hnext⟩ := h.read_of_some hv
      rw [heq]
      exact ⟨(List.getElem?_eq_some_iff.mp hv).1, hnext⟩
    | none =>
      rw [h.read_of_none hv]
      exact ⟨hn, h⟩

/-- **Every call keeps buffer and tape in step.** -/
theorem Plays.step (h : b.Plays t) (c : Call) :
    (b.step c).state.Plays (t.next c (b.step c).result.isOk) := by
  cases t with
  | writing vs => exact Accepted.step h c
  | reading vs n => exact Replaying.step h.1 h.2 c

theorem Plays.mode_eq_read_iff (h : b.Plays t) : b.mode = .read ↔ ∃ vs n, t = .reading vs n := by
  cases t with
  | writing vs =>
    have hmode : b.mode = .write := Accepted.mode h
    refine iff_of_false ?_ ?_
    · rw [hmode]
      exact nofun
    · rintro ⟨vs, n, heq⟩
      exact nomatch heq
  | reading vs n => exact iff_of_true h.2.mode ⟨vs, n, rfl⟩

theorem Plays.accepted (h : b.Plays t) (hmode : b.mode = .write) :
    ∃ vs, t = .writing vs ∧ b.Accepted vs := by
  cases t with
  | writing vs => exact ⟨vs, rfl, h⟩
  | reading vs n =>
    have hread : b.mode = .read := h.2.mode
    rw [hmode] at hread
    exact nomatch hread

/-- Buffer and tape are in step after any history of a buffer of any bytes. -/
theorem plays_after (bytes : Array UInt8) (codec : Codec) (signedness : Signedness)
    (calls : List Call) :
    (Outcome.after step (ofBytes bytes codec signedness) calls).Plays
      (Outcome.account step Tape.next (ofBytes bytes codec signedness) (.writing []) calls) := by
  have hfresh : (ofBytes bytes codec signedness).Plays (.writing []) :=
    accepted_ofBytes bytes codec signedness
  exact Outcome.account_after (P := Plays) (fun _ _ c h ↦ Plays.step h c) hfresh calls

/-- **A buffer replays exactly what it accepted.** After any history of calls on a buffer of any
bytes, the buffer is being read exactly if the tape is. Then it tells the number of values on the
tape, a read gives the next of them, and when none is left a read fails and changes nothing. -/
theorem read_after (bytes : Array UInt8) (codec : Codec) (signedness : Signedness)
    (calls : List Call) :
    let b := Outcome.after step (ofBytes bytes codec signedness) calls
    let t := Outcome.account step Tape.next (ofBytes bytes codec signedness) (.writing []) calls
    (b.mode = .read ↔ ∃ vs n, t = .reading vs n) ∧
      ∀ vs n, t = .reading vs n → b.stored = vs.length ∧ n ≤ vs.length ∧
        (∀ v, vs[n]? = some v → b.read.result = .ok v) ∧
        (vs[n]? = none → b.read = .fail b (.decode .pastEnd) []) := by
  intro b t
  have hplays : b.Plays t := plays_after bytes codec signedness calls
  refine ⟨hplays.mode_eq_read_iff, ?_⟩
  intro vs n ht
  rw [ht] at hplays
  obtain ⟨hn, hreplay⟩ := hplays
  refine ⟨hreplay.stored_eq, hn, ?_, hreplay.read_of_none⟩
  intro v hv
  obtain ⟨c, heq, -⟩ := hreplay.read_of_some hv
  rw [heq]
  rfl

end Buffer

end RunLength

end Adjacency
