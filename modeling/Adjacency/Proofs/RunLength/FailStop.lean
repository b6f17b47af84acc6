import Adjacency.Proofs.RunLength.Replay

/-!
# Writes that fail

In a write pass a call fails because it comes at the wrong time, because its value is one that the
buffer rejects, or because the pending run cannot be written. The first two leave the buffer as it
was (`step_of_rejects`). The third may leave a part of the run behind the cursor, but nothing else
has changed (`step_error`), and it is final: from then on the one call that answers is a store of the
pending value, which only makes the run longer (`Stuck.step`, `Stuck.after`). So a buffer is never
read without a run that it has accepted.
-/

namespace Adjacency

namespace RunLength

namespace Buffer

/-- The buffer `c` is `b` with `n` more values in the pending run, except for bytes behind the
cursor. -/
structure Grown (b c : Buffer) (n : Nat) : Prop where
  eq : c = { b with bytes := c.bytes, pending := b.pending + n }
  same : b.SameBefore c.bytes

/-- The call is none of a write pass, or its value is none for the buffer. -/
def Rejects (b : Buffer) : Call → Prop
  | .store v => b.signedness = .unsigned ∧ v < 0
  | .rewind | .read => True
  | .flush | .toggle => False

variable {b c d : Buffer} {m n : Nat} {cause : Error} {call : Call} {vs : List Int64}

theorem rejects_store {v : Int64} :
    b.Rejects (.store v) ↔ b.signedness = .unsigned ∧ v < 0 := Iff.rfl

theorem not_rejects_store {v : Int64} :
    ¬ b.Rejects (.store v) ↔ (b.signedness = .unsigned → 0 ≤ v.toInt) := by
  rw [rejects_store, Int64.lt_iff_toInt_lt, not_and, Int.not_lt]
  rfl

theorem Grown.refl (b : Buffer) : b.Grown b 0 := ⟨rfl, SameBefore.refl b⟩

theorem Grown.trans (hbc : b.Grown c m) (hcd : c.Grown d n) : b.Grown d (m + n) := by
  obtain ⟨hc, hsame⟩ := hbc
  obtain ⟨hd, hsame'⟩ := hcd
  rw [hc] at hd hsame'
  refine ⟨?_, hsame'.size_eq.trans hsame.size_eq, ?_⟩
  · rw [← Nat.add_assoc]
    exact hd
  · intro i hi
    exact (hsame'.bytes_eq i hi).trans (hsame.bytes_eq i hi)

theorem Grown.mode (h : b.Grown c n) : c.mode = b.mode := by rw [h.eq]

theorem Grown.last (h : b.Grown c n) : c.last = b.last := by rw [h.eq]

theorem Grown.rejects_iff (h : b.Grown c n) : c.Rejects call ↔ b.Rejects call := by
  rw [h.eq]
  rfl

theorem Stuck.grown (h : b.Stuck) (hgrown : b.Grown c n) : c.Stuck := by
  obtain ⟨heq, hsame⟩ := hgrown
  rw [heq]
  have hlonger : { b with pending := b.pending + n }.Stuck :=
    ⟨h.mode, Nat.lt_of_lt_of_le h.pending_pos (Nat.le_add_right _ _),
      fun hflush ↦ h.not_canFlush (hflush.of_pending_le (Nat.le_add_right _ _))⟩
  exact hlonger.congr ⟨hsame.size_eq, hsame.bytes_eq⟩

theorem Accepted.not_rejects (h : b.Accepted vs) (hpending : 0 < b.pending) :
    ¬ b.Rejects (.store b.last) := by
  obtain ⟨rs, hw, -⟩ := h
  exact not_rejects_store.mpr (hw.nonneg hpending)

/-! ## One call -/

/-- **A flush fails because the pending run cannot be written,** and then bytes behind the cursor are
all that it has changed. -/
theorem flush_error (h : b.flush.result = .error cause) :
    b.Stuck ∧ Unwritable b.codec cause ∧ b.Grown b.flush.state 0 := by
  by_cases hidle : b.mode = .read ∨ b.pending = 0
  · rw [flush, if_pos hidle] at h
    cases h
  obtain ⟨hread, hzero⟩ := not_or.mp hidle
  have hmode : b.mode = .write := by
    rcases hcase : b.mode with _ | _
    · rfl
    · exact absurd hcase hread
  have hpending : 0 < b.pending := Nat.pos_of_ne_zero hzero
  have hfull : ¬ b.CanFlush := by
    intro hflush
    rw [flush_of_canFlush hmode hpending hflush] at h
    cases h
  obtain ⟨bytes, cause', events, hcause, hsame, heq⟩ := flush_of_not_canFlush hmode hpending hfull
  rw [heq] at h ⊢
  obtain rfl : cause' = cause := Except.error.inj h
  exact ⟨⟨hmode, hpending, hfull⟩, hcause, rfl, hsame⟩

theorem step_of_rejects (hmode : b.mode = .write) (h : b.Rejects call) :
    ∃ cause, b.step call = .fail b cause [] ∧ ¬ Unwritable b.codec cause := by
  have hread : b.mode ≠ .read := by rw [hmode]; decide
  rcases call with v | _ | _ | _ | _
  · refine ⟨.invalid .negativeForUnsigned, ?_, fun hcause ↦ by cases hcause⟩
    rw [step, store, if_neg hread, if_pos (rejects_store.mp h)]
    rfl
  · exact h.elim
  · exact h.elim
  · refine ⟨.sequencing .rewindWhileWriting, ?_, fun hcause ↦ by cases hcause⟩
    rw [step, rewind, if_neg hread]
    rfl
  · refine ⟨.sequencing .readWhileWriting, ?_, fun hcause ↦ by cases hcause⟩
    rw [step, read, if_pos hmode]
    rfl

/-- What a store does with a value that the buffer does not reject: it makes the pending run longer,
or it begins a new run once the pending one is flushed. -/
theorem store_of_not_rejects {v : Int64} (hmode : b.mode = .write) (h : ¬ b.Rejects (.store v)) :
    b.store v = if 0 < b.pending ∧ v = b.last then .done { b with pending := b.pending + 1 } ()
      else b.flush.andThen fun b _ ↦ .done { b with last := v, pending := 1 } () := by
  rw [store, if_neg (by rw [hmode]; decide),
    if_neg (mt rejects_store.mpr h)]

theorem result_andThen_done_eq_error {o : Outcome Buffer Unit} {f : Buffer → Buffer} :
    (o.andThen fun b _ ↦ .done (f b) ()).result = .error cause ↔ o.result = .error cause := by
  rcases o with ⟨e | u, s, events⟩
  · exact Iff.rfl
  · exact iff_of_false nofun nofun

theorem state_andThen_of_error {o : Outcome Buffer Unit} {next : Buffer → Unit → Outcome Buffer Unit}
    (h : o.result = .error cause) : (o.andThen next).state = o.state := by
  rcases o with ⟨e | u, s, events⟩
  · rfl
  · exact nomatch h

/-- **Any other call fails only because the pending run cannot be written,** and leaves everything
but bytes behind the cursor as it was. -/
theorem step_error (hmode : b.mode = .write) (haccept : ¬ b.Rejects call)
    (h : (b.step call).result = .error cause) :
    b.Stuck ∧ Unwritable b.codec cause ∧ b.Grown (b.step call).state 0 := by
  rcases call with v | _ | _ | _ | _
  · rw [step, Outcome.state_map]
    rw [step, Outcome.result_map_eq_error] at h
    rw [store_of_not_rejects hmode haccept] at h ⊢
    split at h
    · cases h
    · next hother =>
      rw [if_neg hother]
      have hflush := result_andThen_done_eq_error.mp h
      rw [state_andThen_of_error hflush]
      exact flush_error hflush
  · rw [step, Outcome.state_map]
    rw [step, Outcome.result_map_eq_error] at h
    exact flush_error h
  · rw [step, Outcome.state_map, toggle_of_write hmode]
    rw [step, Outcome.result_map_eq_error, toggle_of_write hmode] at h
    have hflush := result_andThen_done_eq_error.mp h
    rw [state_andThen_of_error hflush]
    exact flush_error hflush
  · exact absurd trivial haccept
  · exact absurd trivial haccept

theorem Stuck.step_other (h : b.Stuck) (haccept : ¬ b.Rejects call) (hother : call ≠ .store b.last) :
    ∃ cause, (b.step call).result = .error cause := by
  obtain ⟨cause, hflush⟩ := h.flush.1
  refine ⟨cause, ?_⟩
  rcases call with v | _ | _ | _ | _
  · rw [Buffer.step, Outcome.result_map_eq_error, store_of_not_rejects h.mode haccept,
      if_neg (fun hsame ↦ hother (congrArg _ hsame.2)), result_andThen_done_eq_error]
    exact hflush
  · rw [Buffer.step, Outcome.result_map_eq_error]
    exact hflush
  · rw [Buffer.step, Outcome.result_map_eq_error, toggle_of_write h.mode,
      result_andThen_done_eq_error]
    exact hflush
  · exact absurd trivial haccept
  · exact absurd trivial haccept

/-- **A stuck buffer only lets its pending run grow.** Every other call fails. -/
theorem Stuck.step (h : b.Stuck) (call : Call) :
    ((b.step call).result.isOk = true ∧ (call = .store b.last ∧ ¬ b.Rejects call) ∧
      b.Grown (b.step call).state 1) ∨
    ((b.step call).result.isOk = false ∧ ¬ (call = .store b.last ∧ ¬ b.Rejects call) ∧
      b.Grown (b.step call).state 0) := by
  by_cases hreject : b.Rejects call
  · obtain ⟨cause, heq, -⟩ := step_of_rejects h.mode hreject
    rw [heq]
    exact Or.inr ⟨rfl, fun hagain ↦ hagain.2 hreject, Grown.refl b⟩
  by_cases hagain : call = .store b.last
  · refine Or.inl ?_
    have heq : b.store b.last = .done { b with pending := b.pending + 1 } () := by
      rw [store_of_not_rejects h.mode (hagain ▸ hreject), if_pos ⟨h.pending_pos, rfl⟩]
    rw [hagain] at hreject ⊢
    rw [Buffer.step, Outcome.isOk_map, Outcome.state_map, heq]
    exact ⟨rfl, ⟨rfl, hreject⟩, rfl, SameBefore.refl b⟩
  · obtain ⟨cause, herror⟩ := h.step_other hreject hagain
    refine Or.inr ⟨by rw [herror]; rfl, fun h ↦ hagain h.1, ?_⟩
    exact (step_error h.mode hreject herror).2.2

/-! ## Histories -/

theorem Stuck.after (h : b.Stuck) (calls : List Call) :
    b.Grown (Outcome.after Buffer.step b calls)
      (Outcome.answered Buffer.step b calls).length := by
  have hstart : b.Grown b ([] : List Call).length := Grown.refl b
  refine Outcome.answered_after (P := fun c done ↦ b.Grown c (List.length done)) ?_ ?_ hstart calls
  · intro c done call hgrown hok
    rcases (h.grown hgrown).step call with ⟨-, -, hnext⟩ | ⟨herror, -⟩
    · rw [List.length_append]
      exact hgrown.trans hnext
    · rw [hok] at herror
      exact nomatch herror
  · intro c done call cause hgrown herror
    rcases (h.grown hgrown).step call with ⟨hok, -⟩ | ⟨-, -, hnext⟩
    · rw [herror] at hok
      exact nomatch hok
    · exact hgrown.trans hnext

/-- **A failed write changes nothing that was written, and a run that cannot be written ends all
writing.** Take any history of calls on a buffer of any bytes that leaves it in a write pass, and a
call that fails then. Bytes behind the cursor are all that the call has changed. Unless the call was
rejected, its cause is that the pending run cannot be written. Then whatever is called afterwards,
the buffer stays in its write pass and a call answers exactly if it is a store of the value that is
pending; bytes behind the cursor and the number of values that are pending are all that changes. -/
theorem failure_after (bytes : Array UInt8) (codec : Codec) (signedness : Signedness)
    (before : List Call) (call : Call) (cause : Error) :
    let b := Outcome.after step (ofBytes bytes codec signedness) before
    let c := (b.step call).state
    b.mode = .write → (b.step call).result = .error cause →
      (c = { b with bytes := c.bytes } ∧ b.SameBefore c.bytes) ∧
      (Unwritable b.codec cause ∨ c = b ∧ b.Rejects call) ∧
      (Unwritable b.codec cause → ∀ more,
        let d := Outcome.after step c more
        let n := (Outcome.answered step c more).length
        (d = { b with bytes := d.bytes, pending := b.pending + n } ∧ b.SameBefore d.bytes) ∧
          d.mode = .write ∧ ∀ next, (d.step next).result.isOk = true ↔ next = .store b.last) := by
  intro b c hmode herror
  by_cases hreject : b.Rejects call
  · obtain ⟨cause', heq, hcause⟩ := step_of_rejects hmode hreject
    have hsame : c = b := congrArg Outcome.state heq
    obtain rfl : cause' = cause := by
      rw [heq] at herror
      exact Except.error.inj herror
    rw [hsame]
    exact ⟨⟨rfl, SameBefore.refl b⟩, Or.inr ⟨rfl, hreject⟩, fun h ↦ absurd h hcause⟩
  obtain ⟨hstuck, hcause, hsame⟩ := step_error hmode hreject herror
  have hagain : ¬ b.Rejects (.store b.last) := by
    obtain ⟨vs, -, haccepted⟩ := (plays_after bytes codec signedness before).accepted hmode
    exact haccepted.not_rejects hstuck.pending_pos
  refine ⟨⟨hsame.eq, hsame.same⟩, Or.inl hcause, ?_⟩
  intro _ more d n
  have hgrown : b.Grown d n := by
    have hmore := hsame.trans ((hstuck.grown hsame).after more)
    rw [Nat.zero_add] at hmore
    exact hmore
  refine ⟨⟨hgrown.eq, hgrown.same⟩, hgrown.mode.trans hmode, ?_⟩
  intro next
  have hnext := (hstuck.grown hgrown).step next
  rw [hgrown.last, hgrown.rejects_iff] at hnext
  rcases hnext with ⟨hok, hstore, -⟩ | ⟨herror, hother, -⟩
  · exact iff_of_true hok hstore.1
  · refine iff_of_false ?_ ?_
    · rw [herror]
      exact Bool.false_ne_true
    · rintro rfl
      exact hother ⟨rfl, hagain⟩

/-- A run of two values that take two bytes each does not fit behind the header of six bytes. It
cannot be dropped, and the pass cannot be ended. -/
theorem failure_after_narrow :
    let b := Outcome.after step (ofBytes (Array.replicate 6 0) .base128 .signed)
      [.store 1000, .store 1000]
    let c := (b.step .toggle).state
    b.mode = .write ∧
      (b.step .toggle).result = .error (.capacityExceeded .varintDestination 6 8) ∧
      ∀ more, let d := Outcome.after step c more
        d.mode = .write ∧ ∀ next, (d.step next).result.isOk = true ↔ next = .store 1000 := by
  intro b c
  have hmode : b.mode = .write := by decide +kernel
  have herror : (b.step .toggle).result = .error (.capacityExceeded .varintDestination 6 8) := by
    decide +kernel
  refine ⟨hmode, herror, ?_⟩
  intro more d
  obtain ⟨-, -, hfinal⟩ := failure_after (Array.replicate 6 0) .base128 .signed
    [.store 1000, .store 1000] .toggle _ hmode herror
  have hcodec : b.codec = .base128 := by decide +kernel
  obtain ⟨-, hpass, hnext⟩ := hfinal (by rw [hcodec]; exact .full _ _) more
  have hlast : b.last = 1000 := by decide +kernel
  exact ⟨hpass, fun next ↦ hlast ▸ hnext next⟩

end Buffer

end RunLength

end Adjacency
