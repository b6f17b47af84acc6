import Adjacency.Proofs.RunLength.Replay

/-!
# The counters of a buffer

A buffer counts the values and the bytes of its write pass, and the counts outlive the pass. They
are told to users, so they have to agree with what happened whatever the history, failed calls
included: a run that does not fit takes the cursor and the count of bytes back, and a pass that
begins sets some counters and not the others. What agrees is told by the tape (`Tallies`).

Nothing is ever written in front of the cursor (`sameBefore_step`), and the cursor is never in front
of the header. So the header outlives every history, with the size that it declares.
-/

namespace Adjacency

namespace RunLength

open Bytes (StandsAt standsAt_append getElem?_overwrite_of_outside getElem?_window)

/-- The number of values that numbers stand for: a run is a marker, its count and its value. -/
def valuesIn : List Int → Nat
  | [] => 0
  | raw :: rest =>
    if raw = marker then
      match rest with
      | count :: _ :: rest => (back count).toNat + valuesIn rest
      | _ => 0
    else valuesIn rest + 1

theorem valuesIn_cons_of_ne {raw : Int} (h : raw ≠ marker) (rest : List Int) :
    valuesIn (raw :: rest) = valuesIn rest + 1 := by
  rw [valuesIn.eq_def]
  exact if_neg h

theorem valuesIn_marker (count v : Int) (rest : List Int) :
    valuesIn (marker :: count :: v :: rest) = (back count).toNat + valuesIn rest := by
  rw [valuesIn.eq_def]
  exact if_pos rfl

theorem valuesIn_raws_append {s : Signedness} {r : Streak} (h : r.Valid s) (rest : List Int) :
    valuesIn (r.raws ++ rest) = r.values.length + valuesIn rest := by
  have hpos := h.count_pos
  rw [Streak.raws, Streak.length_values]
  split
  · next hone =>
    rw [List.singleton_append, valuesIn_cons_of_ne (away_ne_marker _)]
    omega
  · rw [List.cons_append, List.cons_append, List.cons_append, List.nil_append, valuesIn_marker,
      back_away, Int.toNat_natCast]

theorem valuesIn_flatMap_raws {s : Signedness} {rs : List Streak} (h : ∀ r ∈ rs, r.Valid s) :
    valuesIn (rs.flatMap Streak.raws) = (Streak.valuesAll rs).length := by
  induction rs with
  | nil => rfl
  | cons r rs ih =>
    rw [List.flatMap_cons, valuesIn_raws_append (h r List.mem_cons_self),
      ih fun r' hr' ↦ h r' (List.mem_cons_of_mem r hr'), Streak.valuesAll_cons, List.length_append]

theorem Streak.codeAll_eq_codes (c : Codec) (s : Signedness) (rs : List Streak) :
    codeAll c s rs = c.codes s (rs.flatMap raws) := by
  induction rs with
  | nil => rfl
  | cons r rs ih => rw [codeAll_cons, ih, List.flatMap_cons, Codec.codes_append, code]

namespace Buffer

variable {α β : Type} {b : Buffer} {t : Tape} {vs rest : List Int64} {before todo : List Streak}
  {bytes : Array UInt8}

/-! ## Calls that write nothing -/

theorem bytes_andThen {o : Outcome Buffer α} {next : Buffer → α → Outcome Buffer β}
    (h : ∀ c a, (next c a).state.bytes = c.bytes) :
    (o.andThen next).state.bytes = o.state.bytes := by
  rcases o with ⟨result, c, events⟩
  cases result with
  | error e => rfl
  | ok a => exact h c a

theorem bytes_readRaw (b : Buffer) : b.readRaw.state.bytes = b.bytes := by
  rw [readRaw]
  split
  · rfl
  · split
    · rfl
    · split <;> rfl

theorem bytes_readBiased (b : Buffer) : b.readBiased.state.bytes = b.bytes := by
  refine (bytes_andThen fun c raw ↦ ?_).trans (bytes_readRaw b)
  split <;> rfl

theorem bytes_readRun (b : Buffer) : b.readRun.state.bytes = b.bytes := by
  refine (bytes_andThen fun c raw ↦ ?_).trans (bytes_readRaw b)
  split
  · refine (bytes_andThen fun d count ↦ ?_).trans (bytes_readBiased c)
    split
    · rfl
    · refine bytes_andThen fun e _ ↦ ?_
      exact (bytes_andThen fun _ _ ↦ rfl).trans (bytes_readBiased e)
  · rfl

theorem bytes_read (b : Buffer) : b.read.state.bytes = b.bytes := by
  rw [read]
  split
  · rfl
  · split
    · exact (bytes_andThen fun _ _ ↦ rfl).trans (bytes_readRun b)
    · rfl

theorem bytes_rewind (b : Buffer) : b.rewind.state.bytes = b.bytes := by
  rw [rewind]
  split <;> rfl

/-! ## Calls that write -/

theorem sameBefore_flush (b : Buffer) : b.SameBefore b.flush.state.bytes := by
  by_cases hidle : b.mode = .read ∨ b.pending = 0
  · rw [flush, if_pos hidle]
    exact SameBefore.refl b
  · have hmode : b.mode = .write := by
      cases h : b.mode with
      | write => rfl
      | read => exact absurd (Or.inl h) hidle
    have hpending : 0 < b.pending := Nat.pos_of_ne_zero fun h ↦ hidle (Or.inr h)
    by_cases hflush : b.CanFlush
    · rw [flush_of_canFlush hmode hpending hflush]
      exact ⟨Bytes.size_overwrite _ _ _, fun i hi ↦ getElem?_overwrite_of_outside (Or.inl hi)⟩
    · obtain ⟨bytes, cause, events, -, hsame, heq⟩ := flush_of_not_canFlush hmode hpending hflush
      rw [heq]
      exact hsame

theorem sameBefore_store (b : Buffer) (v : Int64) : b.SameBefore (b.store v).state.bytes := by
  rw [store]
  split
  · exact SameBefore.refl b
  · split
    · exact SameBefore.refl b
    · split
      · exact SameBefore.refl b
      · rw [bytes_andThen fun _ _ ↦ rfl]
        exact sameBefore_flush b

theorem sameBefore_toggle (b : Buffer) : b.SameBefore b.toggle.state.bytes := by
  rw [toggle]
  split
  · rw [bytes_andThen fun _ _ ↦ rfl]
    exact sameBefore_flush b
  · exact SameBefore.refl b

/-- **No call changes a byte in front of the cursor,** or the length of the buffer. -/
theorem sameBefore_step (b : Buffer) (c : Call) : b.SameBefore (b.step c).state.bytes := by
  cases c with
  | store v => exact sameBefore_store b v
  | flush => exact sameBefore_flush b
  | toggle => exact sameBefore_toggle b
  | rewind =>
    rw [step, Outcome.state_map, bytes_rewind]
    exact SameBefore.refl b
  | read =>
    rw [step, Outcome.state_map, bytes_read]
    exact SameBefore.refl b

/-! ## The header -/

theorem Plays.headerLen_le_pos (h : b.Plays t) : headerLen ≤ b.pos := by
  cases t with
  | writing vs =>
    obtain ⟨rs, hw, -⟩ := h
    exact hw.pos_eq ▸ Nat.le_add_right _ _
  | reading vs n =>
    obtain ⟨-, before, todo, hreading, -⟩ := h
    exact hreading.pos_eq ▸ Nat.le_add_right _ _

/-- The buffer is as long as `bytes` and has the same header. -/
structure SameHeader (b : Buffer) (bytes : Array UInt8) : Prop where
  size_eq : b.bytes.size = bytes.size
  bytes_eq : ∀ i, i < headerLen → b.bytes[i]? = bytes[i]?

theorem SameHeader.step (h : b.SameHeader bytes) (hpos : headerLen ≤ b.pos) (c : Call) :
    (b.step c).state.SameHeader bytes := by
  have hsame := sameBefore_step b c
  exact ⟨hsame.size_eq.trans h.size_eq,
    fun i hi ↦ (hsame.bytes_eq i (Nat.lt_of_lt_of_le hi hpos)).trans (h.bytes_eq i hi)⟩

theorem SameHeader.declaredSize_eq (h : b.SameHeader bytes) (codec : Codec)
    (signedness : Signedness) :
    b.declaredSize = (ofBytes bytes codec signedness).declaredSize := by
  have hwindow : Bytes.window b.bytes 0 headerLen headerLen
      = Bytes.window bytes 0 headerLen headerLen := by
    refine List.ext_getElem? fun i ↦ ?_
    rw [getElem?_window, getElem?_window, Nat.zero_add]
    split
    · next hi => exact h.bytes_eq i hi.1
    · rfl
  exact congrArg BigEndian.get32? hwindow

/-! ## The counters -/

/-- The counters of a buffer agree with its tape. In a read pass the values that were read, those
that are pending and those whose codes lie in front of the cursor are all that were written. -/
def Tallies (b : Buffer) : Tape → Prop
  | .writing vs =>
    b.mode = .write ∧ b.pos = headerLen + b.used ∧ b.stored + b.pending = vs.length
  | .reading vs n =>
    b.mode = .read ∧ b.stop = headerLen + b.used ∧ headerLen ≤ b.pos ∧ b.pos ≤ b.stop ∧
      b.stored = vs.length ∧
      ∃ raws, b.codec.getAll b.signedness b.bytes b.pos b.stop = .ok raws ∧
        n + (b.pending + valuesIn raws) = b.stored

theorem Accepted.tallies (h : b.Accepted vs) : b.Tallies (.writing vs) := by
  obtain ⟨rs, hw, rfl⟩ := h
  refine ⟨hw.mode, ?_, ?_⟩
  · rw [hw.pos_eq, hw.used_eq]
  · rw [List.length_append, ← hw.stored_eq, Streak.length_values]
    rfl

/-- The runs still to come are what the bytes between the cursor and the end are read as. -/
theorem Reading.getAll_eq (h : b.Reading before todo) :
    b.codec.getAll b.signedness b.bytes b.pos b.stop = .ok (todo.flatMap Streak.raws) := by
  have hstands := h.standsAt
  have hstop := h.stop_eq
  rw [Streak.codeAll_append, standsAt_append, ← h.pos_eq, Streak.codeAll_eq_codes _ _ todo]
    at hstands
  rw [Streak.codeAll_append, List.length_append, ← Nat.add_assoc, ← h.pos_eq,
    Streak.codeAll_eq_codes _ _ todo] at hstop
  rw [hstop]
  refine b.codec.getAll_of_standsAt ?_ hstands.2
  intro raw hraw
  obtain ⟨r, hr, hraw⟩ := List.mem_flatMap.mp hraw
  exact ((h.valid r (List.mem_append_right _ hr)).admits raw hraw).1

theorem Replaying.tallies {n : Nat} (hn : n ≤ vs.length) (h : b.Replaying vs (vs.drop n)) :
    b.Tallies (.reading vs n) := by
  have hstored := h.stored_eq
  obtain ⟨before, todo, hreading, -, hrest⟩ := h
  have hcome : vs.length - n = b.pending + (Streak.valuesAll todo).length := by
    rw [← List.length_drop, hrest, List.length_append, Streak.length_values]
    rfl
  have hvalid : ∀ r ∈ todo, r.Valid b.signedness := fun r hr ↦
    hreading.valid r (List.mem_append_right _ hr)
  refine ⟨hreading.mode, ?_, ?_, ?_, hstored, _, hreading.getAll_eq, ?_⟩
  · rw [hreading.stop_eq, hreading.used_eq]
  · rw [hreading.pos_eq]
    exact Nat.le_add_right _ _
  · rw [hreading.pos_eq, hreading.stop_eq, Streak.codeAll_append, List.length_append]
    omega
  · rw [valuesIn_flatMap_raws hvalid, hstored]
    omega

theorem Plays.tallies (h : b.Plays t) : b.Tallies t := by
  cases t with
  | writing vs => exact Accepted.tallies h
  | reading vs n => exact Replaying.tallies h.1 h.2

/-- **The header outlives every history, and the counters agree with it.** After any calls on a
buffer of any bytes the length and the header are what they were, and the buffer counts the values
and bytes that its tape tells of. -/
theorem statistics_after (bytes : Array UInt8) (codec : Codec) (signedness : Signedness)
    (calls : List Call) :
    let b := Outcome.after step (ofBytes bytes codec signedness) calls
    let t := Outcome.account step Tape.next (ofBytes bytes codec signedness) (.writing []) calls
    b.SameHeader bytes ∧ b.declaredSize = (ofBytes bytes codec signedness).declaredSize ∧
      b.Tallies t := by
  intro b t
  have hfresh : (ofBytes bytes codec signedness).Plays (.writing []) ∧
      (ofBytes bytes codec signedness).SameHeader bytes :=
    ⟨accepted_ofBytes bytes codec signedness, rfl, fun _ _ ↦ rfl⟩
  obtain ⟨hplays, hheader⟩ : b.Plays t ∧ b.SameHeader bytes :=
    Outcome.account_after (P := fun (b : Buffer) t ↦ b.Plays t ∧ b.SameHeader bytes)
      (fun _ _ c h ↦ ⟨h.1.step c, h.2.step h.1.headerLen_le_pos c⟩) hfresh calls
  exact ⟨hheader, hheader.declaredSize_eq codec signedness, hplays.tallies⟩

end Buffer

end RunLength

end Adjacency
