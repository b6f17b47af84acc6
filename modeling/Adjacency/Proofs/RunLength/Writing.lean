import Adjacency.Proofs.RunLength.Streak

/-!
# Write passes

During a write pass the bytes behind the header are the codes of the runs written so far, and one
more run is pending (`Writing`). The values accepted in the pass are those of all these runs
(`Accepted`). A call either adds a value or leaves the accepted values as they are; what it writes
lies behind the cursor.

A pending run that cannot be written is there to stay: it can only grow, and then it needs no less
room. Such a buffer is `Stuck`, and no call gets it out of the pass.
-/

namespace Adjacency

namespace RunLength

open Bytes (StandsAt overwrite standsAt_append standsAt_overwrite getElem?_overwrite_of_outside)

namespace Buffer

/-! ## Writing numbers -/

/-- The buffer with numbers written at the cursor. -/
def wrote (b : Buffer) (raws : List Int) : Buffer :=
  { b with
    bytes := overwrite b.bytes b.pos (b.codec.codes b.signedness raws)
    pos := b.pos + (b.codec.codes b.signedness raws).length
    used := b.used + (b.codec.codes b.signedness raws).length }

/-- A buffer of the same length that differs behind the cursor only. -/
structure SameBefore (b : Buffer) (bytes : Array UInt8) : Prop where
  size_eq : bytes.size = b.bytes.size
  bytes_eq : ∀ i, i < b.pos → bytes[i]? = b.bytes[i]?

variable {b : Buffer} {raws : List Int} {raw : Int} {bytes : Array UInt8} {v : Int64}
  {vs : List Int64} {rs : List Streak}

theorem SameBefore.refl (b : Buffer) : b.SameBefore b.bytes := ⟨rfl, fun _ _ ↦ rfl⟩

theorem wrote_wrote (b : Buffer) (raw : Int) (raws : List Int) :
    (b.wrote [raw]).wrote raws = b.wrote (raw :: raws) := by
  simp only [wrote, Codec.codes_cons, Codec.codes_nil, List.append_nil, List.length_append,
    Bytes.overwrite_append, Nat.add_assoc]

theorem writeRaw_of_le (h : b.pos + b.codec.size b.signedness raw ≤ b.bytes.size) :
    b.writeRaw raw = .done (b.wrote [raw]) () := by
  rw [writeRaw, b.codec.put_of_le h, wrote, Codec.codes_singleton, Codec.length_code]

theorem writeRaws_of_le (h : b.pos + (b.codec.codes b.signedness raws).length ≤ b.bytes.size) :
    b.writeRaws raws = .done (b.wrote raws) () := by
  induction raws generalizing b with
  | nil =>
    rw [writeRaws, wrote]
    rfl
  | cons raw raws ih =>
    rw [Codec.codes_cons, List.length_append, Codec.length_code] at h
    rw [writeRaws, writeRaw_of_le (by omega), Outcome.done_andThen, ih, wrote_wrote]
    simp only [wrote, Codec.codes_singleton, Codec.length_code, Bytes.size_overwrite]
    omega

/-- Without room for all numbers bytes behind the cursor may have changed, and nothing else but the
cursor. -/
theorem writeRaws_of_lt (hne : raws ≠ [])
    (h : b.bytes.size < b.pos + (b.codec.codes b.signedness raws).length) :
    ∃ bytes pos used events requested, b.SameBefore bytes ∧
      b.writeRaws raws
        = ⟨.error (.capacityExceeded b.codec.destination b.bytes.size requested),
          { b with bytes, pos, used }, events⟩ := by
  induction raws generalizing b with
  | nil => exact absurd rfl hne
  | cons raw raws ih =>
    rw [Codec.codes_cons, List.length_append, Codec.length_code] at h
    rcases Nat.lt_or_ge b.bytes.size (b.pos + b.codec.size b.signedness raw) with hfull | hroom
    · refine ⟨b.bytes, b.pos, b.used, [.bufferFull b.bytes.size b.pos b.stored],
        b.pos + b.codec.size b.signedness raw, SameBefore.refl b, ?_⟩
      rw [writeRaws, writeRaw, b.codec.put_of_lt hfull]
      rfl
    · have hsize : (b.wrote [raw]).bytes.size = b.bytes.size := Bytes.size_overwrite _ _ _
      obtain ⟨bytes, pos, used, events, requested, hsame, heq⟩ := ih (b := b.wrote [raw])
        (by rintro rfl; rw [Codec.codes_nil, List.length_nil] at h; omega)
        (by
          simp only [wrote, Codec.codes_singleton, Codec.length_code, Bytes.size_overwrite]
          omega)
      refine ⟨bytes, pos, used, events, requested, ⟨hsame.size_eq.trans hsize, ?_⟩, ?_⟩
      · intro i hi
        rw [hsame.bytes_eq i (Nat.lt_of_lt_of_le hi (Nat.le_add_right _ _))]
        exact getElem?_overwrite_of_outside (Or.inl hi)
      · rw [writeRaws, writeRaw_of_le hroom, Outcome.done_andThen, heq, hsize]
        rfl

/-! ## Writing the pending run -/

/-- The run that is not written yet. -/
def pendingRun (b : Buffer) : Streak := ⟨b.last, b.pending⟩

/-- The pending run can be written, and there is room for it. -/
structure CanFlush (b : Buffer) : Prop where
  fits : b.pendingRun.Fits
  room : b.pos + (b.pendingRun.code b.codec b.signedness).length ≤ b.bytes.size

/-- The buffer with the pending run written. -/
def flushed (b : Buffer) : Buffer :=
  { b.wrote b.pendingRun.raws with stored := b.stored + b.pending, pending := 0 }

theorem flush_of_pending_eq_zero (h : b.pending = 0) : b.flush = .done b () :=
  if_pos (Or.inr h)

theorem flush_of_canFlush (hmode : b.mode = .write) (hpending : 0 < b.pending)
    (h : b.CanFlush) : b.flush = .done b.flushed () := by
  have hraws : rawsOfRun b.last b.pending = .ok b.pendingRun.raws :=
    rawsOfRun_of_fits (r := b.pendingRun) h.fits
  rw [flush, if_neg (by rw [hmode]; simp; omega), hraws]
  dsimp only
  rw [writeRaws_of_le h.room]
  rfl

theorem toggle_of_write (hmode : b.mode = .write) :
    b.toggle = b.flush.andThen fun b _ ↦
      .done { b with stop := b.pos, mode := .read }.atStart () := by
  rw [toggle, hmode]

theorem toggle_of_canFlush (hmode : b.mode = .write) (hpending : 0 < b.pending) (h : b.CanFlush) :
    b.toggle.result = .ok () := by
  rw [toggle_of_write hmode, flush_of_canFlush hmode hpending h]
  rfl

/-- **A pending run that cannot be written stays pending,** and bytes behind the cursor are all that
may have changed. -/
theorem flush_of_not_canFlush (hmode : b.mode = .write) (hpending : 0 < b.pending)
    (h : ¬ b.CanFlush) :
    ∃ bytes cause events, Unwritable b.codec cause ∧ b.SameBefore bytes ∧
      b.flush = .fail { b with bytes } cause events := by
  rw [flush, if_neg (by rw [hmode]; simp; omega)]
  cases hraws : rawsOfRun b.last b.pending with
  | error e => exact ⟨b.bytes, e, [], rawsOfRun_error b.codec hraws, SameBefore.refl b, rfl⟩
  | ok raws =>
    obtain ⟨hfits, rfl⟩ := rawsOfRun_eq_ok (r := b.pendingRun).mp hraws
    have hfull : b.bytes.size < b.pos + (b.pendingRun.code b.codec b.signedness).length :=
      Nat.lt_of_not_le fun hroom ↦ h ⟨hfits, hroom⟩
    obtain ⟨bytes, pos, used, events, requested, hsame, heq⟩ :=
      writeRaws_of_lt b.pendingRun.raws_ne_nil hfull
    refine ⟨bytes, .capacityExceeded b.codec.destination b.bytes.size requested, events,
      .full _ _, hsame, ?_⟩
    dsimp only
    rw [heq]
    rfl

/-! ## What was accepted -/

/-- The buffer is in a write pass that has written the given runs so far. -/
structure Writing (b : Buffer) (rs : List Streak) : Prop where
  mode : b.mode = .write
  standsAt : StandsAt b.bytes headerLen (Streak.codeAll b.codec b.signedness rs)
  pos_eq : b.pos = headerLen + (Streak.codeAll b.codec b.signedness rs).length
  used_eq : b.used = (Streak.codeAll b.codec b.signedness rs).length
  stored_eq : b.stored = (Streak.valuesAll rs).length
  valid : ∀ r ∈ rs, r.Valid b.signedness
  /-- A pending value is none that the buffer rejects. -/
  nonneg : 0 < b.pending → b.signedness = .unsigned → 0 ≤ b.last.toInt

/-- The buffer is in a write pass that has accepted the given values so far. -/
def Accepted (b : Buffer) (vs : List Int64) : Prop :=
  ∃ rs, b.Writing rs ∧ vs = Streak.valuesAll rs ++ b.pendingRun.values

theorem Accepted.mode (h : b.Accepted vs) : b.mode = .write := by
  obtain ⟨rs, hw, -⟩ := h
  exact hw.mode

theorem accepted_ofBytes (bytes : Array UInt8) (codec : Codec) (signedness : Signedness) :
    (ofBytes bytes codec signedness).Accepted [] :=
  ⟨[], ⟨rfl, Bytes.standsAt_nil _ _, rfl, rfl, rfl, fun _ hr ↦ absurd hr List.not_mem_nil,
    fun hpos ↦ absurd hpos (Nat.lt_irrefl 0)⟩, rfl⟩

theorem Writing.congr (h : b.Writing rs) (hsame : b.SameBefore bytes) :
    { b with bytes }.Writing rs :=
  ⟨h.mode, h.standsAt.congr fun i _ hhi ↦ hsame.bytes_eq i (by rw [h.pos_eq]; exact hhi), h.pos_eq,
    h.used_eq, h.stored_eq, h.valid, h.nonneg⟩

theorem Writing.flushed (h : b.Writing rs) (hpending : 0 < b.pending) (hflush : b.CanFlush) :
    b.flushed.Writing (rs ++ [b.pendingRun]) := by
  have hcode : Streak.codeAll b.codec b.signedness (rs ++ [b.pendingRun])
      = Streak.codeAll b.codec b.signedness rs ++ b.pendingRun.code b.codec b.signedness :=
    Streak.codeAll_concat rs b.pendingRun
  refine ⟨h.mode, ?_, ?_, ?_, ?_, ?_, fun hpos ↦ absurd hpos (Nat.lt_irrefl 0)⟩
  · show StandsAt b.flushed.bytes headerLen
      (Streak.codeAll b.codec b.signedness (rs ++ [b.pendingRun]))
    -- Nothing in front of the cursor is written to.
    rw [hcode, standsAt_append, ← h.pos_eq]
    refine ⟨h.standsAt.congr fun i _ hhi ↦ getElem?_overwrite_of_outside (Or.inl ?_),
      standsAt_overwrite hflush.room⟩
    rw [h.pos_eq]
    exact hhi
  · show b.pos + _ = headerLen +
      (Streak.codeAll b.codec b.signedness (rs ++ [b.pendingRun])).length
    rw [hcode, h.pos_eq, List.length_append, Nat.add_assoc]
    rfl
  · show b.used + _ = (Streak.codeAll b.codec b.signedness (rs ++ [b.pendingRun])).length
    rw [hcode, h.used_eq, List.length_append]
    rfl
  · show b.stored + b.pending = _
    rw [Streak.valuesAll_concat, List.length_append, ← h.stored_eq, Streak.length_values]
    rfl
  · intro r hr
    rcases List.mem_append.mp hr with hr | hr
    · exact h.valid r hr
    · rw [List.mem_singleton.mp hr]
      exact ⟨hpending, hflush.fits, h.nonneg hpending⟩

/-- The pending run of the buffer cannot be written. -/
structure Stuck (b : Buffer) : Prop where
  mode : b.mode = .write
  pending_pos : 0 < b.pending
  not_canFlush : ¬ b.CanFlush

/-- Whether the pending run can be written depends on the length of the buffer alone. -/
theorem Stuck.congr (h : b.Stuck) (hsame : b.SameBefore bytes) : { b with bytes }.Stuck :=
  ⟨h.mode, h.pending_pos, fun hflush ↦ h.not_canFlush ⟨hflush.fits, hsame.size_eq ▸ hflush.room⟩⟩

theorem CanFlush.of_pending_le {n : Nat} (h : { b with pending := n }.CanFlush)
    (hle : b.pending ≤ n) : b.CanFlush where
  fits := h.fits.of_le hle
  room := Nat.le_trans (Nat.add_le_add_left (Streak.length_code_mono hle) b.pos) h.room

/-! ## Calls in a write pass -/

/-- **A flush keeps what was accepted.** It leaves no run pending, or it fails and the buffer is
stuck. -/
theorem Accepted.flush (h : b.Accepted vs) :
    (∃ c rs, b.flush = .done c () ∧ c.Writing rs ∧ c.pending = 0 ∧ vs = Streak.valuesAll rs ∧
      c.codec = b.codec ∧ c.signedness = b.signedness) ∨
    (b.Stuck ∧ ∃ bytes cause events, b.SameBefore bytes ∧
      b.flush = .fail { b with bytes } cause events ∧ { b with bytes }.Accepted vs) := by
  obtain ⟨rs, hw, rfl⟩ := h
  rcases Nat.eq_zero_or_pos b.pending with hzero | hpos
  · refine Or.inl ⟨b, rs, flush_of_pending_eq_zero hzero, hw, hzero, ?_, rfl, rfl⟩
    rw [Streak.values, pendingRun, hzero, List.replicate_zero, List.append_nil]
  · by_cases hflush : b.CanFlush
    · refine Or.inl ⟨b.flushed, rs ++ [b.pendingRun], flush_of_canFlush hw.mode hpos hflush,
        hw.flushed hpos hflush, rfl, ?_, rfl, rfl⟩
      rw [Streak.valuesAll_concat]
    · obtain ⟨bytes, cause, events, -, hsame, heq⟩ := flush_of_not_canFlush hw.mode hpos hflush
      exact Or.inr ⟨⟨hw.mode, hpos, hflush⟩, bytes, cause, events, hsame, heq, rs,
        hw.congr hsame, rfl⟩

/-- **A store adds its value or keeps what was accepted.** It fails for a value that the buffer
rejects or because the buffer is stuck. -/
theorem Accepted.store (h : b.Accepted vs) (v : Int64) :
    ((b.store v).result = .ok () ∧ (b.store v).state.Accepted (vs ++ [v])) ∨
    (∃ cause, (b.store v).result = .error cause ∧ (b.store v).state.Accepted vs ∧
      (b.signedness = .unsigned ∧ v < 0 ∨ (b.store v).state.Stuck)) := by
  rw [Buffer.store, if_neg (by rw [h.mode]; exact nofun)]
  split
  · next hneg => exact Or.inr ⟨_, rfl, h, Or.inl hneg⟩
  · next hneg =>
    have hnonneg : b.signedness = .unsigned → 0 ≤ v.toInt := by
      intro hunsigned
      exact Int.not_lt.mp fun hlt ↦ hneg ⟨hunsigned, Int64.lt_iff_toInt_lt.mpr hlt⟩
    split
    · -- The value goes on with the pending run.
      next hsame =>
      obtain ⟨rs, hw, rfl⟩ := h
      refine Or.inl ⟨rfl, rs, ⟨hw.mode, hw.standsAt, hw.pos_eq, hw.used_eq, hw.stored_eq, hw.valid,
        fun _ hunsigned ↦ hsame.2 ▸ hnonneg hunsigned⟩, ?_⟩
      rw [List.append_assoc, Streak.values, Streak.values, pendingRun, pendingRun, hsame.2,
        ← List.replicate_succ']
      rfl
    · -- The value begins a new run, once the pending one is written.
      rcases h.flush with ⟨c, rs, heq, hw, hzero, rfl, hcodec, hsigned⟩ |
        ⟨hstuck, bytes, cause, events, hsame, heq, hkept⟩
      · rw [heq, Outcome.done_andThen]
        refine Or.inl ⟨rfl, rs, ⟨hw.mode, hw.standsAt, hw.pos_eq, hw.used_eq, hw.stored_eq,
          hw.valid, fun _ hunsigned ↦ hnonneg (hsigned ▸ hunsigned)⟩, rfl⟩
      · rw [heq, Outcome.fail_andThen]
        exact Or.inr ⟨cause, rfl, hkept, Or.inr (hstuck.congr hsame)⟩

/-! ## Buffers that are stuck -/

theorem Stuck.store (h : b.Stuck) (v : Int64) : (b.store v).state.Stuck := by
  rw [Buffer.store, if_neg (by rw [h.mode]; exact nofun)]
  split
  · exact h
  · split
    · -- The pending run has grown, and needs no less room.
      refine ⟨h.mode, Nat.succ_pos _, ?_⟩
      intro hflush
      exact h.not_canFlush (hflush.of_pending_le (Nat.le_succ _))
    · obtain ⟨bytes, cause, events, -, hsame, heq⟩ :=
        flush_of_not_canFlush h.mode h.pending_pos h.not_canFlush
      rw [heq, Outcome.fail_andThen]
      exact h.congr hsame

theorem Stuck.flush (h : b.Stuck) :
    (∃ cause, b.flush.result = .error cause) ∧ b.flush.state.Stuck := by
  obtain ⟨bytes, cause, events, -, hsame, heq⟩ :=
    flush_of_not_canFlush h.mode h.pending_pos h.not_canFlush
  rw [heq]
  exact ⟨⟨cause, rfl⟩, h.congr hsame⟩

theorem Stuck.toggle (h : b.Stuck) :
    (∃ cause, b.toggle.result = .error cause) ∧ b.toggle.state.Stuck := by
  obtain ⟨bytes, cause, events, -, hsame, heq⟩ :=
    flush_of_not_canFlush h.mode h.pending_pos h.not_canFlush
  rw [toggle_of_write h.mode, heq, Outcome.fail_andThen]
  exact ⟨⟨cause, rfl⟩, h.congr hsame⟩

end Buffer

end RunLength

end Adjacency
