import Adjacency.Proofs.RunLength.Writing

/-!
# Read passes

During a read pass the codes of all runs stand behind the header, and the cursor is in front of one
of them or at the end, with what is left of the run before it pending (`Reading`). So the values
still to come are determined (`Replaying`): each read takes the first of them, and when none is left
a read fails and changes nothing. A rewind makes all values come again.
-/

namespace Adjacency

namespace RunLength

open Bytes (StandsAt standsAt_append)

namespace Buffer

variable {b : Buffer} {raw : Int} {r : Streak} {v : Int64} {vs rest : List Int64}
  {before todo : List Streak}

/-! ## Reading a run -/

theorem readRaw_of_standsAt (h : StandsAt b.bytes b.pos (b.codec.code b.signedness raw))
    (hraw : b.signedness.Admits raw ∧ raw ≤ Word.signedMax)
    (hstop : b.pos + b.codec.size b.signedness raw ≤ b.stop) :
    b.readRaw = .done { b with pos := b.pos + b.codec.size b.signedness raw } raw := by
  have hpos := b.codec.size_pos b.signedness raw
  rw [readRaw, if_neg (by omega), b.codec.get_of_standsAt h hraw.1 hstop]
  dsimp only
  rw [if_neg fun hc ↦ Int.not_le_of_gt hc.2 hraw.2]

theorem readBiased_of_standsAt {w : Int}
    (h : StandsAt b.bytes b.pos (b.codec.code b.signedness (away w)))
    (hraw : b.signedness.Admits (away w) ∧ away w ≤ Word.signedMax)
    (hstop : b.pos + b.codec.size b.signedness (away w) ≤ b.stop) :
    b.readBiased = .done { b with pos := b.pos + b.codec.size b.signedness (away w) } w := by
  rw [readBiased, readRaw_of_standsAt h hraw hstop, Outcome.done_andThen, unbias_away]

theorem readRun_of_standsAt (hr : r.Valid b.signedness)
    (h : StandsAt b.bytes b.pos (r.code b.codec b.signedness))
    (hstop : b.pos + (r.code b.codec b.signedness).length ≤ b.stop) :
    b.readRun = .done { b with
      pos := b.pos + (r.code b.codec b.signedness).length
      pending := r.count
      last := r.value } () := by
  have hraws := hr.admits
  rw [Streak.code] at h hstop ⊢
  rw [Streak.raws] at h hstop hraws ⊢
  split at h
  · next hone =>
    rw [if_pos hone] at hstop hraws ⊢
    rw [Codec.codes_singleton] at h hstop ⊢
    rw [Codec.length_code] at hstop ⊢
    have hcount : r.count = 1 := Nat.le_antisymm hone hr.count_pos
    rw [readRun, readRaw_of_standsAt h (hraws _ List.mem_cons_self) hstop, Outcome.done_andThen,
      if_neg (away_ne_marker _), back_away, Int64.ofInt_toInt, hcount]
  · next hmany =>
    rw [if_neg hmany] at hstop hraws ⊢
    simp only [Codec.codes_cons, Codec.codes_nil, List.append_nil, standsAt_append,
      List.length_append, Codec.length_code] at h hstop ⊢
    obtain ⟨hmarker, hcount, hvalue⟩ := h
    -- The cursor behind the marker, and behind the count with the run pending.
    let b₁ : Buffer := { b with pos := b.pos + b.codec.size b.signedness marker }
    let b₂ : Buffer := { b₁ with
      pos := b₁.pos + b.codec.size b.signedness (away r.count)
      pending := r.count }
    have hfirst : b.readRaw = .done b₁ marker :=
      readRaw_of_standsAt hmarker (hraws _ List.mem_cons_self) (by omega)
    have hsecond : b₁.readBiased
        = .done { b₁ with pos := b₁.pos + b.codec.size b.signedness (away r.count) } r.count :=
      readBiased_of_standsAt (b := b₁) hcount
        (hraws _ (List.mem_cons_of_mem _ List.mem_cons_self))
        (by show b.pos + b.codec.size b.signedness marker
          + b.codec.size b.signedness (away r.count) ≤ b.stop; omega)
    have hthird : b₂.readBiased
        = .done { b₂ with pos := b₂.pos + b.codec.size b.signedness (away r.value.toInt) }
          r.value.toInt :=
      readBiased_of_standsAt (b := b₂) hvalue
        (hraws _ (List.mem_cons_of_mem _ (List.mem_cons_of_mem _ List.mem_cons_self)))
        (by show b.pos + b.codec.size b.signedness marker + b.codec.size b.signedness (away r.count)
          + b.codec.size b.signedness (away r.value.toInt) ≤ b.stop; omega)
    rw [readRun, hfirst, Outcome.done_andThen, if_pos rfl, hsecond, Outcome.done_andThen,
      if_neg (by omega), Outcome.done_andThen, Int.toNat_natCast]
    show b₂.readBiased.andThen _ = _
    rw [hthird, Outcome.done_andThen, Int64.ofInt_toInt]
    simp only [b₂, b₁, Nat.add_assoc]

/-! ## What is still to come -/

/-- The buffer is in a read pass over the given runs, and the cursor is behind the first of
them. -/
structure Reading (b : Buffer) (before todo : List Streak) : Prop where
  mode : b.mode = .read
  standsAt : StandsAt b.bytes headerLen (Streak.codeAll b.codec b.signedness (before ++ todo))
  pos_eq : b.pos = headerLen + (Streak.codeAll b.codec b.signedness before).length
  stop_eq : b.stop = headerLen + (Streak.codeAll b.codec b.signedness (before ++ todo)).length
  used_eq : b.used = (Streak.codeAll b.codec b.signedness (before ++ todo)).length
  stored_eq : b.stored = (Streak.valuesAll (before ++ todo)).length
  valid : ∀ r ∈ before ++ todo, r.Valid b.signedness

/-- The buffer is in a read pass over the values `vs`, of which `rest` are still to come. -/
def Replaying (b : Buffer) (vs rest : List Int64) : Prop :=
  ∃ before todo, b.Reading before todo ∧ vs = Streak.valuesAll (before ++ todo) ∧
    rest = b.pendingRun.values ++ Streak.valuesAll todo

theorem Replaying.mode (h : b.Replaying vs rest) : b.mode = .read := by
  obtain ⟨before, todo, hreading, -⟩ := h
  exact hreading.mode

theorem Replaying.stored_eq (h : b.Replaying vs rest) : b.stored = vs.length := by
  obtain ⟨before, todo, hreading, rfl, -⟩ := h
  exact hreading.stored_eq

theorem Reading.readRun (h : b.Reading before (r :: todo)) :
    ∃ c : Buffer, b.readRun = .done c () ∧ c.Reading (before ++ [r]) todo ∧ c.pendingRun = r := by
  have hsplit : Streak.codeAll b.codec b.signedness (before ++ r :: todo)
      = Streak.codeAll b.codec b.signedness before ++ (r.code b.codec b.signedness ++
        Streak.codeAll b.codec b.signedness todo) := by
    rw [Streak.codeAll_append, Streak.codeAll_cons]
  have hjoin : before ++ [r] ++ todo = before ++ r :: todo := by
    rw [List.append_assoc, List.singleton_append]
  have hstands := h.standsAt
  have hstop := h.stop_eq
  rw [hsplit, standsAt_append, standsAt_append, ← h.pos_eq] at hstands
  rw [hsplit, List.length_append, List.length_append, ← Nat.add_assoc, ← h.pos_eq] at hstop
  refine ⟨_, readRun_of_standsAt (h.valid r (List.mem_append_right _ List.mem_cons_self))
    hstands.2.1 (by omega), ⟨h.mode, ?_, ?_, ?_, ?_, ?_, ?_⟩, rfl⟩
  · rw [hjoin]
    exact h.standsAt
  · show b.pos + _ = _
    rw [h.pos_eq, Streak.codeAll_concat, List.length_append, Nat.add_assoc]
  · rw [hjoin]
    exact h.stop_eq
  · rw [hjoin]
    exact h.used_eq
  · rw [hjoin]
    exact h.stored_eq
  · rw [hjoin]
    exact h.valid

/-! ## Calls in a read pass -/

theorem Reading.takePending (h : b.Reading before todo) (hpos : 0 < b.pending)
    (hrest : v :: rest = b.pendingRun.values ++ Streak.valuesAll todo) :
    ∃ c : Buffer, b.takePending = .done c v ∧
      c.Replaying (Streak.valuesAll (before ++ todo)) rest := by
  obtain ⟨n, hn⟩ := Nat.exists_eq_succ_of_ne_zero (Nat.ne_of_gt hpos)
  rw [Streak.values, pendingRun, hn, List.replicate_succ, List.cons_append] at hrest
  obtain ⟨rfl, rfl⟩ := List.cons.inj hrest
  refine ⟨{ b with pending := b.pending - 1 }, rfl, before, todo,
    ⟨h.mode, h.standsAt, h.pos_eq, h.stop_eq, h.used_eq, h.stored_eq, h.valid⟩, rfl, ?_⟩
  rw [Streak.values, pendingRun, hn, Nat.succ_sub_one]

theorem Replaying.read_cons (h : b.Replaying vs (v :: rest)) :
    ∃ c : Buffer, b.read = .done c v ∧ c.Replaying vs rest := by
  obtain ⟨before, todo, hreading, rfl, hrest⟩ := h
  have hmode : b.mode ≠ .write := by
    rw [hreading.mode]
    decide
  rw [read, if_neg hmode]
  rcases Nat.eq_zero_or_pos b.pending with hzero | hpos
  · rw [if_pos hzero]
    rw [Streak.values, pendingRun, hzero, List.replicate_zero, List.nil_append] at hrest
    cases todo with
    | nil => cases hrest
    | cons r todo =>
      obtain ⟨c, heq, hnext, hrun⟩ := hreading.readRun
      have hcount : 0 < c.pending := by
        have hvalid := hreading.valid r (List.mem_append_right _ List.mem_cons_self)
        rw [← hrun] at hvalid
        exact hvalid.count_pos
      obtain ⟨d, htake, hreplay⟩ := hnext.takePending hcount (hrest.trans (by rw [hrun]; rfl))
      rw [List.append_assoc, List.singleton_append] at hreplay
      exact ⟨d, by rw [heq, Outcome.done_andThen, htake], hreplay⟩
  · rw [if_neg (Nat.ne_of_gt hpos)]
    exact hreading.takePending hpos hrest

theorem Replaying.read_nil (h : b.Replaying vs []) : b.read = .fail b (.decode .pastEnd) [] := by
  obtain ⟨before, todo, hreading, rfl, hrest⟩ := h
  obtain ⟨hpending, htodo⟩ := List.append_eq_nil_iff.mp hrest.symm
  have hzero : b.pending = 0 := (List.replicate_eq_nil_iff _).mp hpending
  -- No run is empty, so none is left.
  have hnil : todo = [] := by
    cases todo with
    | nil => rfl
    | cons r todo =>
      have hcount := (hreading.valid r (List.mem_append_right _ List.mem_cons_self)).count_pos
      rw [Streak.valuesAll_cons] at htodo
      have hempty := (List.replicate_eq_nil_iff _).mp (List.append_eq_nil_iff.mp htodo).1
      omega
  have hstop : b.stop = b.pos := by
    rw [hreading.stop_eq, hreading.pos_eq, hnil, List.append_nil]
  have hmode : b.mode ≠ .write := by
    rw [hreading.mode]
    exact nofun
  rw [read, if_neg hmode, if_pos hzero, readRun, readRaw, if_pos (Nat.le_of_eq hstop),
    Outcome.fail_andThen, Outcome.fail_andThen]

/-! ## Passes -/

theorem Writing.reading {rs : List Streak} (h : b.Writing rs) :
    ({ b with stop := b.pos, mode := .read } : Buffer).atStart.Reading [] rs :=
  ⟨rfl, h.standsAt, rfl, h.pos_eq, h.used_eq, h.stored_eq, h.valid⟩

/-- **At the end of a write pass its values are ready to be read,** or the buffer is stuck and what
was accepted is kept. -/
theorem Accepted.toggle (h : b.Accepted vs) :
    (b.toggle.result = .ok () ∧ b.toggle.state.Replaying vs vs) ∨
    (∃ cause, b.toggle.result = .error cause ∧ b.toggle.state.Accepted vs ∧
      b.toggle.state.Stuck) := by
  rw [toggle_of_write h.mode]
  rcases h.flush with ⟨c, rs, heq, hw, hzero, rfl, -, -⟩ |
    ⟨hstuck, bytes, cause, events, hsame, heq, hkept⟩
  · rw [heq, Outcome.done_andThen]
    exact Or.inl ⟨rfl, [], rs, hw.reading, rfl, rfl⟩
  · rw [heq, Outcome.fail_andThen]
    exact Or.inr ⟨cause, rfl, hkept, hstuck.congr hsame⟩

theorem Replaying.rewind (h : b.Replaying vs rest) :
    b.rewind.result = .ok () ∧ b.rewind.state.Replaying vs vs := by
  obtain ⟨before, todo, hreading, rfl, -⟩ := h
  rw [Buffer.rewind, if_pos hreading.mode]
  exact ⟨rfl, [], before ++ todo, ⟨hreading.mode, hreading.standsAt, rfl, hreading.stop_eq,
    hreading.used_eq, hreading.stored_eq, hreading.valid⟩, rfl, rfl⟩

theorem Replaying.toggle (h : b.Replaying vs rest) :
    b.toggle.result = .ok () ∧ b.toggle.state.Accepted [] := by
  obtain ⟨before, todo, hreading, -, -⟩ := h
  rw [Buffer.toggle, hreading.mode]
  exact ⟨rfl, [], ⟨rfl, Bytes.standsAt_nil _ _, rfl, rfl, rfl,
    fun _ hr ↦ absurd hr List.not_mem_nil, fun hpos ↦ absurd hpos (Nat.lt_irrefl 0)⟩, rfl⟩

end Buffer

end RunLength

end Adjacency
