import Adjacency.Proofs.PairBlock.Frame
import Adjacency.Proofs.PairBlock.Reading

/-!
# Writing a block

A block that holds pairs or was never written to takes a new list: both buffers begin an empty write
pass, accept their values and end the pass, and then the block holds the list. If that fails on the
way, one of the buffers is stuck, since no value for the primary buffer is negative and the
secondary buffer accepts any. Such a block is `Jammed`: its stuck buffer stays in its write pass
forever, so no later `set` answers, whatever was left behind in the other buffer.
-/

namespace Adjacency

namespace PairBlock

open RunLength (Buffer)

variable {k : PairBlock} {ps pairs : List Pair} {vs₁ vs₂ : List Int64}

/-! ## Blocks that hold nothing -/

/-- Both buffers are in a write pass and have accepted the given values so far. -/
structure Accepts (k : PairBlock) (vs₁ vs₂ : List Int64) : Prop where
  primary : k.primary.Accepted vs₁
  secondary : k.secondary.Accepted vs₂
  signed : k.secondary.signedness = .signed

/-- Both buffers are at the beginning of a write pass. -/
def Vacant (k : PairBlock) : Prop := k.Accepts [] []

/-- One of the buffers is stuck. -/
def Jammed (k : PairBlock) : Prop := k.primary.Stuck ∨ k.secondary.Stuck

theorem vacant_ofPreset (size : RunLength.Preset) (codec : Codec) : (ofPreset size codec).Vacant :=
  ⟨Buffer.accepted_ofBytes _ _ _, Buffer.accepted_ofBytes _ _ _, rfl⟩

/-! ## Calls on the buffers -/

section

variable {α : Type} {call : Buffer → Outcome Buffer α} {P₁ Q₁ P₂ Q₂ : Buffer → Prop}

theorem on_primary_ends (h : (call k.primary).Ends P₁ Q₁) :
    (k.on .primary call).Ends (fun c ↦ P₁ c.primary ∧ c.secondary = k.secondary)
      fun c ↦ Q₁ c.primary ∧ c.secondary = k.secondary := by
  rw [on_primary]
  exact .onto (h.mono (fun _ hb ↦ ⟨hb, rfl⟩) fun _ hb ↦ ⟨hb, rfl⟩)

theorem on_secondary_ends (h : (call k.secondary).Ends P₂ Q₂) :
    (k.on .secondary call).Ends (fun c ↦ c.primary = k.primary ∧ P₂ c.secondary)
      fun c ↦ c.primary = k.primary ∧ Q₂ c.secondary := by
  rw [on_secondary]
  exact .onto (h.mono (fun _ hb ↦ ⟨rfl, hb⟩) fun _ hb ↦ ⟨rfl, hb⟩)

theorem on_both_ends (h₁ : (call k.primary).Ends P₁ Q₁) (h₂ : (call k.secondary).Ends P₂ Q₂) :
    ((k.on .primary call).andThen fun c _ ↦ c.on .secondary call).Ends
      (fun c ↦ P₁ c.primary ∧ P₂ c.secondary) fun c ↦ Q₁ c.primary ∨ Q₂ c.secondary := by
  refine ((on_primary_ends h₁).mono (fun _ ↦ id) fun _ hc ↦ Or.inl hc.1).andThen ?_
  rintro c _ ⟨hprimary, hsame⟩
  rw [← hsame] at h₂
  refine (on_secondary_ends h₂).mono ?_ fun _ hd ↦ Or.inr hd.2
  rintro d ⟨hd, hsecondary⟩
  exact ⟨hd ▸ hprimary, hsecondary⟩

theorem lastPrimary_on {last : Int64} (h : k.lastPrimary = last) (side : Side)
    (call : Buffer → Outcome Buffer α) :
    (k.on side call).Ends (·.lastPrimary = last) (·.lastPrimary = last) := by
  cases side with
  | primary => exact .of_state h
  | secondary => exact .of_state h

theorem Jammed.on (h : k.Jammed) (side : Side)
    (hcall : ∀ b : Buffer, b.Stuck → (call b).state.Stuck) : (k.on side call).state.Jammed := by
  cases side with
  | primary => exact h.imp (hcall k.primary) id
  | secondary => exact h.imp id (hcall k.secondary)

end

/-! ## Beginning to write -/

/-- The buffer is at the beginning of a write pass, or in a read pass. -/
def Startable (b : Buffer) : Prop := b.Accepted [] ∨ ∃ vs rest, b.Replaying vs rest

/-- Both buffers can begin an empty write pass. -/
structure Ready (k : PairBlock) : Prop where
  primary : Startable k.primary
  secondary : Startable k.secondary
  signed : k.secondary.signedness = .signed

theorem Vacant.ready (h : k.Vacant) : k.Ready := ⟨Or.inl h.primary, Or.inl h.secondary, h.signed⟩

theorem Loaded.ready (h : k.Loaded ps) : k.Ready := by
  obtain ⟨rest₁, rest₂, h⟩ := h
  exact ⟨Or.inr ⟨_, _, h.primary⟩, Or.inr ⟨_, _, h.secondary⟩, h.signed⟩

theorem startWriting_ends {b : Buffer} (h : Startable b) :
    (startWriting b).Ends (·.Accepted []) fun _ ↦ False := by
  rw [startWriting]
  rcases h with h | ⟨vs, rest, h⟩
  · rw [if_neg (by rw [h.mode]; decide)]
    exact .of_ok rfl h
  · obtain ⟨hok, hempty⟩ := h.toggle
    rw [if_pos h.mode]
    exact .of_ok hok hempty

theorem Ready.beginWriting (h : k.Ready) : k.beginWriting.Ends Vacant fun _ ↦ False := by
  have hsigned : (startWriting k.secondary).state.signedness = .signed :=
    (kept_startWriting k.secondary).signedness.trans h.signed
  have hprimary := startWriting_ends h.primary
  have hsecondary := (startWriting_ends h.secondary).and_state
    (R := fun b ↦ b.signedness = .signed) hsigned
  refine (on_both_ends hprimary hsecondary).mono ?_ ?_
  · rintro c ⟨hc, hempty, hsigned⟩
    exact ⟨hc, hempty, hsigned⟩
  · rintro c (hc | ⟨hc, -⟩)
    · exact hc
    · exact hc

theorem stuck_startWriting (b : Buffer) (h : b.Stuck) : (startWriting b).state.Stuck := by
  rw [startWriting, if_neg (by rw [h.mode]; decide)]
  exact h

theorem Jammed.beginWriting (h : k.Jammed) : k.beginWriting.Ends Jammed Jammed :=
  (Outcome.Ends.of_state (h.on .primary stuck_startWriting)).andThen fun _ _ hc ↦
    .of_state (hc.on .secondary stuck_startWriting)

/-! ## Storing the values -/

theorem store_ends {b : Buffer} {vs : List Int64} {v : Int64} (h : b.Accepted vs)
    (hv : b.signedness = .unsigned → 0 ≤ v) :
    (b.store v).Ends (·.Accepted (vs ++ [v])) Buffer.Stuck := by
  rcases h.store v with ⟨hok, hmore⟩ | ⟨cause, herror, -, ⟨hunsigned, hneg⟩ | hstuck⟩
  · exact .of_ok hok hmore
  · exact absurd hneg (Int64.not_lt.mpr (hv hunsigned))
  · exact .of_error herror hstuck

theorem Accepts.storePrimary {v : Int64} (h : k.Accepts vs₁ vs₂) (hv : 0 ≤ v) :
    (k.on .primary fun b ↦ b.store v).Ends (·.Accepts (vs₁ ++ [v]) vs₂) Jammed := by
  refine (on_primary_ends (store_ends h.primary fun _ ↦ hv)).mono ?_ ?_
  · rintro c ⟨hmore, hsame⟩
    exact ⟨hmore, hsame ▸ h.secondary, hsame ▸ h.signed⟩
  · rintro c ⟨hstuck, -⟩
    exact Or.inl hstuck

theorem Accepts.storeSecondary (h : k.Accepts vs₁ vs₂) (v : Int64) :
    (k.on .secondary fun b ↦ b.store v).Ends (·.Accepts vs₁ (vs₂ ++ [v])) Jammed := by
  have hany : k.secondary.signedness = .unsigned → 0 ≤ v := by
    rw [h.signed]
    exact nofun
  have hsigned : (k.secondary.store v).state.signedness = .signed :=
    (Buffer.kept_store k.secondary v).signedness.trans h.signed
  have hstore := (store_ends h.secondary hany).and_state
    (R := fun b ↦ b.signedness = .signed) hsigned
  refine (on_secondary_ends hstore).mono ?_ ?_
  · rintro c ⟨hsame, hmore, hsigned⟩
    exact ⟨hsame ▸ h.primary, hmore, hsigned⟩
  · rintro c ⟨-, hstuck, -⟩
    exact Or.inr hstuck

/-- **The values are accepted by their buffers,** or the block is jammed. -/
theorem Accepts.storeAll (h : k.Accepts vs₁ vs₂) {values : List (Side × Int64)}
    (hnonneg : ∀ v ∈ storedOn .primary values, 0 ≤ v) :
    (k.storeAll values).Ends
      (·.Accepts (vs₁ ++ storedOn .primary values) (vs₂ ++ storedOn .secondary values)) Jammed := by
  -- What is accepted and what is still to be stored make up the whole on either side.
  let P (c : PairBlock) (todo : List (Side × Int64)) : Prop :=
    (∀ v ∈ storedOn .primary todo, 0 ≤ v) ∧ ∃ ws₁ ws₂, c.Accepts ws₁ ws₂ ∧
      ws₁ ++ storedOn .primary todo = vs₁ ++ storedOn .primary values ∧
      ws₂ ++ storedOn .secondary todo = vs₂ ++ storedOn .secondary values
  have hstep (c : PairBlock) (x : Side × Int64) (todo : List (Side × Int64))
      (hc : P c (x :: todo)) :
      (c.on x.1 fun b ↦ b.store x.2).Ends (P · todo) Jammed := by
    obtain ⟨side, v⟩ := x
    obtain ⟨hpos, ws₁, ws₂, haccepts, hfirst, hsecond⟩ := hc
    cases side with
    | primary =>
      rw [storedOn_cons_self] at hpos hfirst
      rw [storedOn_cons_of_ne (by decide)] at hsecond
      refine (haccepts.storePrimary (hpos v List.mem_cons_self)).mono ?_ fun _ ↦ id
      intro d hd
      refine ⟨fun w hw ↦ hpos w (List.mem_cons_of_mem v hw), _, _, hd, ?_, hsecond⟩
      rw [List.append_assoc, List.singleton_append, hfirst]
    | secondary =>
      rw [storedOn_cons_of_ne (by decide)] at hpos hfirst
      rw [storedOn_cons_self] at hsecond
      refine (haccepts.storeSecondary v).mono ?_ fun _ ↦ id
      intro d hd
      refine ⟨hpos, _, _, hd, hfirst, ?_⟩
      rw [List.append_assoc, List.singleton_append, hsecond]
  have hstart : P k values := ⟨hnonneg, vs₁, vs₂, h, rfl, rfl⟩
  refine (Outcome.run_ends hstep hstart).mono ?_ fun _ ↦ id
  rintro c ⟨-, ws₁, ws₂, haccepts, hfirst, hsecond⟩
  rw [← hfirst, ← hsecond, storedOn, storedOn, List.filter_nil, List.filter_nil, List.map_nil,
    List.append_nil, List.append_nil]
  exact haccepts

theorem Jammed.storeAll (h : k.Jammed) (values : List (Side × Int64)) :
    (k.storeAll values).Ends Jammed Jammed := by
  have hstep (c : PairBlock) (x : Side × Int64) (hc : c.Jammed) :
      (c.on x.1 fun b ↦ b.store x.2).Ends Jammed Jammed :=
    .of_state (hc.on x.1 fun b hb ↦ hb.store x.2)
  exact Outcome.run_ends (P := fun c _ ↦ Jammed c) (fun c x _ ↦ hstep c x) h

/-! ## Ending the pass -/

theorem toggle_ends {b : Buffer} {vs : List Int64} (h : b.Accepted vs) :
    b.toggle.Ends (·.Replaying vs vs) Buffer.Stuck := by
  rcases h.toggle with ⟨hok, hreplay⟩ | ⟨cause, herror, -, hstuck⟩
  · exact .of_ok hok hreplay
  · exact .of_error herror hstuck

/-- **A block that accepted the values of a list is ready to be read,** or it is jammed. -/
theorem Accepts.endWriting (h : k.Accepts vs₁ vs₂) :
    k.endWriting.Ends (fun c ↦ c.primary.Replaying vs₁ vs₁ ∧ c.secondary.Replaying vs₂ vs₂ ∧
      c.secondary.signedness = .signed) Jammed := by
  have hsigned : k.secondary.toggle.state.signedness = .signed :=
    (Buffer.kept_toggle k.secondary).signedness.trans h.signed
  have htoggle := (toggle_ends h.secondary).and_state (R := fun b ↦ b.signedness = .signed) hsigned
  refine (on_both_ends (toggle_ends h.primary) htoggle).mono (fun _ ↦ id) ?_
  rintro c (hstuck | ⟨hstuck, -⟩)
  · exact Or.inl hstuck
  · exact Or.inr hstuck

theorem stuck_toggle {b : Buffer} (h : b.Stuck) : b.toggle.Ends (fun _ ↦ False) Buffer.Stuck := by
  obtain ⟨⟨cause, herror⟩, hstuck⟩ := h.toggle
  exact .of_error herror hstuck

theorem Jammed.endWriting (h : k.Jammed) : k.endWriting.Ends (fun _ ↦ False) Jammed := by
  have hany (b : Buffer) : b.toggle.Ends (fun _ ↦ True) fun _ ↦ True := .of_state trivial
  rcases h with hstuck | hstuck
  · refine ((on_primary_ends (stuck_toggle hstuck)).mono (fun _ hc ↦ hc.1)
      fun _ hc ↦ Or.inl hc.1).andThen ?_
    intro _ _ hc
    exact absurd hc id
  · -- Whatever becomes of the primary buffer, the secondary one is left alone.
    refine ((on_primary_ends (hany k.primary)).mono (fun _ hc ↦ hc.2)
      fun c hc ↦ Or.inr (hc.2 ▸ hstuck)).andThen ?_
    intro c _ hsame
    rw [← hsame] at hstuck
    exact (on_secondary_ends (stuck_toggle hstuck)).mono (fun _ hd ↦ hd.2) fun _ hd ↦ Or.inr hd.2

/-! ## Setting -/

/-- **A list with a negative primary id is rejected,** and the block is left as it was. -/
theorem set_of_anyNegative (h : Pair.anyNegative pairs = true) :
    k.set pairs = .fail k (.invalid .negativePrimary) [] := by
  rw [← Pair.any_head?_sort] at h
  rw [set, h]
  rfl

theorem set_of_nonneg (h : Pair.anyNegative pairs = false) :
    k.set pairs = k.beginWriting.andThen fun c _ ↦ c.write (Pair.sort pairs) := by
  rw [← Pair.any_head?_sort] at h
  rw [set, h]
  rfl

theorem lastPrimary_storeAll {last : Int64} (h : k.lastPrimary = last)
    (values : List (Side × Int64)) :
    (k.storeAll values).Ends (·.lastPrimary = last) (·.lastPrimary = last) :=
  Outcome.run_ends (P := fun c _ ↦ lastPrimary c = last)
    (fun _ x _ hc ↦ lastPrimary_on hc x.1 fun b ↦ b.store x.2) h

theorem lastPrimary_endWriting {last : Int64} (h : k.lastPrimary = last) :
    k.endWriting.Ends (·.lastPrimary = last) (·.lastPrimary = last) :=
  (lastPrimary_on h .primary Buffer.toggle).andThen fun _ _ hc ↦
    lastPrimary_on hc .secondary Buffer.toggle

/-- **A sorted list with no negative primary id is held after it was written,** or the block is
jammed. -/
theorem Vacant.write (h : k.Vacant) (hpos : ∀ p ∈ ps, 0 ≤ p.primary)
    (hsorted : ps.Pairwise fun p q ↦ p.primary ≤ q.primary) (hlen : ps.length ≤ Word.signedMax) :
    (k.write ps).Ends (·.Loaded ps) Jammed := by
  have hempty : (PairBlock.mk k.primary k.secondary 0 (lastOf ps)).Accepts [] [] :=
    ⟨h.primary, h.secondary, h.signed⟩
  have hnonneg : ∀ v ∈ storedOn .primary (script ps), 0 ≤ v := by
    rw [storedOn_script_primary]
    exact primaryValues_nonneg hpos hsorted hlen
  have hstore := hempty.storeAll hnonneg
  rw [storedOn_script_primary, storedOn_script_secondary, List.nil_append, List.nil_append]
    at hstore
  rw [PairBlock.write, if_neg (Nat.not_lt.mpr hlen)]
  refine ((hstore.and (lastPrimary_storeAll rfl _)).mono (fun _ ↦ id) fun _ hc ↦ hc.1).andThen ?_
  intro c _ hc
  refine ((hc.1.endWriting.and (lastPrimary_endWriting hc.2)).mono (fun _ ↦ id)
    fun _ hd ↦ hd.1).andThen ?_
  rintro d _ ⟨⟨hprimary, hsecondary, hsigned⟩, hlast⟩
  exact .of_ok rfl ⟨_, _, hprimary, hsecondary, hsigned, rfl, hlast, hlen⟩

theorem Vacant.write_of_lt (h : k.Vacant) (hlen : Word.signedMax < ps.length) :
    (k.write ps).Ends (fun _ ↦ False) Vacant := by
  rw [PairBlock.write, if_pos hlen]
  exact .of_error rfl ⟨h.primary, h.secondary, h.signed⟩

theorem Jammed.write (h : k.Jammed) (ps : List Pair) :
    (k.write ps).Ends (fun _ ↦ False) Jammed := by
  rw [PairBlock.write]
  split
  · exact .of_error rfl h
  · have hjammed : (PairBlock.mk k.primary k.secondary 0 (lastOf ps)).Jammed := h
    exact (hjammed.storeAll (script ps)).andThen fun c _ hc ↦
      hc.endWriting.andThen fun d _ hd ↦ absurd hd id

/-- **A list with no negative primary id is held after it was set,** or the block is jammed. -/
theorem Ready.set (h : k.Ready) (hnonneg : Pair.anyNegative pairs = false)
    (hlen : pairs.length ≤ Word.signedMax) :
    (k.set pairs).Ends (·.Loaded (Pair.sort pairs)) Jammed := by
  have hpos : ∀ p ∈ Pair.sort pairs, 0 ≤ p.primary := by
    intro p hp
    exact Pair.anyNegative_eq_false.mp hnonneg p ((Pair.perm_sort pairs).mem_iff.mp hp)
  rw [set_of_nonneg hnonneg]
  exact (h.beginWriting.mono (fun _ ↦ id) fun _ ↦ False.elim).andThen fun c _ hc ↦
    hc.write hpos (Pair.sorted_sort pairs) ((Pair.perm_sort pairs).length_eq ▸ hlen)

/-- A list that is too long is not set, and the block holds nothing then. -/
theorem Ready.set_of_lt (h : k.Ready) (hnonneg : Pair.anyNegative pairs = false)
    (hlen : Word.signedMax < pairs.length) : (k.set pairs).Ends (fun _ ↦ False) Vacant := by
  rw [set_of_nonneg hnonneg]
  exact (h.beginWriting.mono (fun _ ↦ id) fun _ ↦ False.elim).andThen fun c _ hc ↦
    hc.write_of_lt ((Pair.perm_sort pairs).length_eq ▸ hlen)

/-- **No list is ever set on a jammed block.** -/
theorem Jammed.set (h : k.Jammed) (hnonneg : Pair.anyNegative pairs = false) :
    (k.set pairs).Ends (fun _ ↦ False) Jammed := by
  rw [set_of_nonneg hnonneg]
  exact h.beginWriting.andThen fun c _ hc ↦ hc.write (Pair.sort pairs)

end PairBlock

end Adjacency
