import Adjacency.PairBlock.Call
import Adjacency.Proofs.PairBlock.Setting

/-!
# A block never shows stale pairs

The calls made on a block, with whether they answered, tell what the block must hold: the sorted
pairs of the last `set` that was not rejected for a negative primary id, if that `set` answered, and
nothing if it failed. Every call keeps the block and this account in step (`Holds.step`), so a read
gives what the account says and fails if it says nothing, whatever the history.
-/

namespace Adjacency

namespace PairBlock

open RunLength (Buffer)

/-- What a block holds after a call that answered or failed, if it held `held` before. -/
def heldNext (held : Option (List Pair)) (c : Call) (answered : Bool) : Option (List Pair) :=
  match c with
  | .set pairs =>
    if Pair.anyNegative pairs then held else if answered then some (Pair.sort pairs) else none
  | _ => held

/-- The block holds the pairs `held`, or nothing. -/
def Holds (k : PairBlock) : Option (List Pair) → Prop
  | some ps => k.Loaded ps
  | none => k.Vacant ∨ k.Jammed

variable {k : PairBlock} {ps : List Pair} {held : Option (List Pair)} {Q : PairBlock → Prop}

/-! ## Reading a block that holds nothing -/

theorem Vacant.startReading (h : k.Vacant) :
    k.startReading.Ends (fun _ ↦ False) Vacant := by
  rw [PairBlock.startReading, if_pos h.primary.mode]
  exact .of_error rfl h

theorem Jammed.startReading (h : k.Jammed) :
    k.startReading.Ends (fun _ ↦ False) Jammed := by
  rw [PairBlock.startReading]
  by_cases hmode : k.primary.mode = .write
  · rw [if_pos hmode]
    exact .of_error rfl h
  · -- The primary buffer is in a read pass, so it is the secondary one that is stuck.
    rw [if_neg hmode]
    have hstuck : k.secondary.Stuck := h.resolve_left fun hstuck ↦ hmode hstuck.mode
    have hany : k.primary.rewind.Ends (fun _ ↦ True) fun _ ↦ True := .of_state trivial
    refine ((on_primary_ends hany).mono (fun _ hc ↦ hc.2)
      fun c hc ↦ Or.inr (hc.2 ▸ hstuck)).andThen ?_
    intro c _ hsame
    have hrewind : c.secondary.rewind = .fail c.secondary (.sequencing .rewindWhileWriting) [] :=
      if_neg (by rw [hsame, hstuck.mode]; decide)
    rw [on_secondary, hrewind]
    refine .of_error rfl (Or.inr ?_)
    show c.secondary.Stuck
    rw [hsame]
    exact hstuck

theorem Holds.startReading (h : k.Holds none) :
    k.startReading.Ends (fun _ ↦ False) (·.Holds none) := by
  rcases h with hvacant | hjammed
  · exact hvacant.startReading.mono (fun _ ↦ id) fun _ ↦ Or.inl
  · exact hjammed.startReading.mono (fun _ ↦ id) fun _ ↦ Or.inr

theorem get_of_startReading (h : k.startReading.Ends (fun _ ↦ False) Q) (target : List Pair) :
    (∃ e, (k.get target).result = .error e) ∧ Q (k.get target).state.1 ∧
      (k.get target).state.2 = target := by
  rw [get]
  rcases heq : k.startReading with ⟨result, c, events⟩
  rw [heq] at h
  cases result with
  | ok n => exact absurd (h.ok n rfl) id
  | error e => exact ⟨⟨e, rfl⟩, h.error e rfl, rfl⟩

/-! ## One call -/

theorem toList_of_startReading (h : k.startReading.Ends (fun _ ↦ False) Q) :
    (∃ e, k.toList.result = .error e) ∧ Q k.toList.state := by
  obtain ⟨⟨e, herror⟩, hstate, -⟩ := get_of_startReading h (List.replicate k.count default)
  rw [toList]
  rcases heq : k.get (List.replicate k.count default) with ⟨result, ⟨c, target⟩, events⟩
  rw [heq] at herror hstate
  obtain rfl : result = .error e := herror
  exact ⟨⟨e, rfl⟩, hstate⟩

theorem lookup_of_startReading (h : k.startReading.Ends (fun _ ↦ False) Q) (hk : Q k) (v : Int64) :
    Q (k.lookup v).state := by
  rw [PairBlock.lookup]
  split
  · exact hk
  · exact Outcome.Ends.state (P := Q) (h.andThen fun c _ hc ↦ absurd hc id)

theorem step_of_startReading (h : k.startReading.Ends (fun _ ↦ False) Q) (hk : Q k) {c : Call}
    (hread : ∀ pairs, c ≠ .set pairs) : Q (k.step c).state := by
  cases c with
  | set pairs => exact absurd rfl (hread pairs)
  | get target =>
    rw [PairBlock.step, state_fill]
    exact (get_of_startReading h target).2.1
  | toList => exact (toList_of_startReading h).2
  | lookup v => exact lookup_of_startReading h hk v

theorem Loaded.step (h : k.Loaded ps) {c : Call} (hread : ∀ pairs, c ≠ .set pairs) :
    (k.step c).state.Loaded ps := by
  cases c with
  | set pairs => exact absurd rfl (hread pairs)
  | get target =>
    rw [PairBlock.step, state_fill]
    rcases Nat.lt_or_ge target.length ps.length with hlt | hle
    · obtain ⟨d, heq, hd⟩ := h.get_of_lt hlt
      rw [heq]
      exact hd
    · exact (h.get_of_le hle).2.2
  | toList => exact h.toList.2
  | lookup v => exact (h.lookup v).2

theorem Holds.read (h : k.Holds held) {c : Call} (hread : ∀ pairs, c ≠ .set pairs) :
    (k.step c).state.Holds held := by
  cases held with
  | none => exact step_of_startReading h.startReading h hread
  | some ps => exact Loaded.step h hread

theorem Holds.set (h : k.Holds held) (pairs : List Pair) :
    (k.set pairs).state.Holds (heldNext held (.set pairs) (k.set pairs).result.isOk) := by
  rw [heldNext]
  cases hnegative : Pair.anyNegative pairs with
  | true =>
    rw [set_of_anyNegative hnegative, if_pos rfl]
    exact h
  | false =>
    rw [if_neg Bool.false_ne_true]
    have hready (hk : k.Ready) : (k.set pairs).Ends (·.Loaded (Pair.sort pairs)) (·.Holds none) := by
      rcases Nat.lt_or_ge Word.signedMax pairs.length with hlong | hlen
      · exact (hk.set_of_lt hnegative hlong).mono (fun _ ↦ False.elim) fun _ ↦ Or.inl
      · exact (hk.set hnegative hlen).mono (fun _ ↦ id) fun _ ↦ Or.inr
    have hends : (k.set pairs).Ends (·.Loaded (Pair.sort pairs)) (·.Holds none) := by
      cases held with
      | some ps => exact hready (Loaded.ready h)
      | none =>
        rcases h with hvacant | hjammed
        · exact hready hvacant.ready
        · exact (hjammed.set hnegative).mono (fun _ ↦ False.elim) fun _ hc ↦ Or.inr hc
    cases hresult : (k.set pairs).result with
    | ok a => exact hends.ok a hresult
    | error e => exact hends.error e hresult

theorem Holds.step (h : k.Holds held) (c : Call) :
    (k.step c).state.Holds (heldNext held c (k.step c).result.isOk) := by
  cases c with
  | set pairs =>
    rw [PairBlock.step, Outcome.state_map, Outcome.isOk_map]
    exact h.set pairs
  | get target => exact h.read (by simp)
  | toList => exact h.read (by simp)
  | lookup v => exact h.read (by simp)

/-! ## Histories -/

theorem Holds.toList_eq_ok_iff (h : k.Holds held) {ps : List Pair} :
    k.toList.result = .ok ps ↔ held = some ps := by
  cases held with
  | none =>
    obtain ⟨⟨e, herror⟩, -⟩ := toList_of_startReading h.startReading
    rw [herror]
    exact iff_of_false nofun nofun
  | some qs =>
    rw [(Loaded.toList h).1, Except.ok.injEq, Option.some.injEq]

theorem Holds.get_eq_ok_iff (h : k.Holds held) {target : List Pair} {n : Nat} :
    (k.get target).result = .ok n ↔
      ∃ ps, held = some ps ∧ ps.length ≤ target.length ∧ n = ps.length := by
  cases held with
  | none =>
    obtain ⟨⟨e, herror⟩, -⟩ := get_of_startReading h.startReading target
    rw [herror]
    exact iff_of_false nofun fun ⟨_, hps, _⟩ ↦ nomatch hps
  | some qs =>
    rcases Nat.lt_or_ge target.length qs.length with hlt | hle
    · obtain ⟨c, heq, -⟩ := Loaded.get_of_lt h hlt
      rw [heq]
      refine iff_of_false nofun ?_
      rintro ⟨ps, ⟨⟩, hle, -⟩
      exact absurd hle (Nat.not_le.mpr hlt)
    · rw [(Loaded.get_of_le h hle).1]
      constructor
      · rintro ⟨⟩
        exact ⟨qs, rfl, hle, rfl⟩
      · rintro ⟨ps, ⟨⟩, -, rfl⟩
        rfl

/-- Block and account are in step after any history of a fresh block. -/
theorem holds_after (size : RunLength.Preset) (codec : Codec) (calls : List Call) :
    (Outcome.after PairBlock.step (ofPreset size codec) calls).Holds
      (Outcome.account PairBlock.step heldNext (ofPreset size codec) none calls) := by
  have hfresh : (ofPreset size codec).Holds none := Or.inl (vacant_ofPreset size codec)
  exact Outcome.account_after (P := Holds) (fun _ _ c h ↦ Holds.step h c) hfresh calls

/-- **A block never shows stale pairs.** After any history of calls on a fresh block, a read of the
block answers exactly if the account of the history names the pairs that the block must hold, and
then it gives these pairs: as a list of their own, or in the first slots of a target that is long
enough. A target that is too short is left as it was. A list with a negative primary id is rejected
and changes nothing. -/
theorem read_after_calls (size : RunLength.Preset) (codec : Codec) (calls : List Call) :
    let k := Outcome.after step (ofPreset size codec) calls
    let held := Outcome.account step heldNext (ofPreset size codec) none calls
    (∀ ps, k.toList.result = .ok ps ↔ held = some ps) ∧
      (∀ target n, (k.get target).result = .ok n ↔
        ∃ ps, held = some ps ∧ ps.length ≤ target.length ∧ n = ps.length) ∧
      (∀ target ps, held = some ps → ps.length ≤ target.length →
        (k.get target).state.2 = ps ++ target.drop ps.length) ∧
      (∀ target ps, held = some ps → target.length < ps.length →
        (k.get target).result = .error (.decode .pairCountExceedsTarget) ∧
          (k.get target).state.2 = target) ∧
      ∀ pairs, Pair.anyNegative pairs = true →
        k.set pairs = .fail k (.invalid .negativePrimary) [] := by
  intro k held
  have hholds : k.Holds held := holds_after size codec calls
  have hloaded (ps : List Pair) (hps : held = some ps) : k.Loaded ps := by
    rw [hps] at hholds
    exact hholds
  refine ⟨fun ps ↦ hholds.toList_eq_ok_iff, fun target n ↦ hholds.get_eq_ok_iff, ?_, ?_,
    fun pairs ↦ set_of_anyNegative⟩
  · intro target ps hps hle
    exact ((hloaded ps hps).get_of_le hle).2.1
  · intro target ps hps hlt
    obtain ⟨c, heq, -⟩ := (hloaded ps hps).get_of_lt hlt
    rw [heq]
    exact ⟨rfl, rfl⟩

-- A rejected list does not disturb the pairs held, and a list that fails halfway leaves nothing.
example : (Outcome.after step (ofPreset .small .base128)
    [.set [⟨3, 4⟩], .set [⟨-1, 0⟩], .lookup 3]).toList.result = .ok [⟨3, 4⟩] := by
  decide +kernel

example : (Outcome.after step (ofPreset .small .base128)
    [.set [⟨3, 4⟩], .set [⟨Int64.maxValue, 0⟩], .set [⟨3, 4⟩]]).toList.result
      = .error (.sequencing .readBeforeSet) := by
  decide +kernel

end PairBlock

end Adjacency
