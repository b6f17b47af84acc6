import Adjacency.Proofs.PairBlock.History
import Adjacency.Proofs.RunLength.Alike

/-!
# When a block can be refilled

A block that holds pairs, or was never written to, takes the lists that a fresh block takes and
refuses the others for the same reasons: both write passes start over, and what earlier passes left
in the buffers is not looked at (`Ready.set_agree`). A `set` that fails once it has begun to write
spoils the block. One of the buffers is stuck in its write pass then, and since a new `set` goes on
with a write pass that it finds, it fails as well, whatever the list.

So from a history it can be told whether the next list is taken as by a fresh block or refused
(`set_eq_fresh_iff`).
-/

namespace Adjacency

namespace PairBlock

open RunLength (Buffer Preset Streak headerLen)

variable {k l : PairBlock} {pairs : List Pair}

/-! ## Blocks that write alike -/

/-- The buffers of the two blocks write alike. -/
structure Alike (k l : PairBlock) : Prop where
  primary : k.primary.Alike l.primary
  secondary : k.secondary.Alike l.secondary

theorem Alike.on {α : Type} {call : Buffer → Outcome Buffer α}
    (hcall : ∀ b c : Buffer, b.Alike c → (call b).Agree (call c) Buffer.Alike) (h : k.Alike l)
    (side : Side) : (k.on side call).Agree (l.on side call) Alike := by
  cases side with
  | primary =>
    have hcalls := hcall _ _ h.primary
    exact ⟨hcalls.result, hcalls.state, h.secondary⟩
  | secondary =>
    have hcalls := hcall _ _ h.secondary
    exact ⟨hcalls.result, h.primary, hcalls.state⟩

theorem Alike.write (h : k.Alike l) (ps : List Pair) : (k.write ps).Agree (l.write ps) Alike := by
  have hstart : Alike ⟨k.primary, k.secondary, 0, lastOf ps⟩ ⟨l.primary, l.secondary, 0, lastOf ps⟩ :=
    ⟨h.primary, h.secondary⟩
  have htoggle (b c : Buffer) (hbc : b.Alike c) : b.toggle.Agree c.toggle Buffer.Alike :=
    hbc.toggle
  rw [PairBlock.write, PairBlock.write]
  split
  · exact ⟨rfl, hstart⟩
  · refine (Outcome.run_agree ?_ hstart (script ps)).andThen ?_
    · rintro c d ⟨side, v⟩ hcd
      exact hcd.on (fun _ _ hbc ↦ hbc.store v) side
    · intro c d _ hcd
      refine ((hcd.on htoggle .primary).andThen fun _ _ _ hcd ↦
        hcd.on htoggle .secondary).andThen ?_
      intro c d _ hcd
      exact ⟨rfl, hcd.primary, hcd.secondary⟩

theorem Vacant.alike (hk : k.Vacant) (hl : l.Vacant) (hkept : k.Kept l) : k.Alike l where
  primary := hk.primary.alike hl.primary hkept.primary.codec hkept.primary.signedness
    hkept.primary.size
  secondary := hk.secondary.alike hl.secondary hkept.secondary.codec hkept.secondary.signedness
    hkept.secondary.size

/-- **Blocks of the same make that are ready take the same lists,** and refuse the others for the
same reasons. -/
theorem Ready.set_agree (hk : k.Ready) (hl : l.Ready) (hkept : k.Kept l) (pairs : List Pair) :
    (k.set pairs).result = (l.set pairs).result := by
  cases hnegative : Pair.anyNegative pairs with
  | true =>
    rw [set_of_anyNegative hnegative, set_of_anyNegative hnegative]
    rfl
  | false =>
    obtain ⟨_, hok, hvacant⟩ := hk.beginWriting.answers
    obtain ⟨_, hok', hvacant'⟩ := hl.beginWriting.answers
    have hsame : k.beginWriting.state.Kept l.beginWriting.state :=
      (Kept.refl k).beginWriting.state.symm.trans (hkept.beginWriting.state)
    have hbegin : k.beginWriting.Agree l.beginWriting Alike :=
      ⟨hok.trans hok'.symm, hvacant.alike hvacant' hsame⟩
    rw [set_of_nonneg hnegative, set_of_nonneg hnegative]
    exact (hbegin.andThen fun _ _ _ hcd ↦ hcd.write (Pair.sort pairs)).result

/-! ## Spoiled blocks -/

/-- Whether a block is spoiled after a call that answered or failed, if it was or was not before. A
list with a negative primary id, and one that is too long, is refused before it is written. -/
def spoiledNext (spoiled : Bool) (c : Call) (answered : Bool) : Bool :=
  match c with
  | .set pairs =>
    spoiled || !(answered || Pair.anyNegative pairs || decide (Word.signedMax < pairs.length))
  | _ => spoiled

/-- The block is jammed if it is spoiled, and holds pairs or was never written to otherwise. -/
def Fares (k : PairBlock) : (spoiled : Bool) → Prop
  | true => k.Jammed
  | false => k.Vacant ∨ ∃ ps, k.Loaded ps

theorem Fares.refuses (h : k.Fares true) (pairs : List Pair) :
    ∃ cause, (k.set pairs).result = .error cause := by
  cases hnegative : Pair.anyNegative pairs with
  | true =>
    rw [set_of_anyNegative hnegative]
    exact ⟨_, rfl⟩
  | false =>
    have hset := Jammed.set h hnegative
    cases hresult : (k.set pairs).result with
    | ok a => exact absurd (hset.ok a hresult) id
    | error cause => exact ⟨cause, rfl⟩

theorem Fares.ready (h : k.Fares false) : k.Ready := by
  rcases h with hvacant | ⟨ps, hloaded⟩
  · exact hvacant.ready
  · exact hloaded.ready

theorem Fares.read {spoiled : Bool} (h : k.Fares spoiled) {c : Call}
    (hread : ∀ pairs, c ≠ .set pairs) : (k.step c).state.Fares spoiled := by
  cases spoiled with
  | true => exact step_of_startReading (Jammed.startReading h) h hread
  | false =>
    rcases h with hvacant | ⟨ps, hloaded⟩
    · exact Or.inl (step_of_startReading hvacant.startReading hvacant hread)
    · exact Or.inr ⟨ps, hloaded.step hread⟩

theorem Fares.set {spoiled : Bool} (h : k.Fares spoiled) (pairs : List Pair) :
    (k.set pairs).state.Fares (spoiledNext spoiled (.set pairs) (k.set pairs).result.isOk) := by
  rw [spoiledNext]
  cases hnegative : Pair.anyNegative pairs with
  | true =>
    rw [set_of_anyNegative hnegative, Bool.or_true, Bool.true_or, Bool.not_true, Bool.or_false]
    exact h
  | false =>
    cases spoiled with
    | true => exact ((Jammed.set h hnegative).mono (fun _ ↦ False.elim) fun _ ↦ id).state
    | false =>
      rw [Bool.or_false, Bool.false_or]
      rcases Nat.lt_or_ge Word.signedMax pairs.length with hlong | hlen
      · rw [decide_eq_true hlong, Bool.or_true]
        exact ((h.ready.set_of_lt hnegative hlong).mono (fun _ ↦ False.elim) fun _ ↦ Or.inl).state
      · have hends := h.ready.set hnegative hlen
        rw [decide_eq_false (Nat.not_lt.mpr hlen), Bool.or_false]
        cases hresult : (k.set pairs).result with
        | ok a => exact Or.inr ⟨_, hends.ok a hresult⟩
        | error e => exact hends.error e hresult

theorem Fares.step {spoiled : Bool} (h : k.Fares spoiled) (c : Call) :
    (k.step c).state.Fares (spoiledNext spoiled c (k.step c).result.isOk) := by
  cases c with
  | set pairs =>
    rw [PairBlock.step, Outcome.state_map, Outcome.isOk_map]
    exact h.set pairs
  | get target => exact h.read (by simp)
  | toList => exact h.read (by simp)
  | lookup primary => exact h.read (by simp)

/-! ## Fresh blocks -/

/-- The empty list is written as a run of two zeros, its last primary id and its length. -/
theorem length_code_zeros_le (codec : Codec) : (Streak.code codec .unsigned ⟨0, 2⟩).length ≤ 5 := by
  have hcode : Streak.code codec .unsigned ⟨0, 2⟩ = codec.codes .unsigned [0, 3, 1] := rfl
  rw [hcode, Codec.codes_cons, Codec.codes_cons, Codec.codes_singleton, List.length_append,
    List.length_append, Codec.length_code, Codec.length_code, Codec.length_code]
  cases codec <;> decide +kernel

theorem write_nil {b c d : Buffer} {count : Nat} {last : Int64}
    (hstore : (PairBlock.mk b c 0 0).storeAll (script []) = .done ⟨d, c, 0, 0⟩ ())
    (hd : d.toggle.result = .ok ()) (hc : c.toggle.result = .ok ()) :
    ((PairBlock.mk b c count last).write []).result = .ok () := by
  have hd' : d.toggle.Ends (fun _ ↦ True) fun _ ↦ False := .of_ok hd trivial
  have hc' : c.toggle.Ends (fun _ ↦ True) fun _ ↦ False := .of_ok hc trivial
  have hend : (endWriting ⟨d, c, 0, 0⟩).Ends (fun _ ↦ True) fun _ ↦ False :=
    (on_both_ends (k := ⟨d, c, 0, 0⟩) hd' hc').mono (fun _ _ ↦ trivial) fun _ hfail ↦
      hfail.elim id id
  have hcount : ((endWriting ⟨d, c, 0, 0⟩).andThen fun k _ ↦
      Outcome.done { k with count := 0 } ()).Ends (fun _ ↦ True) fun _ ↦ False :=
    hend.andThen fun _ _ _ ↦ .of_ok rfl trivial
  obtain ⟨_, hok, -⟩ := hcount.answers
  have hlen : ¬ Word.signedMax < ([] : List Pair).length := Nat.not_lt_zero _
  rw [PairBlock.write, if_neg hlen]
  show (((PairBlock.mk b c 0 0).storeAll (script [])).andThen _).result = .ok ()
  rw [hstore, Outcome.done_andThen]
  exact hok

theorem set_nil_ofBytes {bytes₁ bytes₂ : Array UInt8} (codec : Codec)
    (hroom : headerLen + 5 ≤ bytes₁.size) :
    ((PairBlock.mk (.ofBytes bytes₁ codec .unsigned) (.ofBytes bytes₂ codec .signed) 0 0).set
      []).result = .ok () := by
  let b : Buffer := { Buffer.ofBytes bytes₁ codec .unsigned with pending := 2 }
  let c : Buffer := Buffer.ofBytes bytes₂ codec .signed
  have hbegin : (PairBlock.mk (.ofBytes bytes₁ codec .unsigned) c 0 0).beginWriting
      = .done ⟨.ofBytes bytes₁ codec .unsigned, c, 0, 0⟩ () := rfl
  have hstore : (PairBlock.mk (.ofBytes bytes₁ codec .unsigned) c 0 0).storeAll (script [])
      = .done ⟨b, c, 0, 0⟩ () := rfl
  have hfits : (Streak.mk 0 2).Fits := by constructor <;> decide
  have hflush : b.CanFlush :=
    ⟨hfits, Nat.le_trans (Nat.add_le_add_left (length_code_zeros_le codec) headerLen) hroom⟩
  rw [set_of_nonneg rfl, show Pair.sort [] = [] from List.mergeSort_nil, hbegin,
    Outcome.done_andThen]
  exact write_nil hstore (Buffer.toggle_of_canFlush rfl Nat.zero_lt_two hflush) rfl

theorem set_nil_ofPreset (size : Preset) (codec : Codec) :
    ((ofPreset size codec).set []).result = .ok () := by
  refine set_nil_ofBytes codec ?_
  rw [Preset.size_allocate]
  cases size <;> decide

/-! ## Histories -/

/-- The account tells whether the block is spoiled. The block is still of the make of a fresh one. -/
theorem fares_after (size : Preset) (codec : Codec) (calls : List Call) :
    (ofPreset size codec).Kept (Outcome.after step (ofPreset size codec) calls) ∧
      (Outcome.after step (ofPreset size codec) calls).Fares
        (Outcome.account step spoiledNext (ofPreset size codec) false calls) := by
  have hfresh : (ofPreset size codec).Fares false := Or.inl (vacant_ofPreset size codec)
  refine Outcome.account_after (P := fun k spoiled ↦ (ofPreset size codec).Kept k ∧ k.Fares spoiled)
    ?_ ⟨.refl _, hfresh⟩ calls
  rintro k spoiled c ⟨hkept, hfares⟩
  exact ⟨hkept.step c, hfares.step c⟩

/-- **A block is refilled like a fresh one unless an earlier `set` failed while it was writing.** Up
to then every list comes to the same result as on a fresh block of the same make. From then on every
list is refused, also those that a fresh block takes. -/
theorem set_eq_fresh_iff (size : Preset) (codec : Codec) (calls : List Call) :
    let fresh := ofPreset size codec
    let k := Outcome.after step fresh calls
    let spoiled := Outcome.account step spoiledNext fresh false calls
    (spoiled = false → ∀ pairs, (k.set pairs).result = (fresh.set pairs).result) ∧
      (spoiled = true → ∀ pairs, ∃ cause, (k.set pairs).result = .error cause) ∧
      ((∀ pairs, (k.set pairs).result.isOk = (fresh.set pairs).result.isOk) ↔ spoiled = false) := by
  intro fresh k spoiled
  obtain ⟨hkept, hfares⟩ := fares_after size codec calls
  have hfine (hspoiled : spoiled = false) (pairs : List Pair) :
      (k.set pairs).result = (fresh.set pairs).result := by
    have hready : k.Fares false := hspoiled ▸ hfares
    exact hready.ready.set_agree (vacant_ofPreset size codec).ready hkept.symm pairs
  have hrefused (hspoiled : spoiled = true) (pairs : List Pair) :
      ∃ cause, (k.set pairs).result = .error cause := by
    have hjammed : k.Fares true := hspoiled ▸ hfares
    exact hjammed.refuses pairs
  refine ⟨hfine, hrefused, ?_, fun hspoiled pairs ↦ congrArg _ (hfine hspoiled pairs)⟩
  intro hsame
  rw [← Bool.not_eq_true]
  intro hspoiled
  obtain ⟨cause, herror⟩ := hrefused hspoiled []
  have hnil := hsame []
  rw [herror, set_nil_ofPreset] at hnil
  exact Bool.false_ne_true hnil

/-- **A list that cannot be written spoils the block:** the list that the fresh block takes is
refused afterwards. -/
theorem set_after_failed_set :
    let fresh := ofPreset .small .base128
    let k := Outcome.after step fresh [.set [⟨Int64.maxValue, 0⟩]]
    (fresh.set [⟨3, 4⟩]).result = .ok () ∧
      (k.set [⟨3, 4⟩]).result = .error (.invalid .outsideRunRange) := by
  decide +kernel

end PairBlock

end Adjacency
