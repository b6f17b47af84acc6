import Adjacency.Proofs.RunLength.Alike
import Adjacency.Proofs.RunLength.Cost
import Adjacency.Proofs.RunLength.FailStop
import Adjacency.Proofs.RunLength.Frame

/-!
# Which lists a buffer takes

A buffer finds the runs of a list while it is being filled, and writes each of them when the next one
begins. What it has written and what is pending are the maximal runs of the values so far
(`Filling`), so whether the pending run can be written is a matter of what these values cost
(`Filling.canFlush_iff`). A run that cannot be written makes a later call fail. No list is taken
therefore that does not fit, and every list that fits and has no value out of range is
(`accepts_iff`).
-/

namespace Adjacency

namespace RunLength

/-- The values that can be written. The largest number has no image under the bias, nor has the
least one, and an unsigned buffer takes no negative ones. -/
def Admissible (s : Signedness) (v : Int64) : Prop :=
  v ≠ Int64.maxValue ∧ match s with
    | .signed => v ≠ Int64.minValue
    | .unsigned => 0 ≤ v

instance (s : Signedness) (v : Int64) : Decidable (Admissible s v) :=
  match s with
  | .signed => inferInstanceAs (Decidable (v ≠ Int64.maxValue ∧ v ≠ Int64.minValue))
  | .unsigned => inferInstanceAs (Decidable (v ≠ Int64.maxValue ∧ 0 ≤ v))

theorem admissible_iff {s : Signedness} {v : Int64} :
    Admissible s v ↔
      (s = .unsigned → 0 ≤ v.toInt) ∧ -2 ^ 63 ≤ away v.toInt ∧ away v.toInt < 2 ^ 63 := by
  have hge := v.le_toInt
  have hlt := v.toInt_lt
  have hmax : v ≠ Int64.maxValue ↔ v.toInt ≠ 2 ^ 63 - 1 := by
    rw [← Int64.toInt_maxValue]
    exact Int64.toInt_inj.symm.not
  have hmin : v ≠ Int64.minValue ↔ v.toInt ≠ -2 ^ 63 := by
    rw [← Int64.toInt_minValue]
    exact Int64.toInt_inj.symm.not
  have hnonneg : 0 ≤ v ↔ 0 ≤ v.toInt := Int64.le_iff_toInt_le
  rw [away]
  rcases s with _ | _
  · simp only [Admissible, hmax, hnonneg, forall_const]
    split <;> omega
  · simp only [Admissible, hmax, hmin, reduceCtorEq, false_implies, true_and]
    split <;> omega

namespace Buffer

variable {b c : Buffer} {vs more : List Int64} {v : Int64}

/-- The buffer is in a write pass and has accepted the given values, of whose maximal runs the last
is pending and the others are written. -/
def Filling (b : Buffer) (vs : List Int64) : Prop :=
  ∃ rs, b.Writing rs ∧ Streak.Maximal (rs ++ [b.pendingRun]) ∧
    vs = Streak.valuesAll (rs ++ [b.pendingRun])

theorem Filling.mode (h : b.Filling vs) : b.mode = .write := by
  obtain ⟨rs, hw, -⟩ := h
  exact hw.mode

theorem Filling.pending_pos (h : b.Filling vs) : 0 < b.pending := by
  obtain ⟨rs, -, hmax, -⟩ := h
  exact hmax.count_pos b.pendingRun (List.mem_append_right _ (List.mem_singleton_self _))

theorem Filling.getLast?_eq (h : b.Filling vs) : vs.getLast? = some b.last := by
  have hpos := h.pending_pos
  obtain ⟨rs, -, -, rfl⟩ := h
  have hne : b.pendingRun.count ≠ 0 := Nat.ne_of_gt hpos
  rw [Streak.valuesAll_concat, Streak.values, List.getLast?_append, List.getLast?_replicate,
    if_neg hne]
  rfl

theorem Filling.mem_runs (h : b.Filling vs) : b.pendingRun ∈ Streak.runs vs := by
  obtain ⟨rs, -, hmax, rfl⟩ := h
  rw [Streak.runs_valuesAll hmax]
  exact List.mem_append_right rs (List.mem_singleton_self _)

theorem Filling.run_lt (h : b.Filling vs) (hlt : b.pending < 2 ^ 63 - 1) :
    ∀ r ∈ Streak.runs vs, r.count < 2 ^ 63 - 1 := by
  obtain ⟨rs, hw, hmax, rfl⟩ := h
  rw [Streak.runs_valuesAll hmax]
  intro r hr
  rcases List.mem_append.mp hr with hr | hr
  · have hcount := (hw.valid r hr).fits.count_lt
    rw [away_natCast] at hcount
    omega
  · rw [List.mem_singleton.mp hr]
    exact hlt

/-- **The pending run can be written if its value is admissible, its length can be written and there
is room for the values so far.** -/
theorem Filling.canFlush_iff (h : b.Filling vs) :
    b.CanFlush ↔ (Admissible b.signedness b.last ∧ b.pending < 2 ^ 63 - 1) ∧
      headerLen + Streak.costAll b.codec b.signedness vs ≤ b.bytes.size := by
  have hpos := h.pending_pos
  obtain ⟨rs, hw, hmax, rfl⟩ := h
  have hend : headerLen + Streak.costAll b.codec b.signedness
      (Streak.valuesAll (rs ++ [b.pendingRun]))
        = b.pos + (b.pendingRun.code b.codec b.signedness).length := by
    rw [← Streak.length_codeAll hmax, Streak.codeAll_concat, List.length_append, hw.pos_eq,
      Nat.add_assoc]
  rw [hend, admissible_iff]
  constructor
  · intro hflush
    have hcount : 1 < b.pending → (b.pending : Int) + 1 < 2 ^ 63 := by
      rw [← away_natCast]
      exact hflush.fits.count_lt
    exact ⟨⟨⟨hw.nonneg hpos, hflush.fits.value_ge, hflush.fits.value_lt⟩, by omega⟩, hflush.room⟩
  · rintro ⟨⟨⟨-, hge, hvalue⟩, hlt⟩, hroom⟩
    refine ⟨⟨hge, hvalue, fun _ ↦ ?_⟩, hroom⟩
    rw [away_natCast]
    show (b.pending : Int) + 1 < 2 ^ 63
    omega

theorem Filling.store (h : b.Filling vs) (haccept : ¬ b.Rejects (.store v))
    (hnext : v = b.last ∨ b.CanFlush) :
    ∃ c, b.store v = .done c () ∧ c.Filling (vs ++ [v]) ∧ c.last = v := by
  have hpos := h.pending_pos
  have hnonneg := not_rejects_store.mp haccept
  rw [store_of_not_rejects h.mode haccept]
  obtain ⟨rs, hw, hmax, rfl⟩ := h
  by_cases hsame : v = b.last
  · rw [if_pos ⟨hpos, hsame⟩]
    refine ⟨_, rfl, ⟨rs, ⟨hw.mode, hw.standsAt, hw.pos_eq, hw.used_eq, hw.stored_eq, hw.valid,
      fun _ ↦ hw.nonneg hpos⟩, hmax.grow, ?_⟩, hsame.symm⟩
    rw [Streak.valuesAll_concat, Streak.valuesAll_concat, List.append_assoc, hsame]
    congr 1
    exact List.replicate_succ'.symm
  · have hflush := hnext.resolve_left hsame
    rw [if_neg fun hrun ↦ hsame hrun.2, flush_of_canFlush hw.mode hpos hflush,
      Outcome.done_andThen]
    have hw' := hw.flushed hpos hflush
    refine ⟨_, rfl, ⟨rs ++ [b.pendingRun], ⟨hw'.mode, hw'.standsAt, hw'.pos_eq, hw'.used_eq,
      hw'.stored_eq, hw'.valid, fun _ ↦ hnonneg⟩, hmax.concat hsame, ?_⟩, rfl⟩
    rw [Streak.valuesAll_concat (rs ++ [b.pendingRun])]
    rfl

/-- **A value is stored unless it is rejected or the pending run cannot be written before it.** -/
theorem Filling.store_cases (h : b.Filling vs) (v : Int64) :
    (∃ c, b.store v = .done c () ∧ c.Filling (vs ++ [v]) ∧ c.last = v ∧ b.Kept c ∧
      (v = b.last ∨ b.CanFlush)) ∨
    ((b.store v).result ≠ .ok () ∧
      (b.Rejects (.store v) ∨ v ≠ b.last ∧ ¬ b.CanFlush)) := by
  by_cases hreject : b.Rejects (.store v)
  · obtain ⟨cause, heq, -⟩ := step_of_rejects h.mode hreject
    have herror : (b.store v).result = .error cause :=
      Outcome.result_map_eq_error.mp (congrArg Outcome.result heq)
    exact Or.inr ⟨by rw [herror]; exact nofun, Or.inl hreject⟩
  by_cases hnext : v = b.last ∨ b.CanFlush
  · obtain ⟨c, heq, hc, hlast⟩ := h.store hreject hnext
    have hkept := kept_store b v
    rw [heq] at hkept
    exact Or.inl ⟨c, heq, hc, hlast, hkept, hnext⟩
  · obtain ⟨hne, hflush⟩ := not_or.mp hnext
    obtain ⟨cause, herror⟩ := (Stuck.mk h.mode h.pending_pos hflush).step_other hreject
      (fun hsame ↦ hne (Call.store.inj hsame))
    rw [step, Outcome.result_map_eq_error] at herror
    exact Or.inr ⟨by rw [herror]; exact nofun, Or.inr ⟨hne, hflush⟩⟩

theorem Filling.toggle (h : b.Filling vs) (hflush : b.CanFlush) :
    b.toggle.result = .ok () ∧
      b.toggle.state.used = Streak.costAll b.codec b.signedness vs ∧
      b.toggle.state.stored = vs.length := by
  have hpos := h.pending_pos
  obtain ⟨rs, hw, hmax, rfl⟩ := h
  have hw' := hw.flushed hpos hflush
  rw [toggle_of_write hw.mode, flush_of_canFlush hw.mode hpos hflush, Outcome.done_andThen]
  refine ⟨rfl, ?_, hw'.stored_eq⟩
  rw [← Streak.length_codeAll hmax]
  exact hw'.used_eq

/-- The calls that store a list and end the pass. -/
def fill (vs : List Int64) : List Call := vs.map .store ++ [.toggle]

/-- All calls that store the list and end the pass answer. -/
def Takes (b : Buffer) (vs : List Int64) : Prop :=
  ∀ r ∈ Outcome.results step b (fill vs), r = .ok .done

theorem result_map_done {o : Outcome Buffer Unit} :
    (o.map fun _ ↦ Answer.done).result = .ok .done ↔ o.result = .ok () := by
  rcases o with ⟨e | u, c, events⟩
  · exact iff_of_false nofun nofun
  · exact iff_of_true rfl rfl

theorem takes_nil : b.Takes [] ↔ b.toggle.result = .ok () := by
  rw [Takes, fill, List.map_nil, List.nil_append, Outcome.results, Outcome.results,
    List.forall_mem_singleton]
  exact result_map_done

theorem takes_cons : b.Takes (v :: vs) ↔
    (b.store v).result = .ok () ∧ (b.store v).state.Takes vs := by
  rw [Takes, fill, List.map_cons, List.cons_append, Outcome.results, List.forall_mem_cons]
  exact and_congr_left' result_map_done

theorem after_fill_cons (h : b.store v = .done c ()) :
    Outcome.after step b (fill (v :: vs)) = Outcome.after step c (fill vs) := by
  show Outcome.after step (b.store v).state (fill vs) = _
  rw [h]
  rfl

theorem Filling.toggle_iff (h : b.Filling vs) : b.toggle.result = .ok () ↔ b.CanFlush := by
  constructor
  · intro hok
    by_contra hflush
    obtain ⟨⟨cause, herror⟩, -⟩ := (Stuck.mk h.mode h.pending_pos hflush).toggle
    rw [hok] at herror
    exact nomatch herror
  · intro hflush
    exact (h.toggle hflush).1

theorem not_admissible_of_rejects (h : b.Rejects (.store v)) : ¬ Admissible b.signedness v := by
  rw [admissible_iff]
  exact fun hv ↦ not_rejects_store.mpr hv.1 h

theorem Filling.apart (h : b.Filling vs) (hne : v ≠ b.last) (more : List Int64) :
    ∀ w ∈ vs.getLast?, ∀ w' ∈ (v :: more).head?, w ≠ w' := by
  intro w hw w' hw'
  rw [h.getLast?_eq] at hw
  obtain rfl : b.last = w := Option.some.inj hw
  obtain rfl : v = w' := Option.some.inj hw'
  exact hne.symm

theorem Filling.takes_iff (h : b.Filling vs) :
    b.Takes more ↔ (Admissible b.signedness b.last ∧ ∀ v ∈ more, Admissible b.signedness v) ∧
      (∀ r ∈ Streak.runs (vs ++ more), r.count < 2 ^ 63 - 1) ∧
      headerLen + Streak.costAll b.codec b.signedness (vs ++ more) ≤ b.bytes.size := by
  induction more generalizing b vs with
  | nil =>
    rw [List.append_nil, takes_nil, h.toggle_iff, h.canFlush_iff]
    constructor
    · rintro ⟨⟨hlast, hlt⟩, hroom⟩
      exact ⟨⟨hlast, List.forall_mem_nil _⟩, h.run_lt hlt, hroom⟩
    · rintro ⟨⟨hlast, -⟩, hruns, hroom⟩
      exact ⟨⟨hlast, hruns _ h.mem_runs⟩, hroom⟩
  | cons v more ih =>
    rw [takes_cons, List.forall_mem_cons]
    rcases h.store_cases v with ⟨c, heq, hc, hlast, hkept, hnext⟩ | ⟨hfails, hreject | hstuck⟩
    · have hrest := ih hc
      rw [hlast, hkept.codec, hkept.signedness, hkept.size] at hrest
      -- The value pending before is admissible: it is the new one, or it has been written.
      have hpending (hv : Admissible b.signedness v) : Admissible b.signedness b.last := by
        rcases hnext with hsame | hflush
        · exact hsame ▸ hv
        · exact (h.canFlush_iff.mp hflush).1.1
      rw [List.append_cons, heq]
      constructor
      · rintro ⟨-, htakes⟩
        obtain ⟨⟨hv, hmore⟩, hfits⟩ := hrest.mp htakes
        exact ⟨⟨hpending hv, hv, hmore⟩, hfits⟩
      · rintro ⟨⟨-, hv⟩, hfits⟩
        exact ⟨rfl, hrest.mpr ⟨hv, hfits⟩⟩
    · refine iff_of_false (fun htakes ↦ hfails htakes.1) ?_
      exact fun hall ↦ not_admissible_of_rejects hreject hall.1.2.1
    · obtain ⟨hne, hflush⟩ := hstuck
      refine iff_of_false (fun htakes ↦ hfails htakes.1) ?_
      rintro ⟨⟨hlast, -⟩, hruns, hroom⟩
      -- The pending run is one of all runs, and the values so far cost no more than all values.
      have hrun : b.pendingRun ∈ Streak.runs (vs ++ v :: more) := by
        rw [Streak.runs_append (h.apart hne more)]
        exact List.mem_append_left _ h.mem_runs
      have hcost := Streak.costAll_le_append (c := b.codec) (s := b.signedness) (h.apart hne more)
      exact hflush (h.canFlush_iff.mpr ⟨⟨hlast, hruns _ hrun⟩, by omega⟩)

/-- **What is told of a list that was taken:** the bytes that it takes, and how many values it has. -/
theorem Filling.after_fill (h : b.Filling vs) (htakes : b.Takes more) :
    (Outcome.after step b (fill more)).used
        = Streak.costAll b.codec b.signedness (vs ++ more) ∧
      (Outcome.after step b (fill more)).stored = (vs ++ more).length := by
  induction more generalizing b vs with
  | nil =>
    rw [List.append_nil]
    exact (h.toggle (h.toggle_iff.mp (takes_nil.mp htakes))).2
  | cons v more ih =>
    obtain ⟨hok, hmore⟩ := takes_cons.mp htakes
    rcases h.store_cases v with ⟨c, heq, hc, -, hkept, -⟩ | ⟨hfails, -⟩
    · rw [heq] at hmore
      have hrest := ih hc hmore
      rw [List.append_cons, after_fill_cons heq, ← hkept.codec, ← hkept.signedness]
      exact hrest
    · exact absurd hok hfails

/-! ## From the start of a pass -/

theorem Accepted.store_first (h : b.Accepted []) (haccept : ¬ b.Rejects (.store v)) :
    ∃ c, b.store v = .done c () ∧ c.Filling [v] ∧ c.last = v ∧ b.Kept c := by
  obtain ⟨hw, hzero⟩ := h.unwritten
  have hnonneg := not_rejects_store.mp haccept
  have hrun : ¬ (0 < b.pending ∧ v = b.last) := by
    rw [hzero]
    exact fun hpos ↦ absurd hpos.1 (Nat.lt_irrefl 0)
  rw [store_of_not_rejects h.mode haccept, if_neg hrun, flush_of_pending_eq_zero hzero,
    Outcome.done_andThen]
  refine ⟨_, rfl, ⟨[], ⟨hw.mode, hw.standsAt, hw.pos_eq, hw.used_eq, hw.stored_eq, hw.valid,
    fun _ ↦ hnonneg⟩, ⟨?_, List.isChain_singleton v⟩, rfl⟩, rfl, rfl, rfl, rfl⟩
  intro r hr
  rw [List.mem_singleton.mp hr]
  exact Nat.one_pos

/-- The empty list is taken and takes no bytes. -/
theorem Accepted.toggle_first (h : b.Accepted []) :
    b.toggle.result = .ok () ∧ b.toggle.state.used = 0 ∧ b.toggle.state.stored = 0 := by
  obtain ⟨hw, hzero⟩ := h.unwritten
  rw [toggle_of_write h.mode, flush_of_pending_eq_zero hzero, Outcome.done_andThen]
  exact ⟨rfl, hw.used_eq, hw.stored_eq⟩

/-- **What a buffer takes from the start of a pass.** -/
theorem Accepted.takes_iff_fits (h : b.Accepted []) :
    (b.Takes vs ↔ (∀ v ∈ vs, Admissible b.signedness v) ∧
      (∀ r ∈ Streak.runs vs, r.count < 2 ^ 63 - 1) ∧
      (vs = [] ∨ headerLen + Streak.costAll b.codec b.signedness vs ≤ b.bytes.size)) ∧
    (b.Takes vs →
      (Outcome.after Buffer.step b (fill vs)).used = Streak.costAll b.codec b.signedness vs ∧
        (Outcome.after Buffer.step b (fill vs)).stored = vs.length) := by
  rcases vs with _ | ⟨v, more⟩
  · obtain ⟨hok, hused, hstored⟩ := h.toggle_first
    refine ⟨iff_of_true (takes_nil.mpr hok) ⟨nofun, nofun, Or.inl rfl⟩, ?_⟩
    exact fun _ ↦ ⟨hused, hstored⟩
  by_cases hreject : b.Rejects (.store v)
  · obtain ⟨cause, heq, -⟩ := step_of_rejects h.mode hreject
    have hfails : ¬ b.Takes (v :: more) := by
      rw [takes_cons, Outcome.result_map_eq_error.mp (congrArg Outcome.result heq)]
      exact fun htakes ↦ nomatch htakes.1
    refine ⟨iff_of_false hfails ?_, fun htakes ↦ absurd htakes hfails⟩
    exact fun hall ↦ not_admissible_of_rejects hreject (hall.1 v List.mem_cons_self)
  · obtain ⟨c, heq, hc, hlast, hkept⟩ := h.store_first hreject
    have htakes : b.Takes (v :: more) ↔ c.Takes more := by
      rw [takes_cons, heq]
      exact and_iff_right rfl
    rw [htakes, after_fill_cons heq, ← hkept.codec, ← hkept.signedness, ← hkept.size]
    refine ⟨?_, hc.after_fill⟩
    rw [hc.takes_iff, hlast, List.forall_mem_cons, or_iff_right (List.cons_ne_nil v more)]
    exact Iff.rfl

/-- The same of a list that is too short for a run whose length cannot be written. -/
theorem Accepted.takes_iff (h : b.Accepted []) (hlt : vs.length < 2 ^ 63 - 1) :
    (b.Takes vs ↔ (∀ v ∈ vs, Admissible b.signedness v) ∧
      (vs = [] ∨ headerLen + Streak.costAll b.codec b.signedness vs ≤ b.bytes.size)) ∧
    (b.Takes vs →
      (Outcome.after Buffer.step b (fill vs)).used = Streak.costAll b.codec b.signedness vs ∧
        (Outcome.after Buffer.step b (fill vs)).stored = vs.length) := by
  have hruns : ∀ r ∈ Streak.runs vs, r.count < 2 ^ 63 - 1 := fun r hr ↦
    Nat.lt_of_le_of_lt (Nat.le_trans (Streak.count_le_of_mem_runs hr) List.count_le_length) hlt
  obtain ⟨hiff, htold⟩ : (b.Takes vs ↔ _) ∧ _ := h.takes_iff_fits
  refine ⟨hiff.trans ?_, htold⟩
  rw [and_iff_right hruns]

/-- **A buffer takes exactly the lists that fit.** Take any history of calls on a buffer of any bytes
that leaves it at the start of a write pass, and a list of less than `2 ^ 63 - 1` values. Then all
calls that store the list and end the pass answer exactly if every value is admissible and the list
is empty or costs no more bytes than there are behind the header. If so, the buffer tells what the
list costs and how many values it has. -/
theorem accepts_iff (bytes : Array UInt8) (codec : Codec) (signedness : Signedness)
    (before : List Call) (vs : List Int64) :
    let fresh := ofBytes bytes codec signedness
    let b := Outcome.after step fresh before
    let calls := vs.map Call.store ++ [.toggle]
    let c := Outcome.after step b calls
    Outcome.account step Tape.next fresh (.writing []) before = .writing [] →
      vs.length < 2 ^ 63 - 1 →
      ((∀ r ∈ Outcome.results step b calls, r = .ok .done) ↔
        (∀ v ∈ vs, Admissible signedness v) ∧
          (vs = [] ∨ headerLen + Streak.costAll codec signedness vs ≤ bytes.size)) ∧
      ((∀ r ∈ Outcome.results step b calls, r = .ok .done) →
        c.used = Streak.costAll codec signedness vs ∧ c.stored = vs.length) := by
  intro fresh b calls c hstart hlt
  have hplays := plays_after bytes codec signedness before
  rw [hstart] at hplays
  have haccepted : b.Accepted [] := hplays
  have hkept : fresh.Kept b := kept_after fresh before
  have htakes := haccepted.takes_iff hlt
  rw [hkept.codec, hkept.signedness, hkept.size] at htakes
  exact htakes

/-- In a second pass, two runs of three and of one byte fill the eight bytes of a buffer. -/
theorem accepts_iff_tight :
    let fresh := ofBytes (Array.replicate 8 0) .base128 .signed
    let b := Outcome.after step fresh [.store 5, .toggle, .toggle]
    let c := Outcome.after step b [.store 7, .store 7, .store 9, .toggle]
    (∀ r ∈ Outcome.results step b [.store 7, .store 7, .store 9, .toggle], r = .ok .done) ∧
      c.used = 4 ∧ c.stored = 3 := by
  intro fresh b c
  obtain ⟨htakes, htold⟩ := accepts_iff (Array.replicate 8 0) .base128 .signed
    [.store 5, .toggle, .toggle] [7, 7, 9] rfl (by decide)
  have hcost : Streak.costAll .base128 .signed [7, 7, 9] = 4 := by decide +kernel
  have hall : ∀ v ∈ [7, 7, 9], Admissible .signed v := by
    simp only [List.forall_mem_cons]
    exact ⟨by decide, by decide, by decide, List.forall_mem_nil _⟩
  have hok := htakes.mpr ⟨hall, Or.inr (by rw [hcost]; decide)⟩
  exact ⟨hok, hcost ▸ htold hok⟩

end Buffer

end RunLength

end Adjacency
