import Adjacency.RunLength.Buffer
import Adjacency.Proofs.Codec.InPlace

/-!
# Runs of equal values

A buffer takes its values apart into runs and writes each run as one number or as three. A *streak*
is such a run without its bytes: a value and how often it occurs. Whether its numbers can be written
depends on their size alone (`rawsOfRun_eq_ok`), and a longer streak of the same value never takes
less room (`Streak.length_code_mono`), so what does not fit will not fit later.
-/

namespace Adjacency

namespace RunLength

/-- A run of equal values. -/
structure Streak where
  value : Int64
  count : Nat

namespace Streak

/-- The values of the run. -/
def values (r : Streak) : List Int64 := List.replicate r.count r.value

/-- The numbers that the run is written as. -/
def raws (r : Streak) : List Int :=
  if r.count ≤ 1 then [away r.value.toInt] else [marker, away r.count, away r.value.toInt]

/-- All numbers of the run are signed 64-bit numbers. -/
structure Fits (r : Streak) : Prop where
  value_ge : -2 ^ 63 ≤ away r.value.toInt
  value_lt : away r.value.toInt < 2 ^ 63
  count_lt : 1 < r.count → away r.count < 2 ^ 63

/-- The run is not empty, its numbers can be written, and the value is none that the buffer
rejects. -/
structure Valid (s : Signedness) (r : Streak) : Prop where
  count_pos : 0 < r.count
  fits : r.Fits
  nonneg : s = .unsigned → 0 ≤ r.value.toInt

/-- The bytes that the run is written as. -/
def code (c : Codec) (s : Signedness) (r : Streak) : List UInt8 := c.codes s r.raws

/-- The bytes that runs are written as, one behind the other. -/
def codeAll (c : Codec) (s : Signedness) (rs : List Streak) : List UInt8 := rs.flatMap (code c s)

/-- The values of runs, in order. -/
def valuesAll (rs : List Streak) : List Int64 := rs.flatMap values

variable {c : Codec} {s : Signedness} {r : Streak} {rs more : List Streak}

@[simp] theorem codeAll_nil : codeAll c s [] = [] := rfl

@[simp] theorem codeAll_cons : codeAll c s (r :: rs) = r.code c s ++ codeAll c s rs := rfl

@[simp] theorem codeAll_append : codeAll c s (rs ++ more) = codeAll c s rs ++ codeAll c s more :=
  List.flatMap_append

@[simp] theorem valuesAll_nil : valuesAll [] = [] := rfl

@[simp] theorem valuesAll_cons : valuesAll (r :: rs) = r.values ++ valuesAll rs := rfl

@[simp] theorem valuesAll_append : valuesAll (rs ++ more) = valuesAll rs ++ valuesAll more :=
  List.flatMap_append

theorem codeAll_concat (rs : List Streak) (r : Streak) :
    codeAll c s (rs ++ [r]) = codeAll c s rs ++ r.code c s := by
  rw [codeAll_append, codeAll_cons, codeAll_nil, List.append_nil]

theorem valuesAll_concat (rs : List Streak) (r : Streak) :
    valuesAll (rs ++ [r]) = valuesAll rs ++ r.values := by
  rw [valuesAll_append, valuesAll_cons, valuesAll_nil, List.append_nil]

theorem raws_ne_nil (r : Streak) : r.raws ≠ [] := by
  rw [raws]
  split <;> exact List.cons_ne_nil _ _

@[simp] theorem length_values (r : Streak) : r.values.length = r.count := List.length_replicate

end Streak

/-! ## Numbers that can be written -/

theorem bias_eq_ok {v raw : Int} :
    bias v = .ok raw ↔ (-2 ^ 63 ≤ away v ∧ away v < 2 ^ 63) ∧ raw = away v := by
  unfold bias
  split
  · next h =>
    constructor
    · rintro heq
      cases heq
      exact ⟨h, rfl⟩
    · rintro ⟨-, rfl⟩
      rfl
  · next h => exact iff_of_false (fun heq ↦ nomatch heq) fun hc ↦ h hc.1

theorem away_natCast (n : Nat) : away n = n + 1 := if_pos (Int.natCast_nonneg n)

theorem rawsOfRun_of_fits {r : Streak} (h : r.Fits) :
    Buffer.rawsOfRun r.value r.count = .ok r.raws := by
  have hvalue : bias r.value.toInt = .ok (away r.value.toInt) := if_pos ⟨h.value_ge, h.value_lt⟩
  rw [Buffer.rawsOfRun, Streak.raws]
  split
  · rw [hvalue]
  · next hmany =>
    have haway := away_natCast r.count
    have hlt := h.count_lt (Nat.lt_of_not_le hmany)
    have hcount : bias r.count = .ok (away r.count) := if_pos ⟨by omega, hlt⟩
    rw [if_neg (by rw [Word.signedMax]; omega), hcount, hvalue]

theorem fits_of_rawsOfRun {r : Streak} {raws : List Int}
    (h : Buffer.rawsOfRun r.value r.count = .ok raws) : r.Fits := by
  rw [Buffer.rawsOfRun] at h
  split at h
  · next hone =>
    split at h
    · next raw hvalue =>
      obtain ⟨⟨hge, hlt⟩, -⟩ := bias_eq_ok.mp hvalue
      exact ⟨hge, hlt, fun hmany ↦ absurd hmany (Nat.not_lt_of_le hone)⟩
    · exact nomatch h
  · split at h
    · exact nomatch h
    · split at h
      · exact nomatch h
      · exact nomatch h
      · next hcount hvalue =>
        obtain ⟨⟨-, hcountlt⟩, -⟩ := bias_eq_ok.mp hcount
        obtain ⟨⟨hge, hlt⟩, -⟩ := bias_eq_ok.mp hvalue
        exact ⟨hge, hlt, fun _ ↦ hcountlt⟩

theorem rawsOfRun_eq_ok {r : Streak} {raws : List Int} :
    Buffer.rawsOfRun r.value r.count = .ok raws ↔ r.Fits ∧ raws = r.raws := by
  constructor
  · intro h
    have hfits := fits_of_rawsOfRun h
    rw [rawsOfRun_of_fits hfits] at h
    exact ⟨hfits, (Except.ok.inj h).symm⟩
  · rintro ⟨hfits, rfl⟩
    exact rawsOfRun_of_fits hfits

/-- The causes for which a pending run is not written: a code does not fit, or a number is out of
range. -/
inductive Unwritable (c : Codec) : Error → Prop
  | full (limit requested : Nat) :
    Unwritable c (.capacityExceeded c.destination limit requested)
  | outside : Unwritable c (.invalid .outsideRunRange)
  | tooLong : Unwritable c (.invalid .runTooLong)

theorem bias_error {v : Int} {cause : Error} (h : bias v = .error cause) :
    cause = .invalid .outsideRunRange := by
  unfold bias at h
  split at h
  · exact nomatch h
  · exact (Except.error.inj h).symm

theorem rawsOfRun_error (c : Codec) {v : Int64} {count : Nat} {cause : Error}
    (h : Buffer.rawsOfRun v count = .error cause) : Unwritable c cause := by
  have houtside {w : Int} {e : Error} (hbias : bias w = .error e)
      (heq : (Except.error e : Except Error (List Int)) = .error cause) : Unwritable c cause := by
    rw [← Except.error.inj heq, bias_error hbias]
    exact .outside
  rw [Buffer.rawsOfRun] at h
  split at h
  · split at h
    · exact nomatch h
    · next hvalue => exact houtside hvalue h
  · split at h
    · exact Except.error.inj h ▸ .tooLong
    · split at h
      · next hcount => exact houtside hcount h
      · next hvalue _ => exact houtside hvalue h
      · exact nomatch h

namespace Streak

variable {c : Codec} {s : Signedness} {r : Streak}

/-! ## Numbers of a run -/

theorem Valid.admits (h : r.Valid s) : ∀ raw ∈ r.raws, s.Admits raw ∧ raw ≤ Word.signedMax := by
  have hge := h.fits.value_ge
  have hlt := h.fits.value_lt
  have hvalue : s.Admits (away r.value.toInt) ∧ away r.value.toInt ≤ Word.signedMax := by
    rw [Word.signedMax]
    cases s with
    | signed => exact ⟨⟨hge, hlt⟩, by omega⟩
    | unsigned =>
      -- No value is negative, so each is moved up.
      have hnonneg := h.nonneg rfl
      rw [away, if_pos hnonneg] at hlt ⊢
      exact ⟨⟨by omega, by omega⟩, by omega⟩
  intro raw hraw
  rw [raws] at hraw
  split at hraw
  · rw [List.mem_singleton.mp hraw]
    exact hvalue
  · next hmany =>
    have hcount := h.fits.count_lt (Nat.lt_of_not_le hmany)
    rw [away_natCast] at hcount hraw
    rcases List.mem_cons.mp hraw with rfl | hraw
    · exact ⟨Signedness.admits_zero s, Int.natCast_nonneg _⟩
    · rcases List.mem_cons.mp hraw with rfl | hraw
      · rw [Word.signedMax]
        refine ⟨?_, by omega⟩
        cases s with
        | signed => exact ⟨by omega, hcount⟩
        | unsigned => exact ⟨by omega, by omega⟩
      · rw [List.mem_singleton.mp hraw]
        exact hvalue

theorem length_code_mono {v : Int64} {m n : Nat} (h : m ≤ n) :
    ((⟨v, m⟩ : Streak).code c s).length ≤ ((⟨v, n⟩ : Streak).code c s).length := by
  simp only [code, raws]
  split
  · split
    · exact Nat.le_refl _
    · -- The one number of the short run is the last of the three.
      simp only [Codec.codes_cons, Codec.codes_nil, List.length_append]
      omega
  · next hmany =>
    have hcount : c.size s (away m) ≤ c.size s (away n) := by
      rw [away_natCast, away_natCast]
      exact c.size_mono (by omega) (by omega)
    rw [if_neg (by omega)]
    simp only [Codec.codes_cons, Codec.codes_nil, List.length_append, Codec.length_code]
    omega

theorem Fits.of_le {v : Int64} {m n : Nat} (h : (⟨v, n⟩ : Streak).Fits) (hle : m ≤ n) :
    (⟨v, m⟩ : Streak).Fits where
  value_ge := h.value_ge
  value_lt := h.value_lt
  count_lt := by
    intro hmany
    have hlt : away n < 2 ^ 63 := h.count_lt (Nat.lt_of_lt_of_le hmany hle)
    show away m < 2 ^ 63
    rw [away_natCast] at hlt ⊢
    omega

end Streak

end RunLength

end Adjacency
