import Adjacency.Proofs.Codec.Appended
import Adjacency.Proofs.Codec.Frames
import Adjacency.Proofs.Codec.Groups

/-!
# What a codec reads

A reader takes more than a writer leaves: numbers with needless groups, magnitudes with leading
zeros, a zero with a sign. Which bytes are a code, and of which integer, is told by the two grammars
(`Codec.Denotes`). A reader gives an integer exactly if a code of it stands in front of the stop
(`get_eq_ok_iff`), and no code is the beginning of another (`Denotes.eq_of_prefix`). Among all codes
of an integer the one that is written is the only shortest (`Denotes.size_le`, `Denotes.eq_code`).
-/

namespace Adjacency

namespace Signedness

variable {s : Signedness} {n : Nat}

@[simp] theorem fold_unfold (s : Signedness) (n : Nat) : s.fold (s.unfold n) = n := by
  cases s with
  | unsigned => exact Int.toNat_natCast n
  | signed => exact ZigZag.toNat_ofNat n

theorem admits_unfold (h : n < 2 ^ 64) : s.Admits (s.unfold n) := by
  cases s with
  | unsigned => exact ⟨Int.natCast_nonneg n, by simp only [unfold]; omega⟩
  | signed =>
    simp only [Admits, unfold, ZigZag.ofNat]
    split <;> omega

end Signedness

namespace Codec

open Bytes (StandsAt)

/-- The bytes are a code of the integer, not necessarily the one that is written. -/
def Denotes (c : Codec) (s : Signedness) (code : List UInt8) (v : Int) : Prop :=
  match c with
  | .base128 => Base128.IsRow Base128.maxLen code ∧ s.unfold (Base128.value code) = v
  | .lengthPrefixed => ∃ header body, code = header :: body ∧
      LengthPrefixed.IsFrame s header body ∧ LengthPrefixed.value header body = v

variable {c : Codec} {s : Signedness} {code more bytes : List UInt8} {v w : Int} {len : Nat}

/-! ## Codes that are not written -/

/-- **A code is read,** whatever follows it. -/
theorem Denotes.decode (h : c.Denotes s code v) (rest : List UInt8) :
    c.decode s (code ++ rest) = .ok (v, code.length) := by
  cases c with
  | base128 =>
    obtain ⟨hrow, rfl⟩ := h
    rw [Codec.decode, Base128.decode, Base128.decodeWithin_of_isRow hrow]
  | lengthPrefixed =>
    obtain ⟨header, body, rfl, hframe, rfl⟩ := h
    exact LengthPrefixed.decode_of_isFrame hframe rest

/-- **Nothing but codes is read.** -/
theorem exists_denotes_of_decode (h : c.decode s bytes = .ok (v, len)) :
    ∃ code rest, bytes = code ++ rest ∧ code.length = len ∧ c.Denotes s code v := by
  cases c with
  | base128 =>
    rw [Codec.decode] at h
    split at h
    · next hdecode =>
      obtain ⟨rfl, rfl⟩ := Prod.mk.inj (Except.ok.inj h)
      obtain ⟨row, rest, rfl, hlen, hrow, rfl⟩ := Base128.exists_isRow_of_decodeWithin hdecode
      exact ⟨row, rest, rfl, hlen, hrow, rfl⟩
    · cases h
  | lengthPrefixed =>
    obtain ⟨header, body, rest, rfl, hlen, hframe, hv⟩ :=
      LengthPrefixed.exists_isFrame_of_decode h
    exact ⟨header :: body, rest, rfl, hlen, header, body, rfl, hframe, hv⟩

theorem Denotes.length_pos (h : c.Denotes s code v) : 0 < code.length := by
  cases c with
  | base128 => exact h.1.length_pos
  | lengthPrefixed =>
    obtain ⟨header, body, rfl, -⟩ := h
    exact Nat.succ_pos _

theorem Denotes.length_le_maxLen (h : c.Denotes s code v) : code.length ≤ c.maxLen := by
  cases c with
  | base128 => exact h.1.length_le
  | lengthPrefixed =>
    obtain ⟨header, body, rfl, hframe, -⟩ := h
    exact Nat.succ_le_succ hframe.length_le

/-- No code is the beginning of another. -/
theorem Denotes.eq_of_prefix (h : c.Denotes s code v) (hmore : c.Denotes s more w)
    (hbegins : code <+: more) : code = more := by
  obtain ⟨rest, rfl⟩ := hbegins
  have hdecode := hmore.decode []
  rw [List.append_nil, h.decode] at hdecode
  have hlen := (Prod.mk.inj (Except.ok.inj hdecode)).2
  rw [List.length_append, Nat.left_eq_add, List.length_eq_zero_iff] at hlen
  rw [hlen, List.append_nil]

theorem Denotes.admits (h : c.Denotes s code v) : s.Admits v := by
  cases c with
  | base128 =>
    obtain ⟨hrow, rfl⟩ := h
    have hlt := hrow.value_lt
    rw [Base128.maxLen] at hlt
    exact Signedness.admits_unfold (by omega)
  | lengthPrefixed =>
    obtain ⟨header, body, -, hframe, rfl⟩ := h
    exact hframe.admits

theorem Denotes.size_le (h : c.Denotes s code v) : c.size s v ≤ code.length := by
  cases c with
  | base128 =>
    obtain ⟨hrow, rfl⟩ := h
    rw [size, Signedness.fold_unfold]
    exact Base128.size_le_of_lt_pow hrow.length_pos (Base128.value_lt_pow code)
  | lengthPrefixed =>
    obtain ⟨header, body, rfl, -, rfl⟩ := h
    exact LengthPrefixed.size_value_le header body

/-- **The shortest code of an integer is the one that is written.** -/
theorem Denotes.eq_code (h : c.Denotes s code v) (hsize : code.length = c.size s v) :
    code = c.code s v := by
  cases c with
  | base128 =>
    obtain ⟨hrow, rfl⟩ := h
    rw [size, Signedness.fold_unfold] at hsize
    rw [Codec.code, Signedness.fold_unfold, ← Base128.groups_size, ← hsize]
    exact hrow.eq_groups
  | lengthPrefixed =>
    obtain ⟨header, body, rfl, hframe, rfl⟩ := h
    exact hframe.eq_code hsize

theorem denotes_code (c : Codec) (h : s.Admits v) : c.Denotes s (c.code s v) v := by
  have hdecode := decode_code c h []
  rw [List.append_nil] at hdecode
  obtain ⟨code, rest, heq, hlen, hdenotes⟩ := exists_denotes_of_decode hdecode
  have hrest : rest = [] := by
    have hsum := congrArg List.length heq
    rw [length_code, List.length_append, hlen, Nat.left_eq_add] at hsum
    exact List.length_eq_zero_iff.mp hsum
  rw [hrest, List.append_nil] at heq
  rw [heq]
  exact hdenotes

/-! ## Reading from buffers -/

/-- **A reader gives an integer exactly if a code of it stands in front of the stop.** -/
theorem get_eq_ok_iff {src : Array UInt8} {off stop : Nat} :
    c.get s src off stop = .ok (v, len) ↔
      ∃ code, StandsAt src off code ∧ code.length = len ∧ off + len ≤ stop ∧
        c.Denotes s code v := by
  constructor
  · intro h
    obtain ⟨code, rest, hwindow, rfl, hdenotes⟩ := exists_denotes_of_decode h
    -- Each byte of the code is one of the window, so it lies in front of the stop.
    have hbyte (i : Nat) (hi : i < code.length) : off + i < stop ∧ src[off + i]? = code[i]? := by
      have heq := congrArg (·[i]?) hwindow
      simp only [Bytes.getElem?_window, List.getElem?_append_left hi] at heq
      split at heq
      · next hin => exact ⟨hin.1, heq⟩
      · rw [List.getElem?_eq_getElem hi] at heq
        exact nomatch heq
    have hpos := hdenotes.length_pos
    have hlast := (hbyte (code.length - 1) (by omega)).1
    exact ⟨code, fun i hi ↦ (hbyte i hi).2, rfl, by omega, hdenotes⟩
  · rintro ⟨code, hstands, rfl, hstop, hdenotes⟩
    obtain ⟨rest, hwindow⟩ := hstands.window_eq hstop hdenotes.length_le_maxLen
    rw [get, hwindow]
    exact hdenotes.decode rest

theorem getWord_eq_ok_iff {α : Type} (word : Int → α) (int : α → Int)
    (hint : ∀ v, s.Admits v → int (word v) = v) (hword : ∀ w, word (int w) = w)
    {src : Array UInt8} {off stop : Nat} {w : α} :
    (c.get s src off stop).map (fun r ↦ (word r.1, r.2)) = .ok (w, len) ↔
      ∃ code, StandsAt src off code ∧ code.length = len ∧ off + len ≤ stop ∧
        c.Denotes s code (int w) := by
  rw [← get_eq_ok_iff]
  rcases hget : c.get s src off stop with e | ⟨v, k⟩
  · exact iff_of_false nofun nofun
  · obtain ⟨_, -, -, -, hdenotes⟩ := get_eq_ok_iff.mp hget
    have hv : int (word v) = v := hint v hdenotes.admits
    constructor
    · intro h
      obtain ⟨rfl, rfl⟩ := Prod.mk.inj (Except.ok.inj h)
      rw [hv]
    · intro h
      obtain ⟨rfl, rfl⟩ := Prod.mk.inj (Except.ok.inj h)
      exact congrArg (fun w ↦ Except.ok (w, k)) (hword w)

theorem getUInt64_eq_ok_iff {src : Array UInt8} {off stop : Nat} {v : UInt64} :
    c.getUInt64 src off stop = .ok (v, len) ↔
      ∃ code, StandsAt src off code ∧ code.length = len ∧ off + len ≤ stop ∧
        c.Denotes .unsigned code v.toNat := by
  have hget : c.getUInt64 src off stop
      = (c.get .unsigned src off stop).map (fun r ↦ (UInt64.ofNat r.1.toNat, r.2)) := by
    rw [getUInt64]
    cases c.get .unsigned src off stop <;> rfl
  rw [hget]
  refine getWord_eq_ok_iff (fun v ↦ UInt64.ofNat v.toNat) (fun w ↦ (w.toNat : Int)) ?_ ?_
  · rintro v ⟨hge, hlt⟩
    rw [UInt64.toNat_ofNat']
    omega
  · intro w
    rw [Int.toNat_natCast, UInt64.ofNat_toNat]

theorem getInt64_eq_ok_iff {src : Array UInt8} {off stop : Nat} {v : Int64} :
    c.getInt64 src off stop = .ok (v, len) ↔
      ∃ code, StandsAt src off code ∧ code.length = len ∧ off + len ≤ stop ∧
        c.Denotes .signed code v.toInt := by
  have hget : c.getInt64 src off stop
      = (c.get .signed src off stop).map (fun r ↦ (Int64.ofInt r.1, r.2)) := by
    rw [getInt64]
    cases c.get .signed src off stop <;> rfl
  rw [hget]
  refine getWord_eq_ok_iff Int64.ofInt Int64.toInt ?_ Int64.ofInt_toInt
  rintro v ⟨hge, hlt⟩
  exact Int64.toInt_ofInt_of_le hge hlt

/-- A reader of words gives a word exactly if a code of it stands in front of the stop, and among
all codes of a word the one that is `written` is the only shortest. -/
structure ReadsExactly {α : Type} (get : Array UInt8 → (off stop : Nat) → Except Error (α × Nat))
    (Code : List UInt8 → α → Prop) (size : α → Nat) (written : α → List UInt8) : Prop where
  reads_iff : ∀ src off stop v len, get src off stop = .ok (v, len) ↔
    ∃ code, StandsAt src off code ∧ code.length = len ∧ off + len ≤ stop ∧ Code code v
  size_le : ∀ code v, Code code v → size v ≤ code.length
  length_eq_iff : ∀ code v, Code code v → (code.length = size v ↔ code = written v)

theorem readsExactly_of_reads_iff {α : Type} {int : α → Int}
    {get : Array UInt8 → (off stop : Nat) → Except Error (α × Nat)}
    (hreads : ∀ src off stop v len, get src off stop = .ok (v, len) ↔
      ∃ code, StandsAt src off code ∧ code.length = len ∧ off + len ≤ stop ∧
        c.Denotes s code (int v)) :
    ReadsExactly get (fun code v ↦ c.Denotes s code (int v)) (fun v ↦ c.size s (int v))
      fun v ↦ (c.push s (int v) #[]).1.toList := by
  refine ⟨hreads, fun _ _ h ↦ h.size_le, ?_⟩
  intro code v h
  rw [toList_push, Array.toList_empty, List.nil_append]
  constructor
  · exact h.eq_code
  · intro heq
    rw [heq, length_code]

/-- **A codec reads its grammar and writes the shortest of all codes.** -/
theorem readsExactly_words (c : Codec) :
    ReadsExactly c.getUInt64 (fun code v ↦ c.Denotes .unsigned code v.toNat) c.sizeUInt64
        (fun v ↦ (c.pushUInt64 v #[]).1.toList) ∧
      ReadsExactly c.getInt64 (fun code v ↦ c.Denotes .signed code v.toInt) c.sizeInt64
        fun v ↦ (c.pushInt64 v #[]).1.toList :=
  ⟨readsExactly_of_reads_iff fun _ _ _ _ _ ↦ getUInt64_eq_ok_iff,
    readsExactly_of_reads_iff fun _ _ _ _ _ ↦ getInt64_eq_ok_iff⟩

-- A needless group, a zero with a sign, and a header that announces too much.
example : decode .base128 .unsigned [0x80, 0x00] = .ok (0, 2) := by decide

example : decode .lengthPrefixed .signed [0xff, 0x00] = .ok (0, 2) := by decide

example : decode .lengthPrefixed .signed [0x80] = .error (.decode .lengthTooLarge) := by decide

end Codec

end Adjacency
