import Adjacency.Proofs.Codec.Grammar

/-!
# Codes that show where they end

A reader looks at no byte behind the code that it reads, since nothing but the bytes of a code
makes them one (`Denotes`). So it is of no consequence where the bytes stand, what follows them and
how far they may reach. Codes can be put one behind the other without anything between them, and are
found again one after another (`SelfDelimiting.row`).
-/

namespace Adjacency

namespace Bytes

variable {bytes : Array UInt8} {code front rest : List UInt8} {off : Nat}

theorem StandsAt.le_size (h : StandsAt bytes off code) (hpos : 0 < code.length) :
    off + code.length ≤ bytes.size := by
  have hlast := h (code.length - 1) (by omega)
  rw [List.getElem?_eq_getElem (by omega)] at hlast
  obtain ⟨hlt, -⟩ := Array.getElem?_eq_some_iff.mp hlast
  omega

theorem StandsAt.toList_eq (h : StandsAt bytes 0 code) (hlen : code.length = bytes.size) :
    bytes.toList = code := by
  refine List.ext_getElem? fun i ↦ ?_
  rw [Array.getElem?_toList]
  rcases Nat.lt_or_ge i code.length with hlt | hge
  · rw [← h i hlt, Nat.zero_add]
  · rw [List.getElem?_eq_none hge, Array.getElem?_eq_none (hlen ▸ hge)]

theorem standsAt_of_toList_eq_append (h : bytes.toList = front ++ (code ++ rest)) :
    StandsAt bytes front.length code := by
  have hbehind := (standsAt_append.mp (standsAt_of_toList_eq h)).2
  rw [Nat.zero_add] at hbehind
  exact (standsAt_append.mp hbehind).1

end Bytes

namespace Codec

open Bytes (StandsAt)

/-- Reads `n` values one behind the other. Answers the values and where the next one would begin. -/
def readRow {α : Type} (get : (off : Nat) → Except Error (α × Nat)) :
    (n off : Nat) → Except Error (List α × Nat)
  | 0, off => .ok ([], off)
  | n + 1, off =>
    match get off with
    | .error e => .error e
    | .ok (v, len) => match readRow get n (off + len) with
      | .error e => .error e
      | .ok (vs, stop) => .ok (v :: vs, stop)

/-- What is read depends on the bytes of the code alone. -/
structure SelfDelimiting {α : Type} (maxLen : Nat)
    (get : Array UInt8 → (off stop : Nat) → Except Error (α × Nat))
    (push : α → Array UInt8 → Array UInt8 × Nat) : Prop where
  length : ∀ src off stop v len, get src off stop = .ok (v, len) → 1 ≤ len ∧ len ≤ maxLen
  inside : ∀ src off stop v len, get src off stop = .ok (v, len) → off + len ≤ min stop src.size
  /-- The same bytes at another place are read as the same value. -/
  congr : ∀ src off stop v len, get src off stop = .ok (v, len) → ∀ src' off' stop',
    off' + len ≤ stop' → (∀ i, i < len → src'[off' + i]? = src[off + i]?) →
      get src' off' stop' = .ok (v, len)
  /-- No code is the beginning of another one. -/
  eq_of_prefix : ∀ (x y : Array UInt8) v w, get x 0 x.size = .ok (v, x.size) →
    get y 0 y.size = .ok (w, y.size) → x.toList <+: y.toList → x = y
  /-- Values that were appended are read one after another, and no byte behind them is taken. -/
  row : ∀ (vs : List α) (before behind : Array UInt8),
    let out := vs.foldl (fun out v ↦ (push v out).1) before
    let src := out ++ behind
    readRow (fun off ↦ get src off src.size) vs.length before.size = .ok (vs, out.size)

variable {c : Codec} {s : Signedness} {α : Type} {int : α → Int}
  {get : Array UInt8 → (off stop : Nat) → Except Error (α × Nat)}

theorem readRow_of_standsAt
    (hget : ∀ {src off stop v}, StandsAt src off (c.code s (int v)) →
      off + c.size s (int v) ≤ stop → get src off stop = .ok (v, c.size s (int v)))
    {vs : List α} {src : Array UInt8} {off : Nat} (h : StandsAt src off (c.codes s (vs.map int))) :
    readRow (fun off ↦ get src off src.size) vs.length off
      = .ok (vs, off + (c.codes s (vs.map int)).length) := by
  induction vs generalizing off with
  | nil => rfl
  | cons v vs ih =>
    rw [List.map_cons, codes_cons, Bytes.standsAt_append, length_code] at h
    obtain ⟨hcode, hrest⟩ := h
    have hinside : off + c.size s (int v) ≤ src.size := by
      rw [← length_code]
      exact hcode.le_size (by rw [length_code]; exact c.size_pos s (int v))
    rw [List.length_cons, readRow, hget hcode hinside]
    dsimp only
    rw [ih hrest]
    dsimp only
    rw [List.map_cons, codes_cons, List.length_append, length_code, Nat.add_assoc]

/-- A reader that gives a value exactly if a code of it stands in front of the stop reads codes that
show where they end. -/
theorem selfDelimiting_of_reads_iff (hint : ∀ v, s.Admits (int v))
    (hreads : ∀ src off stop v len, get src off stop = .ok (v, len) ↔
      ∃ code, StandsAt src off code ∧ code.length = len ∧ off + len ≤ stop ∧
        c.Denotes s code (int v)) :
    SelfDelimiting c.maxLen get fun v out ↦ c.push s (int v) out := by
  refine ⟨?_, ?_, ?_, ?_, ?_⟩
  · intro src off stop v len h
    obtain ⟨code, -, rfl, -, hdenotes⟩ := (hreads ..).mp h
    exact ⟨hdenotes.length_pos, hdenotes.length_le_maxLen⟩
  · intro src off stop v len h
    obtain ⟨code, hstands, rfl, hstop, hdenotes⟩ := (hreads ..).mp h
    exact Nat.le_min.mpr ⟨hstop, hstands.le_size hdenotes.length_pos⟩
  · intro src off stop v len h src' off' stop' hstop' hsame
    obtain ⟨code, hstands, rfl, -, hdenotes⟩ := (hreads ..).mp h
    have hstands' : StandsAt src' off' code := fun i hi ↦ (hsame i hi).trans (hstands i hi)
    exact (hreads ..).mpr ⟨code, hstands', rfl, hstop', hdenotes⟩
  · intro x y v w hx hy hbegins
    obtain ⟨code, hstands, hlen, -, hdenotes⟩ := (hreads ..).mp hx
    obtain ⟨code', hstands', hlen', -, hdenotes'⟩ := (hreads ..).mp hy
    rw [hstands.toList_eq hlen, hstands'.toList_eq hlen'] at hbegins
    rw [← Array.toList_inj, hstands.toList_eq hlen, hstands'.toList_eq hlen']
    exact hdenotes.eq_of_prefix hdenotes' hbegins
  · intro vs before behind out src
    have hout : out.toList = before.toList ++ c.codes s (vs.map int) :=
      c.toList_foldl_push int s vs before
    have hsize : out.size = before.size + (c.codes s (vs.map int)).length := by
      rw [← Array.length_toList, hout, List.length_append, Array.length_toList]
    have hsrc : src.toList = before.toList ++ (c.codes s (vs.map int) ++ behind.toList) := by
      rw [Array.toList_append, hout, List.append_assoc]
    have hstands : StandsAt src before.size (c.codes s (vs.map int)) :=
      Bytes.standsAt_of_toList_eq_append hsrc
    rw [hsize]
    refine readRow_of_standsAt ?_ hstands
    intro src off stop v hcode hstop
    exact (hreads ..).mpr ⟨_, hcode, length_code .., hstop, denotes_code c (hint v)⟩

/-- **Every codec shows where its codes end.** -/
theorem selfDelimiting_words (c : Codec) :
    SelfDelimiting c.maxLen c.getUInt64 c.pushUInt64 ∧
      SelfDelimiting c.maxLen c.getInt64 c.pushInt64 :=
  ⟨selfDelimiting_of_reads_iff Signedness.admits_toNat fun _ _ _ _ _ ↦ getUInt64_eq_ok_iff,
    selfDelimiting_of_reads_iff Signedness.admits_toInt fun _ _ _ _ _ ↦ getInt64_eq_ok_iff⟩

end Codec

end Adjacency
