import Adjacency.Word

/-!
# Numbers as big-endian bytes

The most significant byte comes first. `digits` writes a number in as few bytes as it needs, `ofNat`
in a given number of bytes, and `toNat` reads either back. Fixed-width 32-bit words, which head
every run-length buffer, are the four-byte case.
-/

namespace Adjacency

namespace BigEndian

/-- The bytes of `n` without leading zeros; zero has none. -/
def digits (n : Nat) : List UInt8 :=
  if n = 0 then [] else digits (n / 256) ++ [UInt8.ofNat (n % 256)]
decreasing_by omega

/-- The lowest `width` bytes of `n`. -/
def ofNat : (width : Nat) → Nat → List UInt8
  | 0, _ => []
  | width + 1, n => ofNat width (n / 256) ++ [UInt8.ofNat (n % 256)]

/-- The number that the bytes write. -/
def toNat (bytes : List UInt8) : Nat := bytes.foldl (fun n b ↦ 256 * n + b.toNat) 0

@[simp] theorem length_ofNat (width n : Nat) : (ofNat width n).length = width := by
  induction width generalizing n with
  | zero => rfl
  | succ width ih => simp [ofNat, ih]

theorem toNat_concat (bytes : List UInt8) (b : UInt8) :
    toNat (bytes ++ [b]) = 256 * toNat bytes + b.toNat := by
  simp [toNat]

theorem toNat_digits (n : Nat) : toNat (digits n) = n := by
  induction n using Nat.strongRecOn with
  | _ n ih =>
    rw [digits]
    split
    · subst n; rfl
    · rw [toNat_concat, ih (n / 256) (by omega), UInt8.toNat_ofNat']
      omega

theorem toNat_ofNat (width n : Nat) : toNat (ofNat width n) = n % 256 ^ width := by
  induction width generalizing n with
  | zero => simp [ofNat, toNat, Nat.mod_one]
  | succ width ih =>
    have hpow : 256 ^ (width + 1) = 256 * 256 ^ width := Nat.pow_succ'
    rw [ofNat, toNat_concat, ih, UInt8.toNat_ofNat', hpow, Nat.mod_mul]
    omega

theorem length_digits {n : Nat} (h : n ≠ 0) : (digits n).length = n.log2 / 8 + 1 := by
  induction n using Nat.strongRecOn with
  | _ n ih =>
    rw [digits, if_neg h, List.length_append, List.length_singleton]
    by_cases hlt : n < 256
    · have hlog : n.log2 < 8 := (Nat.log2_lt h).2 hlt
      rw [Nat.div_eq_of_lt hlt, digits, if_pos rfl, List.length_nil]
      omega
    · have hlow : 2 ^ ((n / 256).log2 + 8) ≤ n := by
        have := Nat.log2_self_le (n := n / 256) (by omega)
        rw [Nat.pow_add]
        omega
      have hhigh : n < 2 ^ ((n / 256).log2 + 1 + 8) := by
        have := Nat.lt_log2_self (n := n / 256)
        rw [Nat.pow_add]
        omega
      have h1 := (Nat.le_log2 h).2 hlow
      have h2 := (Nat.log2_lt h).2 hhigh
      rw [ih (n / 256) (by omega) (by omega)]
      omega

theorem ofNat_length_digits (n : Nat) : ofNat (digits n).length n = digits n := by
  induction n using Nat.strongRecOn with
  | _ n ih =>
    rw [digits]
    split
    · rfl
    · rw [List.length_append, List.length_singleton, ofNat, ih (n / 256) (by omega)]

/-! ## Words of 32 bits -/

/-- A 32-bit word was asked of fewer than four bytes. -/
inductive Short
  | destination
  | source (size : Nat)
  deriving DecidableEq, Repr

/-- The wording of a missing word. -/
def Short.message : Short → String
  | .destination => "destination too small"
  | .source size => "u32 source shorter than 4 bytes (have " ++ toString size ++ ")"

/-- The bytes of a word. -/
def word32 (v : UInt32) : List UInt8 := ofNat 4 v.toNat

/-- The bytes with a word written over the first four. -/
def put32 (v : UInt32) (dst : List UInt8) : Except Short (List UInt8) :=
  if 4 ≤ dst.length then .ok (word32 v ++ dst.drop 4) else .error .destination

/-- The word in the first four bytes, if there are that many. -/
def get32? (src : List UInt8) : Option UInt32 :=
  if 4 ≤ src.length then some (UInt32.ofNat (toNat (src.take 4))) else none

/-- The word in the first four bytes. -/
def get32 (src : List UInt8) : Except Short UInt32 :=
  match get32? src with
  | some v => .ok v
  | none => .error (.source src.length)

end BigEndian

end Adjacency
