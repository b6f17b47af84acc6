import Adjacency.Bytes.Window
import Adjacency.Codec.Base128
import Adjacency.Codec.LengthPrefixed
import Adjacency.Codec.ZigZag

/-!
# Variable-length integer codecs

A codec writes 64-bit integers in as few bytes as their size needs. There are two: base-128 groups,
where a signed number is folded into an unsigned one first, and length-prefixed magnitudes. Both
write zero as the single byte `0`, so zeroed memory reads as zeros.

One integer can be appended to a vector (`push`), written in place (`put`) or read (`get`). The
functions work on `Int` with a `Signedness` saying which 64-bit range is meant; the versions on
`UInt64` and `Int64` fix the range by the type. What is written reads back, whatever follows it
(`decode_code`).
-/

namespace Adjacency

/-- How integers are written as bytes. -/
inductive Codec
  /-- Groups of seven bits with a continuation flag. -/
  | base128
  /-- A signed length byte and a big-endian magnitude. -/
  | lengthPrefixed
  deriving DecidableEq, Repr, Inhabited

/-- Which 64-bit integers are written. -/
inductive Signedness
  | unsigned
  | signed
  deriving DecidableEq, Repr, Inhabited

namespace Signedness

/-- The integers of a 64-bit range. -/
def Admits : Signedness → Int → Prop
  | .unsigned, v => 0 ≤ v ∧ v < 2 ^ 64
  | .signed, v => -2 ^ 63 ≤ v ∧ v < 2 ^ 63

instance : (s : Signedness) → (v : Int) → Decidable (s.Admits v)
  | .unsigned, v => inferInstanceAs (Decidable (0 ≤ v ∧ v < 2 ^ 64))
  | .signed, v => inferInstanceAs (Decidable (-2 ^ 63 ≤ v ∧ v < 2 ^ 63))

/-- The number whose base-128 groups are written for `v`. -/
def fold : Signedness → Int → Nat
  | .unsigned, v => v.toNat
  | .signed, v => ZigZag.toNat v

/-- The integer whose base-128 groups are those of `n`. -/
def unfold : Signedness → Nat → Int
  | .unsigned, n => n
  | .signed, n => ZigZag.ofNat n

theorem fold_lt {s : Signedness} {v : Int} (h : s.Admits v) : s.fold v < 2 ^ 64 := by
  cases s with
  | unsigned => simp only [Admits] at h; simp only [fold]; omega
  | signed => simp only [Admits] at h; simp only [fold, ZigZag.toNat]; split <;> omega

theorem unfold_fold {s : Signedness} {v : Int} (h : s.Admits v) :
    s.unfold (s.fold v) = v := by
  cases s with
  | unsigned => simp only [Admits] at h; simp only [fold, unfold]; omega
  | signed => simp [fold, unfold]

end Signedness

namespace Codec

/-- The longest code of a 64-bit integer. -/
def maxLen : Codec → Nat
  | .base128 => Base128.maxLen
  | .lengthPrefixed => LengthPrefixed.maxLen

/-- The destination that a code did not fit into. -/
def destination : Codec → Resource
  | .base128 => .varintDestination
  | .lengthPrefixed => .lengthPrefixedDestination

/-- The length of the code of `v`. -/
def size (c : Codec) (s : Signedness) (v : Int) : Nat :=
  match c with
  | .base128 => Base128.size (s.fold v)
  | .lengthPrefixed => LengthPrefixed.size v

/-- The code of `v`. -/
def code (c : Codec) (s : Signedness) (v : Int) : List UInt8 :=
  match c with
  | .base128 => Base128.code (s.fold v)
  | .lengthPrefixed => LengthPrefixed.code v

/-- The code of `v`, produced in its known length. -/
def sized (c : Codec) (s : Signedness) (v : Int) : List UInt8 :=
  match c with
  | .base128 => Base128.groups (Base128.size (s.fold v)) (s.fold v)
  | .lengthPrefixed => LengthPrefixed.sized (LengthPrefixed.width v.natAbs) v

/-- Reads the code at the front of a list: the integer and the length of its code. -/
def decode (c : Codec) (s : Signedness) (bytes : List UInt8) : Except Error (Int × Nat) :=
  match c, s with
  | .base128, s => match Base128.decode bytes with
    | .ok (n, len) => .ok (s.unfold n, len)
    | .error e => .error (.decode e)
  | .lengthPrefixed, .unsigned => match LengthPrefixed.decodeUnsigned bytes with
    | .ok (n, len) => .ok ((n : Int), len)
    | .error e => .error (.decode e)
  | .lengthPrefixed, .signed => match LengthPrefixed.decodeSigned bytes with
    | .ok r => .ok r
    | .error e => .error (.decode e)

@[simp] theorem length_sized (c : Codec) (s : Signedness) (v : Int) :
    (c.sized s v).length = c.size s v := by
  cases c <;> simp [sized, size, LengthPrefixed.size, Nat.add_comm]

theorem sized_eq_code (c : Codec) (s : Signedness) (v : Int) : c.sized s v = c.code s v := by
  cases c with
  | base128 => exact Base128.groups_size _
  | lengthPrefixed => exact LengthPrefixed.sized_width _

@[simp] theorem length_code (c : Codec) (s : Signedness) (v : Int) :
    (c.code s v).length = c.size s v := by
  rw [← sized_eq_code, length_sized]

theorem decode_code (c : Codec) {s : Signedness} {v : Int} (h : s.Admits v) (rest : List UInt8) :
    c.decode s (c.code s v ++ rest) = .ok (v, c.size s v) := by
  cases c with
  | base128 =>
    have hlt : s.fold v < 2 * 128 ^ 9 := Signedness.fold_lt h
    have hd := Base128.decodeWithin_code hlt rest
    simp only [decode, code, size, Base128.decode, Base128.maxLen, hd, Signedness.unfold_fold h]
  | lengthPrefixed =>
    cases s with
    | unsigned =>
      simp only [Signedness.Admits] at h
      have hd := LengthPrefixed.split_code (v := v) (by omega) rest
      have hv : ¬ v < 0 := by omega
      simp only [decode, code, size, LengthPrefixed.decodeUnsigned, hd, hv, decide_false]
      simp
      omega
    | signed =>
      simp only [Signedness.Admits] at h
      have hd := LengthPrefixed.split_code (v := v) (by omega) rest
      simp only [decode, code, size, LengthPrefixed.decodeSigned, hd]
      by_cases hv : v < 0
      · simp only [hv, decide_true, if_true]
        rw [if_neg (by omega)]
        simp only [Except.ok.injEq, Prod.mk.injEq, and_true]
        omega
      · simp only [hv, decide_false, Bool.false_eq_true, if_false]
        rw [if_neg (by omega)]
        simp only [Except.ok.injEq, Prod.mk.injEq, and_true]
        omega

/-! ## Codes in arrays -/

/-- Appends the code of `v`. Returns the longer array and the number of bytes appended. -/
def push (c : Codec) (s : Signedness) (v : Int) (out : Array UInt8) : Array UInt8 × Nat :=
  let bytes := c.code s v
  (out.appendList bytes, bytes.length)

/-- Writes the code of `v` into `dst` at `off`, all of it before `stop`. Returns the buffer and the
number of bytes written; if the code does not fit, the buffer is returned as it was. -/
def put (c : Codec) (s : Signedness) (dst : Array UInt8) (off stop : Nat) (v : Int) :
    Array UInt8 × Except Error Nat :=
  if off + c.size s v ≤ stop then
    (Bytes.overwrite dst off (c.sized s v), .ok (c.size s v))
  else
    (dst, .error (.capacityExceeded c.destination stop (off + c.size s v)))

/-- Reads the code at `off`, taking bytes before `stop` only. No code is longer than `maxLen`, so
a reader looks no further. -/
def get (c : Codec) (s : Signedness) (src : Array UInt8) (off stop : Nat) :
    Except Error (Int × Nat) :=
  c.decode s (Bytes.window src off stop c.maxLen)

/-- Reads codes one after another from `off` until `stop` is reached, at most `room` of them. -/
def getWithin (c : Codec) (s : Signedness) (src : Array UInt8) :
    (room off stop : Nat) → Except Error (List Int)
  | 0, _, _ => .ok []
  | room + 1, off, stop =>
    if stop ≤ off then .ok []
    else match c.get s src off stop with
      | .error e => .error e
      | .ok (v, len) => match c.getWithin s src room (off + len) stop with
        | .error e => .error e
        | .ok vs => .ok (v :: vs)

/-- Reads codes one after another from `off` until `stop` is reached. Each takes at least a byte. -/
def getAll (c : Codec) (s : Signedness) (src : Array UInt8) (off stop : Nat) :
    Except Error (List Int) :=
  c.getWithin s src (stop - off) off stop

/-! ## Sixty-four bit words -/

/-- The length of the code of an unsigned word. -/
def sizeUInt64 (c : Codec) (v : UInt64) : Nat := c.size .unsigned v.toNat

/-- The length of the code of a signed word. -/
def sizeInt64 (c : Codec) (v : Int64) : Nat := c.size .signed v.toInt

/-- Appends the code of an unsigned word. -/
def pushUInt64 (c : Codec) (v : UInt64) (out : Array UInt8) : Array UInt8 × Nat :=
  c.push .unsigned v.toNat out

/-- Appends the code of a signed word. -/
def pushInt64 (c : Codec) (v : Int64) (out : Array UInt8) : Array UInt8 × Nat :=
  c.push .signed v.toInt out

/-- Writes the code of an unsigned word in place. -/
def putUInt64 (c : Codec) (dst : Array UInt8) (off stop : Nat) (v : UInt64) :
    Array UInt8 × Except Error Nat :=
  c.put .unsigned dst off stop v.toNat

/-- Writes the code of a signed word in place. -/
def putInt64 (c : Codec) (dst : Array UInt8) (off stop : Nat) (v : Int64) :
    Array UInt8 × Except Error Nat :=
  c.put .signed dst off stop v.toInt

/-- Reads the code of an unsigned word. -/
def getUInt64 (c : Codec) (src : Array UInt8) (off stop : Nat) : Except Error (UInt64 × Nat) :=
  match c.get .unsigned src off stop with
  | .ok (v, len) => .ok (UInt64.ofNat v.toNat, len)
  | .error e => .error e

/-- Reads the code of a signed word. -/
def getInt64 (c : Codec) (src : Array UInt8) (off stop : Nat) : Except Error (Int64 × Nat) :=
  match c.get .signed src off stop with
  | .ok (v, len) => .ok (Int64.ofInt v, len)
  | .error e => .error e

/-- The name a codec is shown under. -/
def text : Codec → String
  | .base128 => "Base128"
  | .lengthPrefixed => "LengthPrefixed"

end Codec

/-- The name a signedness is shown under. -/
def Signedness.text : Signedness → String
  | .unsigned => "Unsigned"
  | .signed => "Signed"

end Adjacency
