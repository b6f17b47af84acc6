import Adjacency.Proofs.Codec.InPlace

/-!
# Codes appended and codes in place

A code is appended to a vector, or written over bytes that are there already, and its length is
known without either. The three agree: there is one list of bytes for each integer, of the length
foretold, that both writers leave wherever they write (`writes_words`).
-/

namespace Adjacency

namespace Codec

open Bytes (StandsAt standsAt_overwrite)

variable (c : Codec) {s : Signedness} {v : Int} {dst : Array UInt8} {off stop : Nat}

@[simp] theorem toList_push (s : Signedness) (v : Int) (out : Array UInt8) :
    (c.push s v out).1.toList = out.toList ++ c.code s v := Array.toList_appendList

theorem toList_foldl_push {α : Type} (int : α → Int) (s : Signedness) (vs : List α)
    (out : Array UInt8) :
    (vs.foldl (fun out v ↦ (c.push s (int v) out).1) out).toList
      = out.toList ++ c.codes s (vs.map int) := by
  induction vs generalizing out with
  | nil => rw [List.foldl_nil, List.map_nil, codes_nil, List.append_nil]
  | cons v vs ih =>
    rw [List.foldl_cons, ih, toList_push, List.map_cons, codes_cons, List.append_assoc]

theorem standsAt_put (hroom : off + c.size s v ≤ stop) (hstop : stop ≤ dst.size) :
    StandsAt (c.put s dst off stop v).1 off (c.code s v) := by
  rw [c.put_of_le hroom]
  exact standsAt_overwrite (by rw [length_code]; omega)

/-- Both writers leave the same `bytes`, of the length that `size` foretells: one behind the bytes
of any vector, which it does not change, and one at any place of a buffer that has room for
them. -/
structure Writes (bytes : List UInt8) (size : Nat) (push : Array UInt8 → Array UInt8 × Nat)
    (put : Array UInt8 → (off stop : Nat) → Array UInt8 × Except Error Nat) : Prop where
  length_eq : bytes.length = size
  pushed : ∀ out, (push out).1.toList = out.toList ++ bytes
  pushed_count : ∀ out, (push out).2 = size
  placed : ∀ dst off stop, stop ≤ dst.size → off + size ≤ stop →
    StandsAt (put dst off stop).1 off bytes
  placed_count : ∀ dst off stop, off + size ≤ stop → (put dst off stop).2 = .ok size

theorem writes_code (s : Signedness) (v : Int) :
    Writes (c.code s v) (c.size s v) (c.push s v) fun dst off stop ↦ c.put s dst off stop v where
  length_eq := length_code c s v
  pushed := c.toList_push s v
  pushed_count _ := length_code c s v
  placed _ _ _ hstop hroom := c.standsAt_put hroom hstop
  placed_count _ _ _ hroom := by rw [c.put_of_le hroom]

/-- **There is one code of each word,** whoever writes it and wherever. -/
theorem writes_words :
    (∀ v : UInt64, ∃ bytes, Writes bytes (c.sizeUInt64 v) (c.pushUInt64 v)
        fun dst off stop ↦ c.putUInt64 dst off stop v) ∧
      ∀ v : Int64, ∃ bytes, Writes bytes (c.sizeInt64 v) (c.pushInt64 v)
        fun dst off stop ↦ c.putInt64 dst off stop v :=
  ⟨fun v ↦ ⟨_, c.writes_code .unsigned v.toNat⟩, fun v ↦ ⟨_, c.writes_code .signed v.toInt⟩⟩

end Codec

end Adjacency
