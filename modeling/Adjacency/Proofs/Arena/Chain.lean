import Adjacency.Arena.Append
import Adjacency.Proofs.Codec.InPlace

/-!
# Chains without bytes

What a node's blocks hold, apart from how the arena lays it out: a page is a block with the
differences in it, and a chain is a list of full pages followed by one page that takes the next
difference. The ids of the node are the running sums of all differences.

An id is added in one of two ways. Either its difference goes to the last page (`extend`) or the
last page is full and a new one takes it (`turn`). Both append that id to the ids of the chain and
do nothing else to them (`ids_extend`, `ids_turn`).
-/

namespace Adjacency

/-- A block and the differences that it holds. -/
structure Page where
  /-- Where the block begins. -/
  block : Nat
  deltas : List Int64

/-- The blocks of one node. -/
structure Chain where
  /-- The pages that were found full, the oldest first. -/
  full : List Page
  /-- The page that takes the next difference. -/
  last : Page

/-! ## Running sums -/

namespace Arena

theorem ofInt_toInt_toInt64 (x : UInt64) : UInt64.ofInt x.toInt64.toInt = x := by
  have hbits : UInt64.ofInt x.toInt64.toInt = ⟨BitVec.ofInt 64 x.toInt64.toInt⟩ := by
    apply UInt64.toNat_inj.mp
    simp [UInt64.ofInt, BitVec.ofInt]
    omega
  rw [hbits, BitVec.ofInt_int64ToInt]
  rfl

theorem add_ofInt_sub (last target : UInt64) :
    last + UInt64.ofInt ((target - last).toInt64).toInt = target := by
  rw [ofInt_toInt_toInt64, UInt64.add_comm, UInt64.sub_add_cancel]

theorem sums_append (last : UInt64) (ds es : List Int) :
    sums last (ds ++ es) = sums last ds ++ sums ((sums last ds).getLastD last) es := by
  induction ds generalizing last with
  | nil => rfl
  | cons d ds ih => rw [List.cons_append, sums, sums, ih, List.cons_append, List.getLastD_cons]

end Arena

namespace Page

/-- The differences as integers. -/
def ints (p : Page) : List Int := p.deltas.map Int64.toInt

/-- The codes of the differences. -/
def code (c : Codec) (p : Page) : List UInt8 := c.codes .signed p.ints

/-- How many bytes the differences take. -/
def used (c : Codec) (p : Page) : Nat := (p.code c).length

/-- The page with one more difference. -/
def extend (p : Page) (d : Int64) : Page := ⟨p.block, p.deltas ++ [d]⟩

variable (c : Codec) (p : Page) (d : Int64)

@[simp] theorem block_extend : (p.extend d).block = p.block := rfl

theorem ints_extend : (p.extend d).ints = p.ints ++ [d.toInt] := List.map_append

theorem code_extend : (p.extend d).code c = p.code c ++ c.code .signed d.toInt := by
  rw [code, ints_extend, Codec.codes_append, Codec.codes_singleton, code]

theorem used_extend : (p.extend d).used c = p.used c + c.sizeInt64 d := by
  rw [used, code_extend, List.length_append, Codec.length_code, used, Codec.sizeInt64]

theorem code_singleton (block : Nat) : (⟨block, [d]⟩ : Page).code c = c.code .signed d.toInt :=
  c.codes_singleton .signed d.toInt

theorem used_singleton (block : Nat) : (⟨block, [d]⟩ : Page).used c = c.sizeInt64 d := by
  rw [used, code_singleton, Codec.length_code, Codec.sizeInt64]

theorem admits_ints : ∀ v ∈ p.ints, Signedness.signed.Admits v := by
  intro v hv
  obtain ⟨e, -, rfl⟩ := List.mem_map.mp hv
  exact Signedness.admits_toInt e

theorem used_eq_zero : p.used c = 0 ↔ p.deltas = [] := by
  have hle := c.length_le_length_codes .signed p.ints
  constructor
  · intro h
    rw [used, code] at h
    rw [← List.map_eq_nil_iff (f := Int64.toInt), ← List.length_eq_zero_iff]
    exact Nat.le_zero.mp (h ▸ hle)
  · intro h
    rw [used, code, ints, h]
    rfl

end Page

/-! ## Chains -/

namespace Chain

/-- All pages, the oldest first. -/
def pages (k : Chain) : List Page := k.full ++ [k.last]

/-- Where the blocks begin. -/
def blocks (k : Chain) : List Nat := k.pages.map Page.block

/-- All differences. -/
def deltas (k : Chain) : List Int := k.pages.flatMap Page.ints

/-- The ids that the differences lead through. -/
def ids (k : Chain) : List UInt64 := Arena.sums 0 k.deltas

/-- The last id, zero if there is none. -/
def lastId (k : Chain) : UInt64 := k.ids.getLastD 0

/-- The difference from the last id to another one, in 64 bits that wrap around. -/
def step (k : Chain) (target : UInt64) : Int64 := (target - k.lastId).toInt64

/-- The chain with one more difference in the last page. -/
def extend (k : Chain) (d : Int64) : Chain := ⟨k.full, k.last.extend d⟩

/-- The chain with one more page and one difference in it. -/
def turn (k : Chain) (block : Nat) (d : Int64) : Chain := ⟨k.pages, ⟨block, [d]⟩⟩

/-- A chain that holds nothing. -/
def blank (block : Nat) : Chain := ⟨[], ⟨block, []⟩⟩

variable (k : Chain) (block : Nat) (d : Int64)

theorem blocks_extend : (k.extend d).blocks = k.blocks := by
  rw [blocks, pages, extend, List.map_append, blocks, pages, List.map_append]
  rfl

theorem blocks_turn : (k.turn block d).blocks = k.blocks ++ [block] := List.map_append

theorem deltas_extend : (k.extend d).deltas = k.deltas ++ [d.toInt] := by
  simp only [deltas, pages, extend, List.flatMap_append, List.flatMap_singleton, Page.ints_extend,
    List.append_assoc]

theorem deltas_turn : (k.turn block d).deltas = k.deltas ++ [d.toInt] := List.flatMap_append

theorem sums_deltas_append (target : UInt64) :
    Arena.sums 0 (k.deltas ++ [(k.step target).toInt]) = k.ids ++ [target] := by
  rw [Arena.sums_append, Arena.sums, Arena.sums, ← ids, ← lastId, step, Arena.add_ofInt_sub]

theorem ids_extend (target : UInt64) :
    (k.extend (k.step target)).ids = k.ids ++ [target] := by
  rw [ids, deltas_extend, sums_deltas_append]

theorem ids_turn (target : UInt64) :
    (k.turn block (k.step target)).ids = k.ids ++ [target] := by
  rw [ids, deltas_turn, sums_deltas_append]

theorem lastId_of_ids_append {target : UInt64} {l : Chain} (h : l.ids = k.ids ++ [target]) :
    l.lastId = target := by
  rw [lastId, h, List.getLastD_concat]

end Chain

end Adjacency
