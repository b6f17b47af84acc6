import Adjacency.Proofs.Arena.Holding

/-!
# What an append does to an arena

An append to a held chain has three possible outcomes. If the last block has room for the difference
and the id, they are laid over its end (`append_of_room`). If it has not, the outcome is that of
`allocateBlock`: with a new block the last one is linked to it and the id goes there
(`append_of_allocated`), without one the append fails and the arena is as it was
(`append_of_refused`). Each outcome is given in full, with the trace and the events.
-/

namespace Adjacency

open Bytes (StandsAt overwrite)

namespace Arena

/-! ## Arenas after a write -/

/-- The arena with bytes laid over it. -/
def wrote (a : Arena) (off : Nat) (code : List UInt8) : Arena :=
  { a with bytes := overwrite a.bytes off code }

/-- The arena with a difference and an id in a slot, and the header word of its block updated. -/
def placed (a : Arena) (slot : Slot) (delta : Int64) (target : UInt64) : Arena :=
  let word := slot.used + a.codec.sizeInt64 delta
  let written := (a.wrote (slot.block + a.layout.headerLen + slot.used)
    (a.codec.code .signed delta.toInt ++ a.codec.code .unsigned target.toNat)).wrote slot.block
      (a.codec.code .unsigned word)
  { written with
    bytesWritten := a.bytesWritten + (a.codec.sizeInt64 delta + a.codec.sizeUInt64 target +
      (slot.linkLen + a.codec.size .unsigned word)) }

/-- The arena with one more block, all zero. -/
def grown (a : Arena) (capacity : Nat) : Arena :=
  { a with
    bytes := a.bytes ++ Array.replicate a.layout.blockSize 0
    capacity
    nextFree := a.bytes.size + a.layout.blockSize
    reallocations := a.reallocations + 1 }

variable (a : Arena) (off capacity : Nat) (code : List UInt8) (slot : Slot) (delta : Int64)
  (target : UInt64)

@[simp] theorem codec_wrote : (a.wrote off code).codec = a.codec := rfl

@[simp] theorem layout_wrote : (a.wrote off code).layout = a.layout := rfl

@[simp] theorem size_bytes_wrote : (a.wrote off code).bytes.size = a.bytes.size :=
  Bytes.size_overwrite a.bytes off code

@[simp] theorem codec_placed : (a.placed slot delta target).codec = a.codec := rfl

@[simp] theorem layout_placed : (a.placed slot delta target).layout = a.layout := rfl

@[simp] theorem size_bytes_placed : (a.placed slot delta target).bytes.size = a.bytes.size := by
  rw [placed, size_bytes_wrote, size_bytes_wrote]

@[simp] theorem size_bytes_grown :
    (a.grown capacity).bytes.size = a.bytes.size + a.layout.blockSize := by
  rw [grown, Array.size_append, Array.size_replicate]

/-! ## Writing -/

variable {a off capacity code slot delta target} {nodes room node stop : Nat} {k : Chain}

theorem write_of_le {s : Signedness} {v : Int} (h : off + a.codec.size s v ≤ stop) :
    a.write s off stop v = .done (a.wrote off (a.codec.code s v)) (a.codec.size s v) := by
  rw [write, a.codec.put_of_le h]
  rfl

theorem writeHeader_of_le {block word : Nat}
    (h : a.codec.size .unsigned word ≤ a.layout.headerLen) :
    a.writeHeader block word
      = .done (a.wrote block (a.codec.code .unsigned word)) (a.codec.size .unsigned word) := by
  have hput : a.codec.put .unsigned (a.bytes.extract block (block + a.layout.headerLen)) 0
      a.layout.headerLen word = _ := a.codec.put_of_le (by omega)
  rw [writeHeader]
  dsimp only
  rw [hput]
  dsimp only
  rw [Bytes.overwrite_extract (by rw [Codec.length_code]; exact h)]
  rfl

theorem place_of_lt
    (hroom : a.layout.headerLen + slot.used + a.codec.sizeInt64 delta + a.codec.sizeUInt64 target
      < a.layout.blockSize)
    (hword : a.codec.size .unsigned (slot.used + a.codec.sizeInt64 delta : Nat)
      ≤ a.layout.headerLen) :
    a.place slot delta target
      = .done (a.placed slot delta target)
        (a.codec.sizeInt64 delta, a.codec.sizeUInt64 target,
          slot.linkLen + a.codec.size .unsigned (slot.used + a.codec.sizeInt64 delta : Nat)) := by
  rw [Codec.sizeInt64, Codec.sizeUInt64] at hroom
  rw [Codec.sizeInt64] at hword
  have hjoin : ∀ pos, (a.wrote pos (a.codec.code .signed delta.toInt)).wrote
      (pos + a.codec.size .signed delta.toInt) (a.codec.code .unsigned target.toNat)
        = a.wrote pos (a.codec.code .signed delta.toInt ++ a.codec.code .unsigned target.toNat) := by
    intro pos
    rw [wrote, wrote, wrote, ← Bytes.overwrite_append, Codec.length_code]
  rw [place]
  dsimp only
  rw [write_of_le (by omega), Outcome.done_andThen, write_of_le (by rw [codec_wrote]; omega),
    Outcome.done_andThen, codec_wrote, hjoin, writeHeader_of_le (by exact hword),
    Outcome.done_andThen]
  rfl

/-! ## New blocks -/

theorem reserveUpTo_cases
    (hle : a.bytes.size + a.layout.blockSize ≤ a.layout.arenaLimit) :
    (∃ grow, a.reserveUpTo (a.bytes.size + a.layout.blockSize) = .fail a
      (.capacityExceeded .pagedArena a.capacity (a.bytes.size + a.layout.blockSize))
      [.arenaReserveFailed a.bytes.size grow]) ∨
    ∃ capacity, a.capacity ≤ capacity ∧ a.bytes.size + a.layout.blockSize ≤ capacity ∧
      capacity ≤ max a.capacity a.layout.arenaLimit ∧
      a.reserveUpTo (a.bytes.size + a.layout.blockSize) = .done { a with capacity } () := by
  rw [reserveUpTo]
  dsimp only
  split
  · next hcap => exact Or.inr ⟨a.capacity, Nat.le_refl _, hcap, Nat.le_max_left _ _, rfl⟩
  · next hcap =>
    -- Memory grows by half, by a block at least, and not beyond the limit.
    generalize hgrow : min (max (a.bytes.size / 2) a.layout.blockSize)
      (a.layout.arenaLimit - a.bytes.size) = grow
    split
    · refine Or.inr ⟨Memory.extend a.bytes.size a.capacity grow, ?_, ?_, ?_, rfl⟩
      · exact Nat.le_max_left _ _
      · rw [Memory.extend]
        omega
      · rw [Memory.extend]
        omega
    · exact Or.inl ⟨grow, rfl⟩

/-- A request for a block is granted, or refused because of the limit or because there is no memory.
A refused request leaves no trace in the arena. -/
theorem allocateBlock_cases (hfree : a.nextFree = a.bytes.size) :
    (a.layout.arenaLimit < a.bytes.size + a.layout.blockSize ∧
      a.allocateBlock = .fail a
        (.capacityExceeded .pagedArena a.layout.arenaLimit (a.bytes.size + a.layout.blockSize))
        [.arenaExhausted a.layout.arenaLimit (a.bytes.size + a.layout.blockSize)
          a.reallocations]) ∨
    (a.bytes.size + a.layout.blockSize ≤ a.layout.arenaLimit ∧ ∃ grow,
      a.allocateBlock = .fail a
        (.capacityExceeded .pagedArena a.capacity (a.bytes.size + a.layout.blockSize))
        [.arenaReserveFailed a.bytes.size grow]) ∨
    (a.bytes.size + a.layout.blockSize ≤ a.layout.arenaLimit ∧ ∃ capacity,
      a.capacity ≤ capacity ∧ a.bytes.size + a.layout.blockSize ≤ capacity ∧
      capacity ≤ max a.capacity a.layout.arenaLimit ∧
      a.allocateBlock = .done (a.grown capacity) a.bytes.size) := by
  rw [allocateBlock, hfree]
  dsimp only
  split
  · next hlimit => exact Or.inl ⟨hlimit, rfl⟩
  · next hlimit =>
    have hle : a.bytes.size + a.layout.blockSize ≤ a.layout.arenaLimit := Nat.le_of_not_lt hlimit
    refine Or.inr ?_
    rcases reserveUpTo_cases hle with ⟨grow, heq⟩ | ⟨capacity, hcap, hstop, hmax, heq⟩
    · refine Or.inl ⟨hle, grow, ?_⟩
      rw [heq, Outcome.fail_andThen]
    · refine Or.inr ⟨hle, capacity, hcap, hstop, hmax, ?_⟩
      rw [heq, Outcome.done_andThen, Nat.add_sub_cancel_left, grown]

theorem event_of_allocateBlock (hfree : a.nextFree = a.bytes.size) {cause : Error} {event : Event}
    (h : a.allocateBlock = .fail a cause [event]) :
    event.level? = some .warn ∧ event.measure? = none := by
  rcases allocateBlock_cases hfree with ⟨-, heq⟩ | ⟨-, grow, heq⟩ | ⟨-, capacity, -, -, -, heq⟩
  · rw [heq] at h
    cases h
    exact ⟨rfl, rfl⟩
  · rw [heq] at h
    cases h
    exact ⟨rfl, rfl⟩
  · rw [heq] at h
    exact nomatch congrArg Outcome.result h

/-! ## Appending to a held chain -/

/-- The slot behind the last difference of a chain. -/
def lastSlot (a : Arena) (k : Chain) : Slot := ⟨k.last.block, k.last.used a.codec, 0, false⟩

/-- The header word that leads from the last block of a chain to the end of the arena. -/
def linkWord (a : Arena) (k : Chain) : Nat := a.bytes.size + k.last.used a.codec

/-- The arena with one more block and the last block of a chain linked to it. -/
def linked (a : Arena) (k : Chain) (capacity : Nat) : Arena :=
  (a.grown capacity).wrote k.last.block (a.codec.code .unsigned (a.linkWord k))

/-- The slot in a block that was added for a chain. -/
def newSlot (a : Arena) (k : Chain) : Slot :=
  ⟨a.bytes.size, 0, a.codec.size .unsigned (a.linkWord k), true⟩

/-- The trace of an id put into a slot behind a chain. -/
def traceOf (a : Arena) (node : Nat) (k : Chain) (slot : Slot) (target : UInt64) :
    AppendTrace where
  node
  startBlock := k.start
  block := slot.block
  entryOffset := slot.used
  pageHops := k.full.length
  lastValue := k.lastId
  delta := k.step target
  deltaLen := a.codec.sizeInt64 (k.step target)
  tailLen := a.codec.sizeUInt64 target
  headerLen := slot.linkLen +
    a.codec.size .unsigned (slot.used + a.codec.sizeInt64 (k.step target) : Nat)
  relocatedTo := if slot.isNew then some slot.block else none

/-- The bytes that a chain needs in its last block if an id is to be added there. -/
def demand (a : Arena) (k : Chain) (target : UInt64) : Nat :=
  a.layout.headerLen + k.last.used a.codec + a.codec.sizeInt64 (k.step target) +
    a.codec.sizeUInt64 target

@[simp] theorem codec_linked : (a.linked k capacity).codec = a.codec := rfl

@[simp] theorem layout_linked : (a.linked k capacity).layout = a.layout := rfl

@[simp] theorem size_bytes_linked :
    (a.linked k capacity).bytes.size = a.bytes.size + a.layout.blockSize := by
  rw [linked, size_bytes_wrote, size_bytes_grown]

section Outcomes

variable (hl : a.layout.Sound a.codec nodes room) (h : a.HoldsChain k)
  (hroot : a.root node = k.start)

include hl h hroot

theorem append_eq :
    let o := a.appendAt node ⟨k.last.block, k.last.used a.codec, k.full.length⟩ k.lastId target
    a.append node target = ⟨o.result, o.state, .pageHops k.full.length :: o.events⟩ := by
  rw [append, hroot, h.locate_eq hl]
  dsimp only
  rw [h.lastValue_eq]
  rfl

theorem append_of_slot {b : Arena} {events : List Event}
    (hslot : a.slotFor node ⟨k.last.block, k.last.used a.codec, k.full.length⟩
      (a.codec.sizeInt64 (k.step target)) (a.codec.sizeUInt64 target) = ⟨.ok slot, b, events⟩)
    (hcodec : b.codec = a.codec) (hlayout : b.layout = a.layout)
    (hroom : a.layout.headerLen + slot.used + a.codec.sizeInt64 (k.step target)
      + a.codec.sizeUInt64 target < a.layout.blockSize)
    (hlimit : a.layout.blockSize ≤ a.layout.arenaLimit) :
    a.append node target
      = ⟨.ok (a.traceOf node k slot target), b.placed slot (k.step target) target,
        .pageHops k.full.length :: events⟩ := by
  -- The arena in which the slot was found may have grown, but its layout is the same.
  have hplace : b.place slot (k.step target) target
      = .done (b.placed slot (k.step target) target) (a.codec.sizeInt64 (k.step target),
          a.codec.sizeUInt64 target, slot.linkLen +
            a.codec.size .unsigned (slot.used + a.codec.sizeInt64 (k.step target) : Nat)) := by
    rw [← hcodec]
    refine place_of_lt ?_ ?_
    · rw [hcodec, hlayout]
      exact hroom
    · rw [hcodec, hlayout]
      exact hl.size_le_headerLen (by omega)
  rw [append_eq hl h hroot, appendAt, ← Chain.step, hslot, Outcome.ok_andThen, hplace,
    Outcome.done_andThen, hroot]
  simp only [Outcome.done, List.append_nil, traceOf]

/-- **An id that fits goes to the last block.** -/
theorem append_of_room (hsize : a.bytes.size ≤ a.layout.arenaLimit)
    (hroom : a.demand k target < a.layout.blockSize) :
    a.append node target
      = ⟨.ok (a.traceOf node k (a.lastSlot k) target),
        a.placed (a.lastSlot k) (k.step target) target, [.pageHops k.full.length]⟩ := by
  have hle := h.last.block_le
  refine append_of_slot hl h hroot ?_ rfl rfl hroom (by omega)
  rw [slotFor, isFull]
  dsimp only
  rw [← demand, decide_eq_false (Nat.not_le_of_lt hroom), if_neg Bool.false_ne_true]
  rfl

/-- **An id that does not fit goes to a new block,** and the last block is linked to it. -/
theorem append_of_allocated (hpos : 0 < room)
    (hle : a.bytes.size + a.layout.blockSize ≤ a.layout.arenaLimit)
    (hfull : a.layout.blockSize ≤ a.demand k target)
    (hblock : a.allocateBlock = .done (a.grown capacity) a.bytes.size) :
    a.append node target
      = ⟨.ok (a.traceOf node k (a.newSlot k) target),
        (a.linked k capacity).placed (a.newSlot k) (k.step target) target,
        [.pageHops k.full.length, .blockRelocated node k.last.block a.bytes.size
          (k.last.used a.codec) k.full.length]⟩ := by
  have hlast := h.last.used_lt
  have hlink : a.codec.size .unsigned (a.linkWord k) ≤ a.layout.headerLen :=
    hl.size_le_headerLen (by rw [linkWord]; omega)
  refine append_of_slot hl h hroot ?_ rfl rfl (hl.headerLen_add_lt hpos (k.step target) target)
    (by omega)
  rw [slotFor, isFull]
  dsimp only
  rw [← demand, decide_eq_true hfull, if_pos rfl, relocate, hblock, Outcome.done_andThen,
    writeHeader_of_le (by exact hlink), Outcome.done_andThen]
  rfl

/-- **Without a new block the append fails** and the arena is as it was. -/
theorem append_of_refused {e : Error} {events : List Event}
    (hfull : a.layout.blockSize ≤ a.demand k target)
    (hblock : a.allocateBlock = .fail a e events) :
    a.append node target = .fail a e (.pageHops k.full.length :: events) := by
  rw [append_eq hl h hroot, appendAt, ← Chain.step, slotFor, isFull]
  dsimp only
  rw [← demand, decide_eq_true hfull, if_pos rfl, relocate, hblock, Outcome.fail_andThen,
    Outcome.fail_andThen]
  rfl

end Outcomes

end Arena

end Adjacency
