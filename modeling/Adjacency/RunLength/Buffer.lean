import Adjacency.Codec
import Adjacency.Outcome
import Adjacency.RunLength.Bias
import Adjacency.RunLength.Preset

/-!
# Run-length buffers

A buffer holds one sequence of signed 64-bit integers in a fixed stretch of bytes. It is filled in a
write pass and replayed in any number of read passes; `toggle` ends one pass and begins one of the
other kind. Equal neighbours are collapsed: a value that stands alone is written as itself, a run of
`k > 1` equal values as the marker, `k` and the value, all of them biased away from the marker.

The latest run stays pending until a different value, a flush or the end of the pass, because it may
still grow. A run that does not fit is not written: the cursor stays where it was, and only bytes
behind the cursor may have changed.
-/

namespace Adjacency

namespace RunLength

/-- What a buffer is currently used for. -/
inductive Mode
  | write
  | read
  deriving DecidableEq, Repr, Inhabited

/-- The name a mode is shown under. -/
def Mode.text : Mode → String
  | .write => "Write"
  | .read => "Read"

/-- The bytes at the front of a buffer that tell its size. -/
def headerLen : Nat := 4

/-- A sequence of integers in a fixed stretch of bytes. -/
structure Buffer where
  /-- All bytes, header included. -/
  bytes : Array UInt8
  /-- How numbers are written. -/
  codec : Codec
  /-- Whether negative values are accepted. -/
  signedness : Signedness
  /-- The kind of the current pass. -/
  mode : Mode
  /-- Where the next code is written or read. -/
  pos : Nat
  /-- Where the codes of the last write pass end. -/
  stop : Nat
  /-- The value of the current run. -/
  last : Int64
  /-- How many values of the current run are pending: not yet written, or not yet read. -/
  pending : Nat
  /-- How many values the last write pass wrote. -/
  stored : Nat
  /-- How many bytes the last write pass took. -/
  used : Nat

namespace Buffer

/-- A buffer about to be filled. Its header is left as it is. -/
def ofBytes (bytes : Array UInt8) (codec : Codec) (signedness : Signedness) : Buffer where
  bytes
  codec
  signedness
  mode := .write
  pos := headerLen
  stop := headerLen
  last := 0
  pending := 0
  stored := 0
  used := 0

/-- A fresh buffer of a given size. -/
def ofPreset (size : Preset) (codec : Codec) (signedness : Signedness) : Buffer :=
  ofBytes size.allocate codec signedness

/-- The number of bytes, header included. -/
def capacity (b : Buffer) : Nat := b.bytes.size

/-- The size told by the header. -/
def declaredSize (b : Buffer) : Option UInt32 :=
  BigEndian.get32? (Bytes.window b.bytes 0 headerLen headerLen)

/-- The cursor in front of the first code, with no run pending. -/
def atStart (b : Buffer) : Buffer := { b with pos := headerLen, last := 0, pending := 0 }

/-! ## Writing -/

/-- Writes one number at the cursor. -/
def writeRaw (b : Buffer) (raw : Int) : Outcome Buffer Unit :=
  match b with
  | ⟨bytes, codec, signedness, mode, pos, stop, last, pending, stored, used⟩ =>
    match codec.put signedness bytes pos bytes.size raw with
    | (bytes, .ok n) =>
      .done ⟨bytes, codec, signedness, mode, pos + n, stop, last, pending, stored, used + n⟩ ()
    | (bytes, .error e) =>
      let capacity := bytes.size
      .fail ⟨bytes, codec, signedness, mode, pos, stop, last, pending, stored, used⟩ e
        [.bufferFull capacity pos stored]

/-- Writes numbers at the cursor, up to the first that does not fit. -/
def writeRaws (b : Buffer) : List Int → Outcome Buffer Unit
  | [] => .done b ()
  | raw :: raws => (b.writeRaw raw).andThen fun b _ ↦ b.writeRaws raws

/-- The numbers that a run of `count` values `v` is written as. -/
def rawsOfRun (v : Int64) (count : Nat) : Except Error (List Int) :=
  if count ≤ 1 then
    match bias v.toInt with
    | .ok raw => .ok [raw]
    | .error e => .error e
  else if Word.signedMax < count then .error (.invalid .runTooLong)
  else match bias count, bias v.toInt with
    | .error e, _ => .error e
    | _, .error e => .error e
    | .ok rawCount, .ok raw => .ok [marker, rawCount, raw]

/-- Writes the pending run, if there is one. -/
def flush (b : Buffer) : Outcome Buffer Unit :=
  if b.mode = .read ∨ b.pending = 0 then .done b ()
  else match rawsOfRun b.last b.pending with
    | .error e => .fail b e []
    | .ok raws =>
      -- The cursor goes back if not all numbers of the run fit.
      let pos := b.pos
      let used := b.used
      match b.writeRaws raws with
      | ⟨.ok _, b, events⟩ =>
        ⟨.ok (), { b with stored := b.stored + b.pending, pending := 0 }, events⟩
      | ⟨.error e, b, events⟩ => ⟨.error e, { b with pos := pos, used := used }, events⟩

/-- Adds a value to the sequence. -/
def store (b : Buffer) (v : Int64) : Outcome Buffer Unit :=
  if b.mode = .read then .fail b (.sequencing .storeWhileReading) []
  else if b.signedness = .unsigned ∧ v < 0 then .fail b (.invalid .negativeForUnsigned) []
  else if 0 < b.pending ∧ v = b.last then .done { b with pending := b.pending + 1 } ()
  else b.flush.andThen fun b _ ↦ .done { b with last := v, pending := 1 } ()

/-! ## Passes -/

/-- Ends the current pass and begins one of the other kind. A write pass is flushed first; a new
write pass starts over. -/
def toggle (b : Buffer) : Outcome Buffer Unit :=
  match b.mode with
  | .write => b.flush.andThen fun b _ ↦
    .done { b with stop := b.pos, mode := .read }.atStart ()
  | .read => .done { b with stop := headerLen, stored := 0, used := 0, mode := .write }.atStart ()

/-- Begins the read pass anew. -/
def rewind (b : Buffer) : Outcome Buffer Unit :=
  if b.mode = .read then .done b.atStart () else .fail b (.sequencing .rewindWhileWriting) []

/-! ## Reading -/

/-- Reads one number at the cursor. -/
def readRaw (b : Buffer) : Outcome Buffer Int :=
  if b.stop ≤ b.pos then .fail b (.decode .pastEnd) []
  else match b.codec.get b.signedness b.bytes b.pos b.stop with
    | .error e => .fail b e []
    | .ok (raw, len) =>
      if b.signedness = .unsigned ∧ (Word.signedMax : Int) < raw then
        .fail b (.decode .unsignedOverflow) []
      else .done { b with pos := b.pos + len } raw

/-- Reads one number at the cursor as a biased value. -/
def readBiased (b : Buffer) : Outcome Buffer Int :=
  b.readRaw.andThen fun b raw ↦
    match unbias raw with
    | .ok v => .done b v
    | .error e => .fail b e []

/-- Reads the next run, all of whose values become pending. -/
def readRun (b : Buffer) : Outcome Buffer Unit :=
  b.readRaw.andThen fun b raw ↦
    if raw = marker then
      b.readBiased.andThen fun b count ↦
        if count < 2 then .fail b (.decode .shortRun) []
        -- The run is pending from here on, also if its value cannot be read.
        else (Outcome.done { b with pending := count.toNat } ()).andThen fun b _ ↦
          b.readBiased.andThen fun b v ↦ .done { b with last := Int64.ofInt v } ()
    else .done { b with pending := 1, last := Int64.ofInt (back raw) } ()

/-- Takes one value of the pending run. -/
def takePending (b : Buffer) : Outcome Buffer Int64 :=
  .done { b with pending := b.pending - 1 } b.last

/-- Reads the next value of the sequence. -/
def read (b : Buffer) : Outcome Buffer Int64 :=
  if b.mode = .write then .fail b (.sequencing .readWhileWriting) []
  else if b.pending = 0 then b.readRun.andThen fun b _ ↦ b.takePending
  else b.takePending

end Buffer

end RunLength

end Adjacency
