import Adjacency.Binary64.Text
import Adjacency.Options
import Adjacency.Text.Record
import Adjacency.Toml.Document
import Adjacency.Word

/-!
# Options as text

Options are read from TOML documents and written as such. A document sets any of four keys; keys
that are missing keep their defaults and other keys are ignored. The counters are not part of a
document.
-/

namespace Adjacency

/-- The name of a codec in a document. -/
def Codec.key : Codec → String
  | .base128 => "base128"
  | .lengthPrefixed => "length_prefixed"

/-- The codec of a name. -/
def Codec.ofKey? (key : String) : Option Codec :=
  [Codec.base128, .lengthPrefixed].find? fun c ↦ c.key == key

namespace Options

/-! ## Reading -/

/-- A codec is written as its name, or as a table with its name as the only key and nothing in it.
-/
def codecOf : Toml.Value → Option Codec
  | .text s => Codec.ofKey? s
  | .table _ [(k, .table _ [])] => Codec.ofKey? k
  | .table _ [(k, .array [])] => Codec.ofKey? k
  | _ => none

/-- A count is a whole number that is not negative. -/
def countOf : Toml.Value → Option UInt64
  | .integer n => if 0 ≤ n then some (UInt64.ofNat n.toNat) else none
  | _ => none

/-- A factor is a number with or without a fraction. -/
def factorOf : Toml.Value → Option Binary64
  | .real x => some x
  | .integer n => some (Binary64.ofInt n)
  | _ => none

/-- The value of a key, a default if it is missing, nothing if it is of the wrong type. -/
def setting {α : Type} (t : Toml.Table) (key : String) (default : α)
    (decode : Toml.Value → Option α) : Option α :=
  match t.find? key with
  | none => some default
  | some v => decode v

/-- The options that a table sets. -/
def ofTable (t : Toml.Table) : Option Options := do
  let codec ← setting t "codec" default.codec codecOf
  let bytesPerEdge ← setting t "bytes_per_edge" default.bytesPerEdge countOf
  let minFanOut ← setting t "min_fan_out" default.minFanOut countOf
  let growth ← setting t "arena_growth_factor" default.growth factorOf
  return { codec, bytesPerEdge, minFanOut, growth, metrics := none }

/-- The options that a document sets. They must be usable. -/
def ofDocument (document : String) : Except Error Options :=
  match (Toml.read document).bind ofTable with
  | none => .error .config
  | some options =>
    match options.validate with
    | .ok () => .ok options
    | .error e => .error (.invalid e)

/-- The options that a file sets, given its bytes if it exists. -/
def ofFile (content : Option ByteArray) : Except Error Options :=
  match content.bind String.fromUTF8? with
  | none => .error .file
  | some document => ofDocument document

/-! ## Writing -/

/-- Numbers in a document never have an exponent. -/
def documentStyle : Binary64.Style where
  nan := "nan"
  positional := none

/-- Numbers in a record have an exponent from `10 ^ 16` on and below `10 ^ (-4)`. -/
def recordStyle : Binary64.Style where
  nan := "NaN"
  positional := some (-4, 16)

/-- The options as a document. A document cannot hold whole numbers beyond the signed ones. -/
def toDocument (o : Options) : Option String :=
  if Word.signedMax < o.bytesPerEdge.toNat ∨ Word.signedMax < o.minFanOut.toNat then none
  else some ("codec = \"" ++ o.codec.key ++ "\"\nbytes_per_edge = " ++ toString o.bytesPerEdge.toNat
    ++ "\nmin_fan_out = " ++ toString o.minFanOut.toNat
    ++ "\narena_growth_factor = " ++ o.growth.text documentStyle ++ "\n")

/-- The options as a record. -/
def record (o : Options) : String :=
  Text.record "StoreOptions"
    [("codec", o.codec.text), ("bytes_per_edge", toString o.bytesPerEdge.toNat),
      ("min_fan_out", toString o.minFanOut.toNat),
      ("arena_growth_factor", o.growth.text recordStyle),
      ("metrics", if o.metrics.isSome then "true" else "false")]

end Options

end Adjacency
