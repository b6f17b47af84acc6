/-!
# Causes of failure

Every call of the library that can fail names its cause by one value of `Error`. The five kinds say
who is at fault: a limit (`capacityExceeded`), the order of the calls (`sequencing`), the bytes
(`decode`), an argument (`invalid`), or an options document (`file`, `config`). `Error.message` is
the only place that turns a cause into words.
-/

namespace Adjacency

/-- What a limit was imposed on. -/
inductive Resource
  | varintDestination
  | lengthPrefixedDestination
  | nodeId
  | adjacencyEntries
  | nodeTable
  | plainArray
  | plainArrays
  | byteArray
  | byteArrays
  | pagedBlock
  | pagedArena
  deriving DecidableEq, Repr

/-- The name a limit is reported under. -/
def Resource.text : Resource → String
  | .varintDestination => "varint destination"
  | .lengthPrefixedDestination => "length-prefixed destination"
  | .nodeId => "node id"
  | .adjacencyEntries => "adjacency entries"
  | .nodeTable => "node table"
  | .plainArray => "plain array"
  | .plainArrays => "plain arrays"
  | .byteArray => "byte array"
  | .byteArrays => "byte arrays"
  | .pagedBlock => "paged block"
  | .pagedArena => "paged arena"

/-- A call that came at the wrong time. -/
inductive Violation
  | initTwice
  | addBeforeInit
  | addAfterReadBack
  | addAfterClose
  | readBeforeInit
  | readAfterClose
  | closeTwice
  | storeWhileReading
  | readWhileWriting
  | rewindWhileWriting
  | readBeforeSet
  deriving DecidableEq, Repr

/-- The wording of a call that came at the wrong time. -/
def Violation.text : Violation → String
  | .initTwice => "init called more than once"
  | .addBeforeInit => "add_target before init"
  | .addAfterReadBack => "add_target after read-back"
  | .addAfterClose => "add_target after close"
  | .readBeforeInit => "read before init"
  | .readAfterClose => "read after close"
  | .closeTwice => "close called twice"
  | .storeWhileReading => "store on a buffer in read mode"
  | .readWhileWriting => "read on a buffer in write mode"
  | .rewindWhileWriting => "rewind requires a buffer in read mode"
  | .readBeforeSet => "pair block read before set"

/-- Bytes that no writer produces. -/
inductive Inconsistency
  | varintTruncated
  | varintOverflow
  | varintTooLong
  | lengthMissing
  | lengthTooLarge
  | magnitudeTruncated
  | negativeUnsigned
  | magnitudeOverflow
  | unexpectedMarker
  | shortRun
  | pastEnd
  | unsignedOverflow
  | negativePairCount
  | pairCountExceedsTarget
  | forwardPointer
  | emptyChainedBlock
  | blockUsage
  deriving DecidableEq, Repr

/-- The wording of inconsistent bytes. -/
def Inconsistency.text : Inconsistency → String
  | .varintTruncated => "varint truncated"
  | .varintOverflow => "varint overflow (more than 64 bits)"
  | .varintTooLong => "varint too long"
  | .lengthMissing => "length prefix truncated"
  | .lengthTooLarge => "length prefix exceeds eight bytes"
  | .magnitudeTruncated => "magnitude truncated"
  | .negativeUnsigned => "negative length prefix in unsigned slot"
  | .magnitudeOverflow => "magnitude overflows i64"
  | .unexpectedMarker => "unexpected run marker"
  | .shortRun => "run shorter than two values"
  | .pastEnd => "read past the end of the stored values"
  | .unsignedOverflow => "unsigned value exceeds i64"
  | .negativePairCount => "negative pair count"
  | .pairCountExceedsTarget => "pair count exceeds the output buffer"
  | .forwardPointer => "forward pointer out of range"
  | .emptyChainedBlock => "chained block without entries"
  | .blockUsage => "block usage exceeds block size"

/-- An argument outside the domain of a call. -/
inductive Unacceptable
  | negativeForUnsigned
  | runTooLong
  | outsideRunRange
  | negativePrimary
  | tooManyPairs
  | noNodes
  | noBytesPerEdge
  | noMinFanOut
  | growthBelowOne
  deriving DecidableEq, Repr

/-- The wording of an argument outside the domain of a call. -/
def Unacceptable.text : Unacceptable → String
  | .negativeForUnsigned => "negative value for an unsigned buffer"
  | .runTooLong => "run length exceeds i64"
  | .outsideRunRange => "value outside the run-length range"
  | .negativePrimary => "primary ids must be non-negative"
  | .tooManyPairs => "too many pairs"
  | .noNodes => "total_nodes must be positive"
  | .noBytesPerEdge => "bytes_per_edge must be positive"
  | .noMinFanOut => "min_fan_out must be positive"
  | .growthBelowOne => "arena_growth_factor must be at least 1.0"

/-- Why a call failed. -/
inductive Error
  /-- More of `what` was requested than its limit allows. -/
  | capacityExceeded (what : Resource) (limit requested : Nat)
  /-- The call came at the wrong time. -/
  | sequencing (violation : Violation)
  /-- The bytes read are not what a writer leaves. -/
  | decode (inconsistency : Inconsistency)
  /-- An argument is outside the domain of the call. -/
  | invalid (argument : Unacceptable)
  /-- An options file is missing or is not text. -/
  | file
  /-- An options document is malformed or has a value of the wrong type. -/
  | config
  deriving DecidableEq, Repr

namespace Error

/-- The wording of a failure. A missing file and a malformed document have none of their own. -/
def message : Error → Option String
  | .capacityExceeded what limit requested =>
    some ("capacity exceeded: " ++ what.text ++ " (limit " ++ toString limit ++ ", requested "
      ++ toString requested ++ ")")
  | .sequencing violation => some ("sequencing violation: " ++ violation.text)
  | .decode inconsistency => some ("decode inconsistency: " ++ inconsistency.text)
  | .invalid argument => some ("invalid argument: " ++ argument.text)
  | .file => none
  | .config => none

/-- A limit was exceeded. -/
def IsCapacity : Error → Prop
  | .capacityExceeded .. => True
  | _ => False

end Error

end Adjacency
