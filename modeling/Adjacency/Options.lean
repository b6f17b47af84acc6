import Adjacency.Binary64.Basic
import Adjacency.Metrics

/-!
# Options of a store

Options choose the codec, say how much room a node starts with and how far an arena may grow, and
may ask for counters. They can be built with any values; `validate` tells the first that is
unusable.
-/

namespace Adjacency

/-- How a store is set up. -/
structure Options where
  /-- The codec of the kinds that code their ids. -/
  codec : Codec
  /-- The bytes a node starts with for each expected entry. -/
  bytesPerEdge : UInt64
  /-- The least number of entries a node starts with room for. -/
  minFanOut : UInt64
  /-- The size an arena may reach, as a multiple of the size it starts with. -/
  growth : Binary64
  /-- What becomes of measures, if that was said. -/
  metrics : Option Metrics
  deriving DecidableEq, Repr

namespace Options

/-- The options that hold when nothing else is said: a growth factor of one and a half, and four
bytes for each of at least four entries. -/
def default : Options where
  codec := .lengthPrefixed
  bytesPerEdge := 4
  minFanOut := 4
  growth := ⟨0x3ff8000000000000⟩
  metrics := none

/-- The first of the options that no store can be opened with. -/
def validate (o : Options) : Except Unacceptable Unit :=
  if o.bytesPerEdge = 0 then .error .noBytesPerEdge
  else if o.minFanOut = 0 then .error .noMinFanOut
  else if o.growth.isFiniteAtLeastOne then .ok ()
  else .error .growthBelowOne

end Options

end Adjacency
