import Adjacency.Binary64.Text
import Adjacency.RunLength.Buffer
import Adjacency.Text.Record

/-!
# What a run-length buffer tells about itself

Two texts: a summary of how well the last write pass was compressed, and a record of the cursor.
-/

namespace Adjacency

namespace RunLength

namespace Buffer

/-- The bytes written for each value of the last write pass; zero if there was none. -/
def bytesPerValue (b : Buffer) : Binary64 :=
  if b.stored = 0 then Binary64.ofNat 0 else Binary64.ofRatio false b.used b.stored

/-- How well the last write pass was compressed, with four decimals. -/
def summary (b : Buffer) : String :=
  "RunLengthDeltaBuffer stored ids " ++ toString b.stored ++ " bytes used " ++ toString b.used
    ++ " buffer size " ++ toString b.capacity ++ " bytes/id " ++ b.bytesPerValue.fixed 4

/-- The cursor and what it works on. -/
def record (b : Buffer) : String :=
  Text.record "RunLengthDeltaBuffer"
    [("codec", b.codec.text), ("signedness", b.signedness.text), ("mode", b.mode.text),
      ("pos", toString b.pos), ("end", toString b.stop), ("stored", toString b.stored)]

end Buffer

end RunLength

end Adjacency
