import Adjacency.Options.Document
import Adjacency.PairBlock.Call
import Adjacency.RunLength.Call
import Adjacency.Store.Call
import Adjacency.Store.Text
import Adjacency.Proofs.Runs
import Adjacency.Proofs.Bytes.Standing
import Adjacency.Proofs.Codec.InPlace
import Adjacency.Proofs.Codec.RoundTrip
import Adjacency.Proofs.Codec.Appended
import Adjacency.Proofs.Codec.Groups
import Adjacency.Proofs.Codec.Frames
import Adjacency.Proofs.Codec.Grammar
import Adjacency.Proofs.Codec.Delimiting
import Adjacency.Proofs.Arena.Layout
import Adjacency.Proofs.Arena.HeaderSearch
import Adjacency.Proofs.Arena.Chain
import Adjacency.Proofs.Arena.Append
import Adjacency.Proofs.Arena.Writing
import Adjacency.Proofs.Arena.Represents
import Adjacency.Proofs.Arena.Shape
import Adjacency.Proofs.Arena.Provision
import Adjacency.Proofs.Arrays.Coded
import Adjacency.Proofs.Arrays.Extent
import Adjacency.Proofs.Store.Admission
import Adjacency.Proofs.Store.Records
import Adjacency.Proofs.Store.Lossless
import Adjacency.Proofs.Store.Counting
import Adjacency.Proofs.Store.FanOut
import Adjacency.Proofs.Store.Quota
import Adjacency.Proofs.Store.BothEnds
import Adjacency.Proofs.Store.Phases
import Adjacency.Proofs.Store.Partition
import Adjacency.Proofs.Store.Confinement
import Adjacency.Proofs.Store.Interleaving
import Adjacency.Proofs.Store.Filed
import Adjacency.Proofs.Store.Kinds
import Adjacency.Proofs.Store.Opening
import Adjacency.Proofs.Store.Stages
import Adjacency.Proofs.Store.Growth
import Adjacency.Proofs.Store.Memory
import Adjacency.Proofs.Store.Timely
import Adjacency.Proofs.Store.Tracing
import Adjacency.Proofs.RunLength.Streak
import Adjacency.Proofs.RunLength.Writing
import Adjacency.Proofs.RunLength.Reading
import Adjacency.Proofs.RunLength.Replay
import Adjacency.Proofs.RunLength.Frame
import Adjacency.Proofs.RunLength.Alike
import Adjacency.Proofs.RunLength.FailStop
import Adjacency.Proofs.RunLength.Cost
import Adjacency.Proofs.RunLength.Acceptance
import Adjacency.Proofs.PairBlock.Values
import Adjacency.Proofs.PairBlock.Frame
import Adjacency.Proofs.PairBlock.Reading
import Adjacency.Proofs.PairBlock.Setting
import Adjacency.Proofs.PairBlock.History
import Adjacency.Proofs.PairBlock.Lookup
import Adjacency.Proofs.PairBlock.Refill
import Adjacency.Proofs.PairBlock.Differences
import Adjacency.Proofs.PairBlock.Exactness
import Adjacency.Proofs.PairBlock.Acceptance
import Adjacency.Proofs.Codec.Magnitude
import Adjacency.Proofs.RunLength.Statistics
import Adjacency.Proofs.Store.Tallies
import Adjacency.Proofs.Store.Warnings
import Adjacency.Proofs.Options.Document
