import Adjacency.Store.Basic
import Adjacency.Text.Record

/-!
# Stores as text

A store is shown as a record of its kind, with the sizes that tell how it is doing and the state of
its life.
-/

namespace Adjacency

/-- Totals and fan-out as a record. -/
def Sizing.record (s : Sizing) : String :=
  Text.record "StoreSizing"
    [("total_nodes", toString s.totalNodes.toNat), ("total_rels", toString s.totalRels.toNat),
      ("fan_out", toString s.fanOut)]

/-- Phase, totals and count as a record. -/
def Lifecycle.record (l : Lifecycle) : String :=
  Text.record "Lifecycle"
    [("phase", l.phase.text), ("sizing", Text.optional (l.sizing?.map Sizing.record)),
      ("appended", toString l.appended)]

namespace Store

/-- The record of a store, under the name of its kind. -/
def record (s : Store) : String :=
  let lifecycle := ("lifecycle", s.lifecycle.record)
  match s.contents with
  | .null => "Null(" ++ Text.record "NullStore" [lifecycle] ++ ")"
  | .plain a =>
    "PlainArray(" ++ Text.record "PlainArrayStore"
      [("nodes", toString a.nodes.size), ("reallocations", toString a.reallocations), lifecycle]
      ++ ")"
  | .coded a =>
    "ByteArray(" ++ Text.record "ByteArrayStore"
      [("codec", a.codec.text), ("nodes", toString a.nodes.size),
        ("reallocations", toString a.reallocations), ("bytes_written", toString a.bytesWritten),
        lifecycle] ++ ")"
  | .paged a =>
    "PagedBuffer(" ++ Text.record "PagedBufferStore"
      [("codec", a.codec.text), ("block_size", toString a.layout.blockSize),
        ("header_len", toString a.layout.headerLen), ("arena_len", toString a.bytes.size),
        ("arena_limit", toString a.layout.arenaLimit),
        ("reallocations", toString a.reallocations), lifecycle] ++ ")"

end Store

end Adjacency
