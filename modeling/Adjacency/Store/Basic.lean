import Adjacency.Arena.Append
import Adjacency.Arrays.Coded
import Adjacency.Arrays.Plain
import Adjacency.Lifecycle

/-!
# Adjacency stores

A store keeps, for every node of a graph, the list of its neighbours. The life of a store, the
checks on its calls and what is made known about them do not depend on how the lists are laid out;
only the `Contents` do, and each kind of contents brings its own way to be allocated, added to and
read.

A call is a check on the life of the store followed by work on the contents. An entry counts as
admitted from the check on, also if the contents then have no room for it.
-/

namespace Adjacency

/-- The lists of a store, as they are laid out. -/
inductive Contents
  /-- Nothing is kept. -/
  | null
  | plain (arrays : PlainArrays)
  | coded (arrays : CodedArrays)
  | paged (arena : Arena)

namespace Contents

/-- The contents of a store that is not open yet. -/
def empty (options : Options) : Kind → Contents
  | .null => .null
  | .plainArray => .plain .empty
  | .byteArray => .coded (.empty options.codec)
  | .pagedBuffer => .paged (.empty options.codec)

/-- The kind of a layout. -/
def kind : Contents → Kind
  | .null => .null
  | .plain _ => .plainArray
  | .coded _ => .byteArray
  | .paged _ => .pagedBuffer

/-- Empty lists for all nodes. -/
def allocate (kind : Kind) (options : Options) (sizing : Sizing) : Check Contents :=
  match kind with
  | .null => .ok .null
  | .plainArray => .plain <$> PlainArrays.allocate sizing
  | .byteArray => .coded <$> CodedArrays.allocate options sizing
  | .pagedBuffer => .paged <$> Arena.allocate (Layout.extraBlocks options.growth) options sizing

/-- Adds an id to the list of a node. In an arena it is traced where the id went. -/
def append (c : Contents) (node : Nat) (target : UInt64) :
    Outcome Contents (Option AppendTrace) :=
  match c with
  | .null => .done .null none
  | .plain a =>
    match a.append node target with
    | (a, events) => ⟨.ok none, .plain a, events⟩
  | .coded a =>
    match a.append node target with
    | (a, events) => ⟨.ok none, .coded a, events⟩
  | .paged a =>
    match a.append node target with
    | ⟨.ok trace, a, events⟩ => ⟨.ok (some trace), .paged a, events⟩
    | ⟨.error e, a, events⟩ => ⟨.error e, .paged a, events⟩

/-- The list of a node. -/
def targets (c : Contents) (node : Nat) : Except Error (List NodeId) :=
  match c with
  | .null => .ok []
  | .plain a => .ok (a.targets node)
  | .coded a => a.targets node
  | .paged a => a.targets node

/-- The bytes of memory held, used or not. -/
def size : Contents → Nat
  | .null => 0
  | .plain a => a.size
  | .coded a => a.size
  | .paged a => a.capacity

/-- How often memory was added. -/
def reallocations : Contents → Nat
  | .null => 0
  | .plain a => a.reallocations
  | .coded a => a.reallocations
  | .paged a => a.reallocations

/-- The bytes of codes written, where there are codes. -/
def bytesWritten? : Contents → Option Nat
  | .coded a => some a.bytesWritten
  | .paged a => some a.bytesWritten
  | _ => none

/-- The block layout, where there are blocks. -/
def layout? : Contents → Option Layout
  | .paged a => some a.layout
  | _ => none

/-- What is made known when the contents were allocated. -/
def openingEvents : Contents → List Event
  | .paged a =>
    [.layoutChosen a.layout.blockSize a.layout.headerLen a.layout.arenaLimit a.codec]
  | _ => []

/-- What is made known when the contents are closed. -/
def closingEvents : Contents → List Event
  | .paged a => [.arenaClosed a.bytesWritten a.nextFree]
  | _ => []

end Contents

/-- The adjacency lists of a graph. -/
structure Store where
  options : Options
  metrics : Metrics
  lifecycle : Lifecycle
  contents : Contents

namespace Store

/-- A store that is not open yet. -/
def new (kind : Kind) (options : Options) : Store where
  options
  metrics := options.metrics.getD .discard
  lifecycle := .created
  contents := .empty options kind

/-- How the store lays out its lists. -/
def kind (s : Store) : Kind := s.contents.kind

/-- Where the store is in its life. -/
def phase (s : Store) : Phase := s.lifecycle.phase

/-- The entries admitted so far. -/
def appended (s : Store) : Nat := s.lifecycle.appended

/-- The bytes of memory held, used or not. -/
def size (s : Store) : Nat := s.contents.size

/-- How often memory was added. -/
def reallocations (s : Store) : Nat := s.contents.reallocations

/-- Opens the store for a graph with the given totals. -/
def init (s : Store) (totalNodes totalRels : UInt64) : Outcome Store Unit :=
  match s.lifecycle.plan s.options totalNodes totalRels with
  | .error r => r.leave s
  | .ok sizing =>
    match Contents.allocate s.kind s.options sizing with
    | .error r => r.leave s
    | .ok contents =>
      ⟨.ok (), { s with lifecycle := .loading sizing 0, contents },
        .opened s.kind sizing contents.size :: contents.openingEvents⟩

/-- Adds `target` to the list of `node`. In an arena it is traced where the id went. -/
def append (s : Store) (node target : NodeId) : Outcome Store (Option AppendTrace) :=
  match s with
  | ⟨options, metrics, lifecycle, contents⟩ =>
    match lifecycle.accept node target with
    | .error r => r.leave ⟨options, metrics, lifecycle, contents⟩
    | .ok (index, lifecycle) =>
      -- From here on the entry is counted, whatever comes of it.
      match contents.append index target with
      | ⟨.ok trace, contents, events⟩ =>
        let events := events ++ [.targetAdded]
        ⟨.ok trace, ⟨options, metrics.record events, lifecycle, contents⟩, events⟩
      | ⟨.error e, contents, events⟩ =>
        ⟨.error e, ⟨options, metrics.record events, lifecycle, contents⟩, events⟩

/-- Adds an id to an arena and answers where it went; where there are no blocks, nothing happens. -/
def trace (s : Store) (node target : NodeId) : Outcome Store (Option AppendTrace) :=
  match s.kind with
  | .pagedBuffer => s.append node target
  | _ => .done s none

/-- What is made known about an id that was traced. -/
def placedEvents : Option AppendTrace → List Event
  | none => []
  | some t => [.placed t.node t.block t.entryOffset t.pageHops t.delta.toInt t.relocatedTo.isSome]

/-- Records an entry. Its type and direction are not kept. -/
def add (s : Store) (e : Entry) : Outcome Store Unit :=
  match s.append e.node e.target with
  | ⟨.ok trace, s, events⟩ => ⟨.ok (), s, events ++ placedEvents trace⟩
  | ⟨.error e, s, events⟩ => ⟨.error e, s, events⟩

/-- Records a relationship: the entry at its source, then the one at its target. -/
def addRelationship (s : Store) (r : Relationship) : Outcome Store Unit :=
  (s.add r.outgoing).andThen fun s _ ↦ s.add r.incoming

/-- The list of a node, in the order of recording. The first read seals the store. -/
def targets (s : Store) (node : NodeId) : Outcome Store (List NodeId) :=
  match s.lifecycle.startRead node with
  | .error r => r.leave s
  | .ok (index, lifecycle) => ⟨s.contents.targets index, { s with lifecycle }, []⟩

/-- The blocks of a node's chain, in an arena. Like any read this seals the store; where there are
no blocks, nothing happens. -/
def chain (s : Store) (node : NodeId) : Outcome Store (Option (List BlockInfo)) :=
  match s.contents with
  | .paged arena =>
    match s.lifecycle.startRead node with
    | .error r => r.leave s
    | .ok (index, lifecycle) =>
      ⟨match arena.chain index with
        | .ok blocks => .ok (some blocks)
        | .error e => .error e, { s with lifecycle }, []⟩
  | _ => .done s none

/-- Closes the store. -/
def close (s : Store) : Outcome Store Unit :=
  match s.lifecycle.close with
  | .error r => r.leave s
  | .ok lifecycle =>
    ⟨.ok (), { s with lifecycle },
      .closed s.kind s.size s.reallocations s.appended :: s.contents.closingEvents⟩

/-- The counters. -/
def counters (s : Store) : Counters := s.metrics.counters

end Store

end Adjacency
