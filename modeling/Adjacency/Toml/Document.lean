import Adjacency.Toml.Statement

/-!
# TOML documents

The statements of a document are put together to one table. Pairs go to the table of the heading
above them. A heading names tables on its way, which come about by naming them, and its last part
must name a table that has no heading of its own yet.
-/

namespace Adjacency

namespace Toml

namespace Table

/-- Changes the value at the end of a path. Tables on the way come about by naming them; of several
tables of one name the last is meant. -/
def alterAt (change : Option Value → Option Value) : (path : List String) → Table → Option Table
  | [], _ => none
  | [k], t => (change (t.find? k)).map fun v ↦ t.replace k v
  | k :: rest, t =>
    match t.find? k with
    | none => (alterAt change rest []).map fun inner ↦ t.replace k (.table .implied inner)
    | some (.table .braces _) => none
    | some (.table origin inner) =>
      (alterAt change rest inner).map fun inner ↦ t.replace k (.table origin inner)
    | some (.tables items) =>
      match items.getLast? with
      | none => none
      | some inner => (alterAt change rest inner).map fun inner ↦
        t.replace k (.tables (items.dropLast ++ [inner]))
    | some _ => none

/-- The table of a heading with its pairs, given what its name stood for before. -/
def ofHeading (isList : Bool) (pairs : List (List String × Value)) :
    Option Value → Option Value
  | none => (insertAll [] pairs).map fun t ↦ if isList then .tables [t] else .table .header t
  | some (.table .implied t) =>
    if isList then none else (insertAll t pairs).map (.table .header)
  | some (.tables items) =>
    if isList then (insertAll [] pairs).map fun t ↦ .tables (items ++ [t]) else none
  | some _ => none

end Table

/-- The pairs before the first heading, and each heading with the pairs below it. -/
def sections : List Statement →
    List (List String × Value) × List (Heading × List (List String × Value))
  | [] => ([], [])
  | .pair path v :: rest => ((path, v) :: (sections rest).1, (sections rest).2)
  | .heading h :: rest => ([], (h, (sections rest).1) :: (sections rest).2)

/-- The table that statements put together. -/
def ofStatements (statements : List Statement) : Option Table := do
  let (pairs, rest) := sections statements
  let root ← Table.insertAll [] pairs
  rest.foldlM (fun t (h, pairs) ↦ t.alterAt (Table.ofHeading h.isList pairs) h.path) root

/-- Reads a document. -/
def read (document : String) : Option Table := do
  let (lines, _) ← statements.run document.toList
  ofStatements lines

end Toml

end Adjacency
