import Adjacency.Toml.Literal

/-!
# TOML statements

A document is a sequence of lines that give keys values, and of headers that say which table the
lines below them belong to. The pairs of a table between braces are put together at once, by the
same rules as those of a document: see `Table.insert`.
-/

namespace Adjacency

namespace Toml

open Reader

/-! ## Keys -/

/-- A character of a key that is not quoted. -/
def isBareKeyChar (c : Char) : Bool := c.isAlphanum || c == '-' || c == '_'

/-- One part of a key. -/
def simpleKey : Reader String := do
  match ← peek with
  | some '"' => basicString
  | some '\'' => literalString
  | _ => String.ofList <$> many1 isBareKeyChar

/-- How deep keys, arrays and tables between braces may go. -/
def depthLimit : Nat := 80

/-- A key of one or more parts with points between them. -/
def key : Reader (List String) := do
  let parts ← separated (do blanks; let k ← simpleKey; blanks; return k) (char '.')
  if parts.length < depthLimit then return parts else failure

/-! ## Putting pairs into tables -/

/-- Gives a key a value. The first parts of a dotted key name tables, which come about by naming
them. A table with a header of its own, or one between braces, is closed to dotted keys; one that
was only named on the way to a header can be passed through but not added to, and the same holds of
the last of several tables of one name. `extensible` says whether the table at hand can be added to.
-/
def Table.insert (extensible : Bool) : (path : List String) → Value → Table → Option Table
  | [], _, _ => none
  | [k], v, t => if extensible ∧ (t.find? k).isNone then some (t ++ [(k, v)]) else none
  | k :: rest, v, t =>
    match t.find? k with
    | none => (Table.insert true rest v []).map fun inner ↦ t ++ [(k, .table .dotted inner)]
    | some (.table .dotted inner) =>
      (Table.insert true rest v inner).map fun inner ↦ t.replace k (.table .dotted inner)
    | some (.table .implied inner) =>
      (Table.insert false rest v inner).map fun inner ↦ t.replace k (.table .implied inner)
    | some (.tables items) =>
      match items.getLast? with
      | none => none
      | some inner => (Table.insert false rest v inner).map fun inner ↦
        t.replace k (.tables (items.dropLast ++ [inner]))
    | some _ => none

/-- Gives several keys values, in order. -/
def Table.insertAll (t : Table) (pairs : List (List String × Value)) : Option Table :=
  pairs.foldlM (fun t (path, v) ↦ Table.insert true path v t) t

/-! ## Values -/

/-- An array; `item` reads its items. -/
def array (item : Reader Value) : Reader Value := do
  char '['
  space
  let items ← optional do
    let items ← separated (do space; let v ← item; space; return v) (char ',')
    let _ ← optional (char ',')
    return items
  space
  char ']'
  return .array (items.getD [])

/-- A table between braces; `item` reads its values. -/
def braces (item : Reader Value) : Reader Value := do
  char '\x7b'
  let pairs ← optional <|
    separated
      (do
        let path ← key
        char '='
        blanks
        let v ← item
        blanks
        return (path, v))
      (char ',')
  blanks
  char '\x7d'
  match Table.insertAll [] (pairs.getD []) with
  | some t => return .table .braces t
  | none => failure

/-- A value that goes at most `depth` levels deep. -/
def value : (depth : Nat) → Reader Value
  | 0 => scalar
  | depth + 1 => array (value depth) <|> braces (value depth) <|> scalar

/-! ## Lines -/

/-- A line that says which table the following lines belong to. -/
structure Heading where
  path : List String
  /-- The table is one of several of its name. -/
  isList : Bool
  deriving DecidableEq, Repr

/-- What a line of a document says. -/
inductive Statement
  /-- A key is given a value. -/
  | pair (path : List String) (v : Value)
  /-- A table begins. -/
  | heading (h : Heading)

/-- The rest of a line behind a statement. -/
def lineEnd : Reader Unit := do
  blanks
  let _ ← optional comment
  newline <|> atEnd

/-- A heading in brackets. -/
def heading : Reader Heading :=
  (do literal "[["; let path ← key; literal "]]"; return ⟨path, true⟩)
  <|> (do char '['; let path ← key; char ']'; return ⟨path, false⟩)

/-- A key and its value. -/
def pair : Reader (List String × Value) := do
  let path ← key
  char '='
  blanks
  let v ← value (depthLimit - 1)
  return (path, v)

/-- A statement with the rest of its line. -/
def statement : Reader Statement := do
  let s ← (Statement.heading <$> heading) <|> ((fun (path, v) ↦ Statement.pair path v) <$> pair)
  lineEnd
  return s

/-- The statements of a document. A byte-order mark in front of it is skipped. -/
def statements : Reader (List Statement) := do
  let _ ← optional (char '\ufeff')
  let lines ← repeated do
    blanks
    (some <$> statement) <|> (do comment; newline <|> atEnd; return none)
      <|> (do newline; return none)
  blanks
  atEnd
  return lines.filterMap id

end Toml

end Adjacency
