import Adjacency.Binary64.Rounding

/-!
# TOML values

A document is a table of values. Tables come about in several ways, and the way decides what may
still be added to them later, so it is kept with the table.
-/

namespace Adjacency

namespace Toml

/-- How a table came about. -/
inductive Origin
  /-- Written between braces; nothing can be added. -/
  | braces
  /-- Opened by a header of its own. -/
  | header
  /-- Named on the way to another header. -/
  | implied
  /-- Named on the way to a dotted key. -/
  | dotted
  deriving DecidableEq, Repr

/-- A value of a document. -/
inductive Value
  | text (s : String)
  | integer (n : Int)
  | real (x : Binary64)
  | flag (b : Bool)
  /-- A date, a time or both. -/
  | moment
  | array (items : List Value)
  | table (origin : Origin) (entries : List (String × Value))
  /-- The tables opened by double-bracket headers of one name. -/
  | tables (items : List (List (String × Value)))

/-- Keys and their values, in the order of their first appearance. -/
abbrev Table := List (String × Value)

namespace Table

/-- The value of a key. -/
def find? (t : Table) (key : String) : Option Value := t.lookup key

/-- Gives a key a value, in its place if it has one already. -/
def replace (key : String) (v : Value) : Table → Table
  | [] => [(key, v)]
  | (k, w) :: t => if k = key then (k, v) :: t else (k, w) :: replace key v t

theorem find?_cons (l : String) (w : Value) (t : Table) (k : String) :
    find? ((l, w) :: t) k = if k = l then some w else t.find? k := by
  rw [find?, List.lookup_cons]
  by_cases h : k = l
  · rw [if_pos h, beq_iff_eq.mpr h]
  · rw [if_neg h, beq_eq_false_iff_ne.mpr h]
    rfl

theorem find?_replace (key : String) (v : Value) (t : Table) (k : String) :
    (t.replace key v).find? k = if k = key then some v else t.find? k := by
  induction t with
  | nil => rw [replace, find?_cons]
  | cons e t ih =>
    obtain ⟨l, w⟩ := e
    rw [replace, find?_cons]
    split
    · next hl =>
      subst hl
      rw [find?_cons]
      split <;> rfl
    · next hl =>
      rw [find?_cons, ih]
      by_cases h : k = l
      · subst h
        rw [if_pos rfl, if_neg hl, if_pos rfl]
      · rw [if_neg h, if_neg h]

end Table

end Toml

end Adjacency
