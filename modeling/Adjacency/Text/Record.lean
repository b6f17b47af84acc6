/-!
# Records as text

A value with named fields is shown as its name and, in braces, its fields in order.
-/

namespace Adjacency

namespace Text

/-- A record with named fields. -/
def record (name : String) (fields : List (String × String)) : String :=
  name ++ " \x7b " ++ ", ".intercalate (fields.map fun (field, value) ↦ field ++ ": " ++ value)
    ++ " \x7d"

/-- A value that may be missing. -/
def optional (value : Option String) : String :=
  match value with
  | none => "None"
  | some text => "Some(" ++ text ++ ")"

end Text

end Adjacency
