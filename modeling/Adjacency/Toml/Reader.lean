/-!
# Reading characters

A reader takes characters from the front of a list and yields a value, or fails. Readers are joined
in order; a choice tries its second reader on the same characters if the first one fails. A
repetition is bounded by the number of characters left, which is enough for any reader that takes at
least one character each time.
-/

namespace Adjacency

namespace Toml

/-- A reader of values of type `α`. -/
abbrev Reader := StateT (List Char) Option

namespace Reader

variable {α : Type}

/-- The next character, left where it is. -/
def peek : Reader (Option Char) := fun cs ↦ some (cs.head?, cs)

/-- The next characters, left where they are, are `expected`. -/
def sees (expected : String) : Reader Bool := fun cs ↦ some (expected.toList.isPrefixOf cs, cs)

/-- One character of a class. -/
def satisfying (p : Char → Bool) : Reader Char
  | c :: cs => if p c then some (c, cs) else none
  | [] => none

/-- One given character. -/
def char (c : Char) : Reader Unit := do
  let _ ← satisfying (· == c)

/-- Given characters in order. -/
def literal (expected : String) : Reader Unit := expected.toList.forM char

/-- As many characters of a class as there are. -/
def many (p : Char → Bool) : Reader (List Char) := fun cs ↦ some (cs.span p)

/-- At least one character of a class. -/
def many1 (p : Char → Bool) : Reader (List Char) := do
  let c ← satisfying p
  let cs ← many p
  return c :: cs

/-- Exactly `n` characters of a class. -/
def exactly (p : Char → Bool) : (n : Nat) → Reader (List Char)
  | 0 => return []
  | n + 1 => do
    let c ← satisfying p
    let cs ← exactly p n
    return c :: cs

/-- Repeats a reader while it succeeds, at most `fuel` times. -/
def repeatWithin (r : Reader α) : (fuel : Nat) → Reader (List α)
  | 0 => return []
  | fuel + 1 => do
    match ← optional r with
    | none => return []
    | some a =>
      let as ← repeatWithin r fuel
      return a :: as

/-- Repeats a reader while it succeeds. -/
def repeated (r : Reader α) : Reader (List α) := do
  let cs ← get
  repeatWithin r cs.length

/-- One value at least, with separators between values. -/
def separated (r : Reader α) (separator : Reader Unit) : Reader (List α) := do
  let a ← r
  let as ← repeated do
    separator
    r
  return a :: as

/-- There are no characters left. -/
def atEnd : Reader Unit
  | [] => some ((), [])
  | _ :: _ => none

end Reader

end Toml

end Adjacency
