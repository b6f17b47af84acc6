import Adjacency.Toml.Reader
import Adjacency.Toml.Value
import Adjacency.Word

/-!
# TOML literals

Strings in four notations, integers in four bases, numbers with a fraction or an exponent, dates and
times, truth values. Underscores may stand between digits, and nowhere else. A reader takes the
longest literal it can; what may follow is for the caller to say.
-/

namespace Adjacency

namespace Toml

open Reader

/-! ## Characters -/

/-- Space and tab. -/
def isBlank (c : Char) : Bool := c == ' ' || c == '\t'

/-- A character of a comment, and of any string that does not treat it specially. -/
def isPlain (c : Char) : Bool := c == '\t' || (' ' ≤ c && c ≤ '~') || 128 ≤ c.toNat

/-- Spaces and tabs. -/
def blanks : Reader Unit := do
  let _ ← many isBlank

/-- The end of a line within a document. -/
def newline : Reader Unit := char '\n' <|> literal "\r\n"

/-- A comment, up to the end of its line. -/
def comment : Reader Unit := do
  char '#'
  let _ ← many isPlain

/-- Blanks, comments and ends of lines. -/
def space : Reader Unit := do
  let _ ← repeated do
    (do let _ ← satisfying isBlank) <|> newline <|> (do comment; newline)

/-! ## Digits -/

/-- The value of a digit. -/
def digitValue (c : Char) : Nat :=
  if c.isDigit then c.toNat - '0'.toNat
  else if 'a' ≤ c then c.toNat - 'a'.toNat + 10
  else c.toNat - 'A'.toNat + 10

/-- The number that digits write in a base. -/
def digitsValue (base : Nat) (digits : List Char) : Nat :=
  digits.foldl (fun n c ↦ base * n + digitValue c) 0

/-- A digit of a base. -/
def isDigitOf (base : Nat) (c : Char) : Bool := c.isAlphanum && digitValue c < base

/-- Digits of a base, with single underscores between them. -/
def digits (base : Nat) : Reader (List Char) := do
  let c ← satisfying (isDigitOf base)
  let cs ← repeated do
    let _ ← optional (char '_')
    satisfying (isDigitOf base)
  return c :: cs

/-- Decimal digits without a leading zero. -/
def wholeDigits : Reader (List Char) := do
  match ← peek with
  | some '0' => char '0'; return ['0']
  | _ => digits 10

/-- A sign; whether it is a minus. -/
def sign : Reader Bool := do
  match ← optional (satisfying fun c ↦ c == '+' || c == '-') with
  | some '-' => return true
  | _ => return false

/-! ## Numbers -/

/-- A number as one of 64 bits with a sign. -/
def integerOf (negative : Bool) (magnitude : Nat) : Reader Value :=
  let n : Int := if negative then -(magnitude : Int) else magnitude
  if -2 ^ 63 ≤ n ∧ n < 2 ^ 63 then return .integer n else failure

/-- An integer in a base other than ten, which has no sign. -/
def basedInteger (mark : String) (base : Nat) : Reader Value := do
  literal mark
  let ds ← digits base
  integerOf false (digitsValue base ds)

/-- An integer. -/
def integer : Reader Value :=
  basedInteger "0x" 16 <|> basedInteger "0o" 8 <|> basedInteger "0b" 2 <|> do
    let negative ← sign
    let ds ← wholeDigits
    integerOf negative (digitsValue 10 ds)

/-- The digits behind a point. -/
def fractionDigits : Reader (List Char) := do
  char '.'
  digits 10

/-- An exponent of ten. -/
def exponent : Reader Int := do
  let _ ← satisfying fun c ↦ c == 'e' || c == 'E'
  let negative ← sign
  let ds ← digits 10
  return if negative then -(digitsValue 10 ds : Int) else digitsValue 10 ds

/-- A number with a fraction, an exponent or both. One that is too large is refused; one that is too
large below zero is minus infinity. -/
def decimal : Reader Value := do
  let negative ← sign
  let whole ← wholeDigits
  let fraction ← optional fractionDigits
  let power ← match fraction with
    | none => some <$> exponent
    | some _ => optional exponent
  let fraction := fraction.getD []
  let x := Binary64.ofDecimal negative (digitsValue 10 (whole ++ fraction))
    (power.getD 0 - (fraction.length : Int))
  -- Only an overflow above zero is an error.
  if x.isInfinite ∧ ¬ negative then failure else return .real x

/-- Infinity or a number that is none. -/
def special : Reader Value := do
  let negative ← sign
  (do literal "inf"; return .real (.infinity negative))
    <|> (do literal "nan"; return .real (.nan negative))

/-- A truth value. -/
def flag : Reader Value :=
  (do literal "true"; return .flag true) <|> (do literal "false"; return .flag false)

/-! ## Dates and times -/

/-- A number of `n` digits within limits. -/
def fixedNumber (n low high : Nat) : Reader Nat := do
  let ds ← exactly Char.isDigit n
  let v := digitsValue 10 ds
  if low ≤ v ∧ v ≤ high then return v else failure

/-- The days of a month. -/
def daysIn (year month : Nat) : Nat :=
  if month = 2 then
    if year % 4 = 0 ∧ (year % 100 ≠ 0 ∨ year % 400 = 0) then 29 else 28
  else if month = 4 ∨ month = 6 ∨ month = 9 ∨ month = 11 then 30
  else 31

/-- A date. -/
def date : Reader Unit := do
  let year ← fixedNumber 4 0 9999
  char '-'
  let month ← fixedNumber 2 1 12
  char '-'
  let _ ← fixedNumber 2 1 (daysIn year month)

/-- A time of day; a minute may have a leap second. -/
def time : Reader Unit := do
  let _ ← fixedNumber 2 0 23
  char ':'
  let _ ← fixedNumber 2 0 59
  char ':'
  let _ ← fixedNumber 2 0 60
  let _ ← optional do
    char '.'
    many1 Char.isDigit

/-- The distance of a time from universal time. -/
def timeOffset : Reader Unit :=
  (do let _ ← satisfying fun c ↦ c == 'Z' || c == 'z') <|> do
    let _ ← satisfying fun c ↦ c == '+' || c == '-'
    let _ ← fixedNumber 2 0 23
    char ':'
    let _ ← fixedNumber 2 0 59

/-- A date, a time or both. -/
def moment : Reader Value :=
  (do
    date
    let _ ← optional do
      let _ ← satisfying fun c ↦ c == 'T' || c == 't' || c == ' '
      time
      optional timeOffset
    return .moment)
  <|> (do time; return .moment)

/-! ## Strings -/

/-- The character with a number of `n` hexadecimal digits. -/
def codePoint (n : Nat) : Reader Char := do
  let ds ← exactly (isDigitOf 16) n
  let v := digitsValue 16 ds
  if v.isValidChar then return Char.ofNat v else failure

/-- What stands behind a backslash. -/
def escaped : Reader Char := do
  match ← satisfying fun _ ↦ true with
  | 'b' => return '\x08'
  | 't' => return '\t'
  | 'n' => return '\n'
  | 'f' => return '\x0c'
  | 'r' => return '\r'
  | '"' => return '"'
  | '\\' => return '\\'
  | 'u' => codePoint 4
  | 'U' => codePoint 8
  | _ => failure

/-- A string in double quotes. -/
def basicString : Reader String := do
  char '"'
  let cs ← repeated <|
    satisfying (fun c ↦ isPlain c && c != '"' && c != '\\') <|> (do char '\\'; escaped)
  char '"'
  return String.ofList cs

/-- A string in single quotes, which knows no escapes. -/
def literalString : Reader String := do
  char '\''
  let cs ← many fun c ↦ isPlain c && c != '\''
  char '\''
  return String.ofList cs

/-- A backslash at the end of a line joins it to the next text. -/
def lineJoin : Reader Unit := do
  char '\\'
  blanks
  newline
  let _ ← repeated ((do let _ ← satisfying isBlank) <|> newline)

/-- The end of a string in triple quotes; one or two more quotes before it belong to the string. -/
def tripleEnd (quote : Char) : Reader (List Char) := do
  let quotes ← many (· == quote)
  let extra := min quotes.length 5 - 3
  if 3 ≤ quotes.length ∧ quotes.length ≤ 5 then return List.replicate extra quote else failure

/-- One or two quotes within a string in triple quotes. -/
def innerQuotes (quote : Char) : Reader (List Char) := do
  let quotes ← many1 (· == quote)
  if quotes.length ≤ 2 then return quotes else failure

/-- A string in triple quotes. A line end right after the opening is dropped. -/
def tripleString (quote : Char) (part : Reader (List Char)) : Reader String := do
  let fence := String.ofList (List.replicate 3 quote)
  literal fence
  let _ ← optional newline
  let parts ← repeated <|
    part <|> (do newline; return ['\n']) <|> innerQuotes quote
  let tail ← tripleEnd quote
  return String.ofList (parts.flatten ++ tail)

/-- A string in triple double quotes. -/
def longBasicString : Reader String :=
  tripleString '"' <|
    (do return [← satisfying fun c ↦ isPlain c && c != '"' && c != '\\'])
    <|> (do lineJoin; return [])
    <|> (do char '\\'; return [← escaped])

/-- A string in triple single quotes. -/
def longLiteralString : Reader String :=
  tripleString '\'' do return [← satisfying fun c ↦ isPlain c && c != '\'']

/-- A string in any notation. -/
def string : Reader Value :=
  .text <$> (longBasicString <|> basicString <|> longLiteralString <|> literalString)

/-- A value that is neither an array nor a table. -/
def scalar : Reader Value :=
  string <|> flag <|> moment <|> decimal <|> special <|> integer

end Toml

end Adjacency
