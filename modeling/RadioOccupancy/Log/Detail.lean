import RadioOccupancy.Decimal.Text
import RadioOccupancy.Named

/-!
The details attached to a log entry and their one-line text.

Details are values with named fields, written without spaces. Fields stand in the order in which
they were first given, a field given again keeps its place and takes the new value, and fields whose
names are array indices come first in ascending order. A field without a value is left out; in a list
its place is held by a null, as is the place of an undefined or infinite number.
-/

namespace RadioOccupancy

/-- A value that a log entry can carry. -/
inductive Detail where
  | null
  | absent
  | flag (b : Bool)
  | number (x : Number)
  | text (s : String)
  | items (xs : List Detail)
  | fields (xs : List (String × Detail))

/-- The named details of one log entry. -/
abbrev Details := Named Detail

namespace Detail

/-- One hexadecimal digit of a control character. -/
def hexDigit (n : Nat) : Char :=
  if n < 10 then Char.ofNat (48 + n) else Char.ofNat (87 + n)

/-- A character as it stands inside quotes: quotes, backslashes and control characters are escaped,
everything else stands for itself. -/
def escaped (c : Char) : List Char :=
  match c with
  | '"' => ['\\', '"']
  | '\\' => ['\\', '\\']
  | '\n' => ['\\', 'n']
  | '\r' => ['\\', 'r']
  | '\t' => ['\\', 't']
  | '\x08' => ['\\', 'b']
  | '\x0c' => ['\\', 'f']
  | c =>
    if c.toNat < 32 then
      ['\\', 'u', '0', '0', hexDigit (c.toNat / 16), hexDigit (c.toNat % 16)]
    else [c]

/-- A text in quotes. -/
def quoted (s : String) : String :=
  "\"" ++ String.ofList (s.toList.flatMap escaped) ++ "\""

/-- Names up to and including this number, in plain decimal, count as array indices. -/
def lastIndex : Nat := 4294967294

/-- The array index a field name stands for: digits alone, with no zero in front. -/
def index? (name : String) : Option Nat :=
  let digits := name.toList
  if digits.isEmpty || !digits.all Char.isDigit then none
  else if digits.head? == some '0' && digits.length != 1 then none
  else
    let n := digits.foldl (fun n c => 10 * n + (c.toNat - 48)) 0
    if n ≤ lastIndex then some n else none

/-- The fields in the order in which they are written. -/
def inWritingOrder {α : Type} (given : Named α) : Named α :=
  let distinct : Named α := given.foldl (fun fields f => fields.set f.1 f.2) []
  let indexed := distinct.filterMap fun f => (index? f.1).map fun i => (i, f)
  let named := distinct.filter fun f => (index? f.1).isNone
  (indexed.mergeSort fun a b => a.1 ≤ b.1).map (·.2) ++ named

/-- The text of a record whose fields are already written; a field without text is left out. -/
def recordText (fields : Named (Option String)) : String :=
  let written := (inWritingOrder fields).filterMap fun (name, value) =>
    value.map fun text => quoted name ++ ":" ++ text
  "\x7b" ++ String.intercalate "," written ++ "\x7d"

mutual

/-- The text of a value, or nothing for an absent one. -/
def text? : Detail → Option String
  | .null => some "null"
  | .absent => none
  | .flag b => some (if b then "true" else "false")
  | .number x => some (if x.isFinite then x.text else "null")
  | .text s => some (quoted s)
  | .items xs => some ("[" ++ String.intercalate "," (itemTexts xs) ++ "]")
  | .fields xs => some (recordText (fieldTexts xs))

/-- The texts of the values of a list. -/
def itemTexts : List Detail → List String
  | [] => []
  | x :: rest => (text? x).getD "null" :: itemTexts rest

/-- The fields of a record, each with the text of its value. -/
def fieldTexts : List (String × Detail) → Named (Option String)
  | [] => []
  | (name, x) :: rest => (name, text? x) :: fieldTexts rest

end

end Detail

/-- The text of the details of a log entry. -/
def Details.text (ds : Details) : String :=
  Detail.recordText (Detail.fieldTexts ds)

end RadioOccupancy
