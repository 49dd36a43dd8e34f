import Twofold.Decimal.Layout

/-!
# JSON documents

A document and its two written forms: `compact` has no blanks, `indented` puts every member of an
array or object on a line of its own, two blanks deeper than the bracket that opened it.
-/

namespace Twofold

/-- A JSON document. Counts and measured numbers are kept apart because they are spelled apart. -/
inductive Json where
  | null
  | bool (b : Bool)
  | count (n : Nat)
  | number (n : Number)
  | string (s : String)
  | array (items : List Json)
  | object (members : List (String × Json))
deriving Inhabited

namespace Json

/-- A number that has a JSON form: the infinities and NaN are written `null`. -/
def ofNumber (n : Number) : Json := if n.isFinite then .number n else .null

/-- `null` for nothing. -/
def ofOption {α : Type} (f : α → Json) : Option α → Json
  | none => .null
  | some a => f a

/-- Measured numbers: positional from `0.00001` up to, but not including, `1e+16`, always with a
fraction, the even one of two equally near decimals. -/
def numberLayout : Decimal.Layout where
  tie := .even
  positional k := decide (-5 ≤ k ∧ k < 16)
  fraction := true

/-- A lower-case hexadecimal digit. -/
def hexDigit (n : Nat) : Char := Nat.digitChar (n % 16)

/-- A character inside a quoted string. Only the quote, the backslash and the control characters
below the blank are escaped. -/
def escape (c : Char) : List Char :=
  if c = '"' then ['\\', '"']
  else if c = '\\' then ['\\', '\\']
  else if c = '\n' then ['\\', 'n']
  else if c = '\r' then ['\\', 'r']
  else if c = '\t' then ['\\', 't']
  else if c.toNat = 0x08 then ['\\', 'b']
  else if c.toNat = 0x0c then ['\\', 'f']
  else if c.toNat < 0x20 then ['\\', 'u', '0', '0', hexDigit (c.toNat / 16), hexDigit c.toNat]
  else [c]

/-- A string in quotes. -/
def quote (s : String) : String := String.ofList ('"' :: s.toList.flatMap escape ++ ['"'])

/-- A document that is neither an array nor an object, and the brackets of empty ones. -/
def atom : Json → String
  | .null => "null"
  | .bool b => if b then "true" else "false"
  | .count n => String.ofList (Decimal.digitChars n)
  | .number n => n.spell numberLayout
  | .string s => quote s
  | .array _ => "[]"
  | .object _ => "\x7b\x7d"

mutual

/-- The written form without blanks. -/
def compact : Json → String
  | .array (item :: items) => "[" ++ item.compact ++ compactItems items ++ "]"
  | .object ((key, value) :: members) =>
    "\x7b" ++ quote key ++ ":" ++ value.compact ++ compactMembers members ++ "\x7d"
  | j => j.atom

/-- The items after the first one. -/
def compactItems : List Json → String
  | [] => ""
  | item :: items => "," ++ item.compact ++ compactItems items

/-- The members after the first one. -/
def compactMembers : List (String × Json) → String
  | [] => ""
  | (key, value) :: members =>
    "," ++ quote key ++ ":" ++ value.compact ++ compactMembers members

end

/-- The start of a line at the given nesting. -/
def newline (depth : Nat) : String := String.ofList ('\n' :: List.replicate (2 * depth) ' ')

mutual

/-- Writes the form with a line for every member behind `acc`, inside `depth` brackets. That form
can be as long as the square of the nesting, and is written in one go. -/
def writeIndented (acc : String) (depth : Nat) : Json → String
  | .array (item :: items) =>
    let acc := item.writeIndented (acc ++ "[" ++ newline (depth + 1)) (depth + 1)
    writeIndentedItems acc depth items ++ newline depth ++ "]"
  | .object ((key, value) :: members) =>
    let acc := value.writeIndented (acc ++ "\x7b" ++ newline (depth + 1) ++ quote key ++ ": ")
      (depth + 1)
    writeIndentedMembers acc depth members ++ newline depth ++ "\x7d"
  | j => acc ++ j.atom

/-- Writes the items after the first one. -/
def writeIndentedItems (acc : String) (depth : Nat) : List Json → String
  | [] => acc
  | item :: items =>
    let acc := item.writeIndented (acc ++ "," ++ newline (depth + 1)) (depth + 1)
    writeIndentedItems acc depth items

/-- Writes the members after the first one. -/
def writeIndentedMembers (acc : String) (depth : Nat) : List (String × Json) → String
  | [] => acc
  | (key, value) :: members =>
    let acc := value.writeIndented (acc ++ "," ++ newline (depth + 1) ++ quote key ++ ": ")
      (depth + 1)
    writeIndentedMembers acc depth members

end

/-- The written form with a line for every member. -/
def indented (j : Json) : String := j.writeIndented "" 0

end Json

end Twofold
