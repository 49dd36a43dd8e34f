/-!
# JSON tokens

A JSON text cut into tokens. A number or string can be ill-formed in more than one sense: it may be
unfit to be read, or even unfit to be passed over, so such a token carries a verdict for both uses.
A text that ends too early is told apart from one that is wrong.
-/

namespace Twofold.Json

/-- What is wrong with a text. -/
inductive Defect where
  /-- It is no JSON. -/
  | malformed
  /-- It is not what was asked for. -/
  | data
  /-- It ends too early. -/
  | endOfText
deriving DecidableEq, Inhabited, Repr

/-- A number that was read: a count, or any other number. -/
inductive Scalar where
  | count (n : Nat)
  | other
deriving DecidableEq, Inhabited, Repr

/-- A piece of a JSON text. -/
inductive Token where
  /-- A bracket, comma or colon. -/
  | mark (c : Char)
  /-- The word for nothing. -/
  | null (verdict : Except Defect Unit)
  /-- A word for a truth value. -/
  | bool (verdict : Except Defect Unit)
  | number (toRead : Except Defect Scalar) (toSkip : Except Defect Unit)
  | string (toRead : Except Defect String) (toSkip : Except Defect Unit)
  /-- A character that starts no token. -/
  | stray

namespace Token

/-! ## Words -/

/-- The rest of a word such as `null`. -/
def word : (expected : List Char) → List Char → Except Defect Unit × List Char
  | [], cs => (.ok (), cs)
  | _ :: _, [] => (.error .endOfText, [])
  | e :: es, c :: cs => if c = e then word es cs else (.error .malformed, cs)

/-! ## Numbers -/

/-- The largest count. -/
def maxCount : Nat := 1 <<< 64 - 1

/-- The digit that a character stands for. -/
def digit (c : Char) : Nat := c.toNat - '0'.toNat

/-- Takes digits into a significand as long as it remains a count; gives the digits that are left
over. -/
def significand : (s : Nat) → List Char → Nat × List Char
  | s, [] => (s, [])
  | s, c :: cs =>
    if maxCount < s * 10 + digit c then (s, c :: cs) else significand (s * 10 + digit c) cs

/-- Whether `s * 10 ^ e` is beyond the binary64 numbers. -/
def outOfRange (s : Nat) (e : Int) : Bool :=
  decide (s ≠ 0 ∧ 0 ≤ e)
    && (decide (308 < e) || (Float.ofNat s * Float.ofScientific 1 false e.toNat).isInf)

/-- A number that is no count, if it is in range. -/
def measured (s : Nat) (e : Int) : Except Defect Scalar :=
  if outOfRange s e then .error .malformed else .ok .other

/-- The number with the given digits before the point, behind it if there is a point, and in the
exponent, which may be negative, if there is one. -/
def scalar (negative : Bool) (whole : List Char) (places : Option (List Char))
    (exponent : Option (Bool × List Char)) : Except Defect Scalar :=
  let (s, dropped) := significand 0 whole
  match places, exponent with
  | none, none =>
    if dropped.isEmpty then .ok (if negative then .other else .count s)
    else measured s dropped.length
  | places, exponent =>
    let places := places.getD []
    let (s, unused) := significand s places
    let e : Int := match exponent with
      | none => 0
      | some (minus, digits) =>
        let n : Nat := digits.foldl (fun n c => n * 10 + digit c) 0
        if minus then -n else n
    measured s (dropped.length - (places.length - unused.length : Nat) + e)

/-- A number that lacks digits where `rest` begins. -/
def incomplete (rest : List Char) : Token × List Char :=
  (.number (.error (if rest.isEmpty then .endOfText else .malformed)) (.error .malformed), rest)

/-- The part of a number behind its whole part and its places. -/
def exponentPart (negative : Bool) (whole : List Char) (places : Option (List Char))
    (cs : List Char) : Token × List Char :=
  match cs with
  | [] => (.number (scalar negative whole places none) (.ok ()), [])
  | c :: rest =>
    if c = 'e' ∨ c = 'E' then
      let (minus, rest) := match rest with
        | '+' :: rest => (false, rest)
        | '-' :: rest => (true, rest)
        | rest => (false, rest)
      match rest.span Char.isDigit with
      | ([], rest) => incomplete rest
      | (digits, rest) =>
        (.number (scalar negative whole places (some (minus, digits))) (.ok ()), rest)
    else (.number (scalar negative whole places none) (.ok ()), cs)

/-- A number without its sign. No further digit follows a leading zero. -/
def unsignedNumber (negative : Bool) (cs : List Char) : Token × List Char :=
  match cs.span Char.isDigit with
  | ([], rest) => incomplete rest
  | ('0' :: _ :: _, rest) => (.number (.error .malformed) (.error .malformed), rest)
  | (whole, '.' :: rest) =>
    match rest.span Char.isDigit with
    | ([], rest) => incomplete rest
    | (places, rest) => exponentPart negative whole (some places) rest
  | (whole, rest) => exponentPart negative whole none rest

/-! ## Strings -/

/-- A piece of a string: a character, or a UTF-16 unit that was written as an escape. -/
inductive Piece where
  | char (c : Char)
  | unit (n : Nat)

/-- The value of a hexadecimal digit. -/
def hex? (c : Char) : Option Nat :=
  if c.isDigit then some (digit c)
  else if 'a' ≤ c ∧ c ≤ 'f' then some (c.toNat - 'a'.toNat + 10)
  else if 'A' ≤ c ∧ c ≤ 'F' then some (c.toNat - 'A'.toNat + 10)
  else none

/-- The value of four hexadecimal digits. -/
def hex4? (a b c d : Char) : Option Nat := do
  return (((← hex? a) * 16 + (← hex? b)) * 16 + (← hex? c)) * 16 + (← hex? d)

/-- What a one-letter escape stands for. -/
def escape? (c : Char) : Option Char :=
  if c = '"' ∨ c = '\\' ∨ c = '/' then some c
  else if c = 'b' then some '\x08'
  else if c = 'f' then some '\x0c'
  else if c = 'n' then some '\n'
  else if c = 'r' then some '\r'
  else if c = 't' then some '\t'
  else none

/-- Puts a piece in front. -/
def Piece.cons (p : Piece) (r : List Piece × Except Defect (List Char)) :
    List Piece × Except Defect (List Char) := (p :: r.1, r.2)

/-- The pieces of a string up to its closing quote, and the text behind it. The escape of a unit
needs four more bytes of text. -/
def pieces : List Char → List Piece × Except Defect (List Char)
  | [] => ([], .error .endOfText)
  | '"' :: cs => ([], .ok cs)
  | ['\\'] => ([], .error .endOfText)
  | '\\' :: 'u' :: a :: b :: c :: d :: cs =>
    match hex4? a b c d with
    | none => ([], .error .malformed)
    | some n => (pieces cs |> Piece.cons (.unit n))
  | '\\' :: 'u' :: cs =>
    ([], .error (if (String.ofList cs).utf8ByteSize < 4 then .endOfText else .malformed))
  | '\\' :: c :: cs =>
    match escape? c with
    | none => ([], .error .malformed)
    | some c => (pieces cs |> Piece.cons (.char c))
  | c :: cs =>
    if c.toNat < 0x20 then ([], .error .malformed) else (pieces cs |> Piece.cons (.char c))

/-- The text of the pieces of a string, in which the two units of a surrogate pair make one
character; `ending` is the verdict on what follows the pieces. A unit that is half of no pair is an
error, unless it only lacks its other half because the text ends. -/
def joinPieces (ending : Except Defect Unit) : List Piece → Except Defect (List Char)
  | [] => ending.map fun _ => []
  | .char c :: ps => (joinPieces ending ps).map (c :: ·)
  | .unit n :: ps =>
    if n < 0xd800 ∨ 0xdfff < n then (joinPieces ending ps).map (Char.ofNat n :: ·)
    else if 0xdc00 ≤ n then .error .malformed
    else
      match ps with
      | [] => .error (match ending with
          | .ok _ => .malformed
          | .error f => f)
      | .char _ :: _ => .error .malformed
      | .unit m :: ps =>
        if 0xdc00 ≤ m ∧ m ≤ 0xdfff then
          (joinPieces ending ps).map
            (Char.ofNat (0x10000 + (n - 0xd800) * 0x400 + (m - 0xdc00)) :: ·)
        else .error .malformed

/-- A string behind its opening quote. -/
def quoted (cs : List Char) : Token × List Char :=
  let (ps, after) := pieces cs
  let ending := after.map fun _ => ()
  (.string ((joinPieces ending ps).map String.ofList) ending, after.toOption.getD [])

/-! ## Texts -/

/-- The blanks between tokens. -/
def isSpace (c : Char) : Bool := c == ' ' || c == '\n' || c == '\t' || c == '\r'

/-- The characters that are tokens by themselves. -/
def marks : List Char := ['[', ']', '\x7b', '\x7d', ',', ':']

/-- The token that starts with `c`, and the text behind it. -/
def first (c : Char) (cs : List Char) : Token × List Char :=
  if marks.contains c then (.mark c, cs)
  else if c = 'n' then
    let (verdict, rest) := word ['u', 'l', 'l'] cs
    (.null verdict, rest)
  else if c = 't' then
    let (verdict, rest) := word ['r', 'u', 'e'] cs
    (.bool verdict, rest)
  else if c = 'f' then
    let (verdict, rest) := word ['a', 'l', 's', 'e'] cs
    (.bool verdict, rest)
  else if c = '-' then unsignedNumber true cs
  else if c.isDigit then unsignedNumber false (c :: cs)
  else if c = '"' then quoted cs
  else (.stray, cs)

/-- The tokens of a text of at most `size` characters. -/
def scan : (size : Nat) → List Char → List Token
  | 0, _ => []
  | _, [] => []
  | size + 1, c :: cs =>
    if isSpace c then scan size cs
    else
      let (t, rest) := first c cs
      t :: scan size rest

/-- The tokens of a text. -/
def ofString (s : String) : List Token := scan s.length s.toList

/-! ## Passing over values -/

/-- What is expected next inside a value that is passed over. -/
inductive Phase where
  | value
  /-- A comma or a closing bracket. -/
  | comma
  | key
  | colon

/-- What stands between two brackets: values in an array, keys with values in an object. -/
def Phase.item (bracket : Char) : Phase := if bracket = '[' then value else key

/-- The bracket that closes what another one opened. -/
def closing (bracket : Char) : Char := if bracket = '[' then ']' else '\x7d'

/-- The verdict on a token that is a value by itself. -/
def toSkip : Token → Except Defect Unit
  | .null verdict | .bool verdict | .number _ verdict | .string _ verdict => verdict
  | .mark _ | .stray => .error .malformed

/-- Passes over the rest of a value inside the given brackets, the innermost first; gives what
follows it. -/
def skip : Phase → (brackets : List Char) → List Token → Except Defect (List Token)
  | _, _, [] => .error .endOfText
  | .value, brackets, .mark c :: .mark d :: ts =>
    if c = '[' ∨ c = '\x7b' then
      if d = closing c then if brackets.isEmpty then .ok ts else skip .comma brackets ts
      else skip (.item c) (c :: brackets) (.mark d :: ts)
    else .error .malformed
  | .value, brackets, .mark c :: ts =>
    if c = '[' ∨ c = '\x7b' then skip (.item c) (c :: brackets) ts else .error .malformed
  | .value, brackets, t :: ts =>
    t.toSkip.bind fun _ => if brackets.isEmpty then .ok ts else skip .comma brackets ts
  | .comma, bracket :: outer, .mark c :: ts =>
    if c = closing bracket then if outer.isEmpty then .ok ts else skip .comma outer ts
    else if c = ',' then skip (.item bracket) (bracket :: outer) ts
    else .error .malformed
  | .key, brackets, .string _ verdict :: ts => verdict.bind fun _ => skip .colon brackets ts
  | .colon, brackets, .mark c :: ts =>
    if c = ':' then skip .value brackets ts else .error .malformed
  | _, _, _ :: _ => .error .malformed

/-- Passes over a value. -/
def skipValue (ts : List Token) : Except Defect (List Token) := skip .value [] ts

end Token

end Twofold.Json
