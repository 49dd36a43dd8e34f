import Twofold.Json
import Twofold.Json.Token
import Twofold.Failure
import Twofold.Text.Blank

/-!
# Settings of a trial run

How many expressions are generated, how deep, and from which seed. Settings come from a JSON text,
or from variables of the environment; what is not given keeps its default.
-/

namespace Twofold.Trial

/-- The settings of a run. -/
structure Settings where
  trials : Nat
  maxDepth : Nat
  /-- Without a seed one is drawn for the run. -/
  seed : Option UInt64
deriving DecidableEq, Inhabited, Repr

namespace Settings

/-- What holds unless something else is given. -/
def default : Settings := ⟨1000, 4, none⟩

/-- The JSON form of settings, which names all of them. -/
def toJson (s : Settings) : Json :=
  .object [("trials", .count s.trials), ("max_depth", .count s.maxDepth),
    ("seed", .ofOption (fun seed => .count seed.toNat) s.seed)]

end Settings

/-- Why settings were not read. -/
inductive SettingsError where
  /-- A variable that does not hold a count. -/
  | invalidVariable (name value : String)
  /-- A variable that does not hold text. -/
  | notUnicode (name : String)
  | json (defect : Json.Defect)
deriving DecidableEq, Inhabited, Repr

/-! ## Variables -/

/-- A count in decimal digits, at most `Json.Token.maxCount`, with an optional plus sign. -/
def count? (cs : List Char) : Option Nat :=
  let digits := match cs with
    | '+' :: digits => digits
    | digits => digits
  if digits.isEmpty || !digits.all Char.isDigit then none
  else
    let n := digits.foldl (fun n c => n * 10 + Json.Token.digit c) 0
    if n ≤ Json.Token.maxCount then some n else none

/-- The count in a variable, blanks around it apart. -/
def parseVariable (name value : String) : Except SettingsError Nat :=
  match count? (Text.trim value.toList) with
  | some n => .ok n
  | none => .error (.invalidVariable name value)

namespace Settings

/-- The names of the variables. -/
def trialsVariable : String := "PAIRLANG_TRIALS"

@[inherit_doc trialsVariable]
def maxDepthVariable : String := "PAIRLANG_MAX_DEPTH"

@[inherit_doc trialsVariable]
def seedVariable : String := "PAIRLANG_SEED"

/-- The count in a variable, if it is set. -/
def lookupCount {m : Type → Type} [Monad m]
    (lookup : String → ExceptT SettingsError m (Option String)) (name : String) :
    ExceptT SettingsError m (Option Nat) := do
  match ← lookup name with
  | none => return none
  | some value => return some (← liftExcept (parseVariable name value))
where
  /-- A result without effects. -/
  liftExcept (r : Except SettingsError Nat) : ExceptT SettingsError m Nat := ExceptT.mk (pure r)

/-- The settings in variables. Each one is looked up and read before the next one. -/
def ofLookup {m : Type → Type} [Monad m]
    (lookup : String → ExceptT SettingsError m (Option String)) :
    ExceptT SettingsError m Settings := do
  let trials ← lookupCount lookup trialsVariable
  let maxDepth ← lookupCount lookup maxDepthVariable
  let seed ← lookupCount lookup seedVariable
  return {
    trials := trials.getD default.trials
    maxDepth := maxDepth.getD default.maxDepth
    seed := (seed.map UInt64.ofNat).or default.seed }

/-! ## JSON -/

open Json (Defect Token)

/-- What is wrong with a token that is not of the wanted kind. -/
def unexpected : Token → Defect
  | .mark c => if c = '[' ∨ c = '\x7b' then .data else .malformed
  | .null verdict | .bool verdict => orData verdict
  | .number verdict _ => orData verdict
  | .string verdict _ => orData verdict
  | .stray => .malformed
where
  /-- A value that cannot be read is worse than one of the wrong kind. -/
  orData {α : Type} : Except Defect α → Defect
    | .error f => f
    | .ok _ => .data

/-- Reads a count. -/
def readCount : List Token → Except Defect (Nat × List Token)
  | [] => .error .endOfText
  | .number (.ok (.count n)) _ :: ts => .ok (n, ts)
  | t :: _ => .error (unexpected t)

/-- Reads a count or nothing. -/
def readSeed : List Token → Except Defect (Option UInt64 × List Token)
  | .null verdict :: ts => verdict.map fun _ => (none, ts)
  | ts => (readCount ts).map fun (n, ts) => (some (UInt64.ofNat n), ts)

/-- Moves to the next item of an array; `none` at its end. -/
def nextItem (isFirst : Bool) : List Token → Except Defect (Option (List Token))
  | [] => .error .endOfText
  | .mark ']' :: _ => .ok none
  | .mark ',' :: ts =>
    if isFirst then .ok (some (.mark ',' :: ts))
    else match ts with
      | [] => .error .endOfText
      | .mark ']' :: _ => .error .malformed
      | ts => .ok (some ts)
  | ts => if isFirst then .ok (some ts) else .error .malformed

/-- Reads an item of an array, unless the array has ended. -/
def readItem {α : Type} (isFirst : Bool) (read : List Token → Except Defect (α × List Token))
    (missing : α) (ts : List Token) : Except Defect (α × List Token) := do
  match ← nextItem isFirst ts with
  | some ts => read ts
  | none => return (missing, ts)

/-- Reads the settings as the items of an array. Missing ones at its end keep their defaults. -/
def readArray (ts : List Token) : Except Defect (Settings × List Token) := do
  let (trials, ts) ← readItem true readCount default.trials ts
  let (maxDepth, ts) ← readItem false readCount default.maxDepth ts
  let (seed, ts) ← readItem false readSeed default.seed ts
  match ts with
  | .mark ']' :: ts => return (⟨trials, maxDepth, seed⟩, ts)
  | [] => throw .endOfText
  | _ => throw .malformed

/-- The settings given so far in an object. -/
structure Given where
  trials : Option Nat
  maxDepth : Option Nat
  seed : Option (Option UInt64)

/-- Passes the colon behind a key. -/
def afterColon : List Token → Except Defect (List Token)
  | [] => .error .endOfText
  | .mark ':' :: ts => .ok ts
  | _ => .error .malformed

/-- Reads the member of an object with a key. No setting is given twice; other members are passed
over. -/
def readMember (g : Given) (key : String) (ts : List Token) : Except Defect (Given × List Token) :=
  if key = "trials" then do
    if g.trials.isSome then throw .data
    let (n, ts) ← readCount (← afterColon ts)
    return ({ g with trials := some n }, ts)
  else if key = "max_depth" then do
    if g.maxDepth.isSome then throw .data
    let (n, ts) ← readCount (← afterColon ts)
    return ({ g with maxDepth := some n }, ts)
  else if key = "seed" then do
    if g.seed.isSome then throw .data
    let (seed, ts) ← readSeed (← afterColon ts)
    return ({ g with seed := some seed }, ts)
  else do
    let ts ← Token.skipValue (← afterColon ts)
    return (g, ts)

/-- Moves to the next key of an object; `none` at its end. -/
def nextKey (isFirst : Bool) : List Token → Except Defect (Option String × List Token)
  | [] => .error .endOfText
  | .mark '\x7d' :: ts => .ok (none, ts)
  | ts =>
    if isFirst then key ts
    else match ts with
      | .mark ',' :: ts => key ts
      | _ => .error .malformed
where
  /-- Reads a key. -/
  key : List Token → Except Defect (Option String × List Token)
    | [] => .error .endOfText
    | .string s _ :: ts => s.map fun s => (some s, ts)
    | _ => .error .malformed

/-- Reads the members of an object, of which there are at most `size`. -/
def readMembers : (size : Nat) → (isFirst : Bool) → Given → List Token →
    Except Defect (Given × List Token)
  | 0, _, _, _ => .error .endOfText
  | size + 1, isFirst, g, ts => do
    match ← nextKey isFirst ts with
    | (none, ts) => return (g, ts)
    | (some key, ts) =>
      let (g, ts) ← readMember g key ts
      readMembers size false g ts

/-- Reads the settings as an object. -/
def readObject (ts : List Token) : Except Defect (Settings × List Token) := do
  let (g, ts) ← readMembers (ts.length + 1) true ⟨none, none, none⟩ ts
  return ({
    trials := g.trials.getD default.trials
    maxDepth := g.maxDepth.getD default.maxDepth
    seed := g.seed.getD default.seed }, ts)

/-- Reads the settings from the tokens of a text. -/
def ofTokens (ts : List Token) : Except Defect Settings := do
  let (s, rest) ← match ts with
    | [] => throw .endOfText
    | .mark '[' :: ts => readArray ts
    | .mark '\x7b' :: ts => readObject ts
    | t :: _ => throw (unexpected t)
  if rest.isEmpty then return s else throw .malformed

/-- The settings in a JSON text: an object, or an array in the order trials, depth, seed. -/
def ofJson (text : String) : Except SettingsError Settings :=
  (ofTokens (Token.ofString text)).mapError .json

end Settings

namespace SettingsError

/-- The words for a failure; for a JSON text these are only where the words of a reader begin. -/
def message : SettingsError → String
  | invalidVariable name value =>
    name ++ ": expected a non-negative integer, found `" ++ value ++ "`"
  | notUnicode name => name ++ " is not valid unicode"
  | json defect => "invalid trial config: " ++ match defect with
    | .malformed => "not JSON"
    | .data => "not a configuration"
    | .endOfText => "unexpected end of text"

end SettingsError

end Twofold.Trial
