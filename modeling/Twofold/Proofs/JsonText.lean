import Twofold.Json
import Twofold.Json.Token
import Twofold.Proofs.NumberLayouts
import Twofold.Proofs.ValueText

/-!
# Texts of JSON documents

Both written forms lay a document out in one way: they differ in what starts a line and in what
stands behind a colon. Strings are read back up to their closing quote, whatever they hold; other
scalars have no characters of brackets, commas, quotes and lines; and brackets and commas part all
the rest. So either text determines a document of finite numbers.
-/

namespace Twofold

/-! ## Strings -/

namespace Json.Token

/-- The piece is read as the character. -/
def Piece.Stands (p : Piece) (c : Char) : Prop :=
  ∀ ending ps, joinPieces ending (p :: ps) = (joinPieces ending ps).map (c :: ·)

theorem stands_char (c : Char) : (Piece.char c).Stands c := by
  intro ending ps
  rw [joinPieces]

/-- A control character is a unit by itself. -/
theorem stands_unit {c : Char} (control : c.toNat < 0x20) : (Piece.unit c.toNat).Stands c := by
  intro ending ps
  have single : c.toNat < 0xd800 ∨ 0xdfff < c.toNat := Or.inl (Nat.lt_trans control (by decide))
  rw [joinPieces.eq_def]
  simp only [if_pos single, Char.ofNat_toNat]

theorem hex4?_hexDigit : ∀ n < 0x20, hex4? '0' '0' (hexDigit (n / 16)) (hexDigit n) = some n := by
  decide

/-- A written character is one piece, which is read as that character. -/
theorem exists_pieces_escape (c : Char) :
    ∃ p : Piece, p.Stands c ∧ ∀ rest, pieces (escape c ++ rest) = Piece.cons p (pieces rest) := by
  unfold escape
  split_ifs with mark backslash newLine carriage tab backspace feed control
  · subst mark
    exact ⟨_, stands_char _, fun rest => rfl⟩
  · subst backslash
    exact ⟨_, stands_char _, fun rest => rfl⟩
  · subst newLine
    exact ⟨_, stands_char _, fun rest => rfl⟩
  · subst carriage
    exact ⟨_, stands_char _, fun rest => rfl⟩
  · subst tab
    exact ⟨_, stands_char _, fun rest => rfl⟩
  · obtain rfl : c = '\x08' := Char.toNat_inj.1 backspace
    exact ⟨_, stands_char _, fun rest => rfl⟩
  · obtain rfl : c = '\x0c' := Char.toNat_inj.1 feed
    exact ⟨_, stands_char _, fun rest => rfl⟩
  · refine ⟨.unit c.toNat, stands_unit control, fun rest => ?_⟩
    simp only [List.cons_append, List.nil_append, pieces, hex4?_hexDigit _ control]
  · refine ⟨.char c, stands_char c, fun rest => ?_⟩
    rw [List.singleton_append, pieces.eq_def]
    simp [backslash, control]

/-- The characters of a string are read back up to the closing quote. -/
theorem exists_pieces_flatMap_escape (cs rest : List Char) :
    ∃ ps, pieces (cs.flatMap escape ++ '"' :: rest) = (ps, .ok rest) ∧
      joinPieces (.ok ()) ps = .ok cs := by
  induction cs with
  | nil => exact ⟨[], rfl, rfl⟩
  | cons c cs ih =>
    obtain ⟨ps, read, joined⟩ := ih
    obtain ⟨p, stands, first⟩ := exists_pieces_escape c
    refine ⟨p :: ps, ?_, ?_⟩
    · rw [List.flatMap_cons, List.append_assoc, first, read]
      rfl
    · rw [stands, joined]
      rfl

/-- A string in quotes is read back, whatever follows it. -/
theorem quoted_flatMap_escape (s : String) (rest : List Char) :
    quoted (s.toList.flatMap escape ++ '"' :: rest) = (.string (.ok s) (.ok ()), rest) := by
  obtain ⟨ps, read, joined⟩ := exists_pieces_flatMap_escape s.toList rest
  have whole : joinPieces (Except.map (fun _ => ()) (.ok rest : Except Defect (List Char))) ps =
      .ok s.toList := joined
  rw [quoted, read]
  simp only [whole]
  simp [Except.map, Except.toOption]

end Json.Token

namespace Json

theorem toList_quote (s : String) :
    (quote s).toList = '"' :: (s.toList.flatMap escape ++ ['"']) := by
  rw [quote, String.toList_ofList]
  rfl

/-- The text of a string determines the string and where it ends. -/
theorem quote_append_inj {s t : String} {r u : List Char}
    (h : (quote s).toList ++ r = (quote t).toList ++ u) : s = t ∧ r = u := by
  simp only [toList_quote, List.cons_append, List.append_assoc, List.nil_append, List.cons.injEq,
    true_and] at h
  have read := congrArg Token.quoted h
  rw [Token.quoted_flatMap_escape, Token.quoted_flatMap_escape] at read
  simp only [Prod.mk.injEq, Token.string.injEq, Except.ok.injEq, and_true] at read
  exact read

/-! ## Brackets -/

/-- The characters around scalars. -/
def marks : List Char := [',', ':', '"', '[', ']', '\x7b', '\x7d', '\n']

/-- The text of `a` determines which of the acceptable things it is, and where it ends. -/
def Told {α : Type} (ok : α → Prop) (text : α → List Char) (a : α) : Prop :=
  ∀ b r s, ok b → StartsIn marks r → StartsIn marks s → text a ++ r = text b ++ s → a = b ∧ r = s

/-- How a document is laid out: what starts a line inside so many brackets, and what stands behind
the colon of a member. -/
structure Style where
  line : Nat → List Char
  gap : List Char
  /-- A line starts with a line break, unless everything stands on one line. -/
  breaks : ∀ depth, line depth = [] ∨ ∃ blanks, line depth = '\n' :: blanks

namespace Style

variable {α : Type} {ok : α → Prop} {text : α → List Char} {close : Char} {r s : List Char}

/-- The parts behind the first one, and the line of the closing bracket. -/
def rest (style : Style) (depth : Nat) (text : α → List Char) : List α → List Char
  | [] => style.line depth
  | a :: as => ',' :: (style.line (depth + 1) ++ (text a ++ style.rest depth text as))

/-- What stands between two brackets. -/
def inside (style : Style) (depth : Nat) (text : α → List Char) : List α → List Char
  | [] => []
  | a :: as => style.line (depth + 1) ++ (text a ++ style.rest depth text as)

/-- A line starts with its break, or else with what stands on it. -/
theorem head?_line_append (style : Style) (depth : Nat) (c : Char) (r : List Char) :
    (style.line depth ++ c :: r).head? = some '\n' ∨
      (style.line depth ++ c :: r).head? = some c := by
  rcases style.breaks depth with none | ⟨blanks, line⟩
  · exact Or.inr (by rw [none]; rfl)
  · exact Or.inl (by rw [line]; rfl)

theorem startsIn_rest (style : Style) (depth : Nat) (bracket : close ∈ marks) (as : List α) :
    StartsIn marks (style.rest depth text as ++ close :: r) := by
  cases as with
  | nil =>
    intro c first
    rcases style.head?_line_append depth close r with head | head
    · cases head.symm.trans first
      decide
    · cases head.symm.trans first
      exact bracket
  | cons a as => exact startsIn_cons (by decide) _

/-- The line of the closing bracket does not start with a comma. -/
theorem line_append_ne_comma (style : Style) (depth : Nat) (bracket : close ≠ ',') :
    style.line depth ++ close :: r ≠ ',' :: s := by
  intro same
  rcases style.head?_line_append depth close r with head | head
  · rw [same] at head
    exact absurd (Option.some.inj head) (by decide)
  · rw [same] at head
    exact bracket (Option.some.inj head).symm

/-- Parts that are told apart by their texts can be separated again. -/
theorem rest_append_inj (style : Style) (depth : Nat) (bracket : close ∈ marks)
    (apart : close ≠ ',') {as bs : List α} (told : ∀ a ∈ as, Told ok text a) (oks : ∀ b ∈ bs, ok b)
    (h : style.rest depth text as ++ close :: r = style.rest depth text bs ++ close :: s) :
    as = bs ∧ r = s := by
  induction as generalizing bs with
  | nil =>
    cases bs with
    | nil => exact ⟨rfl, (List.cons.inj (List.append_cancel_left h)).2⟩
    | cons b bs => exact absurd h (style.line_append_ne_comma depth apart)
  | cons a as ih =>
    cases bs with
    | nil => exact absurd h.symm (style.line_append_ne_comma depth apart)
    | cons b bs =>
      simp only [rest, List.cons_append, List.append_assoc, List.cons.injEq, true_and] at h
      obtain ⟨rfl, behind⟩ := told a List.mem_cons_self b _ _ (oks b List.mem_cons_self)
        (style.startsIn_rest depth bracket as) (style.startsIn_rest depth bracket bs)
        (List.append_cancel_left h)
      obtain ⟨rfl, rests⟩ := ih (fun c mem => told c (List.mem_cons_of_mem _ mem))
        (fun c mem => oks c (List.mem_cons_of_mem _ mem)) behind
      exact ⟨rfl, rests⟩

/-- What stands between two brackets does not start with the closing one, unless it is nothing. -/
theorem inside_append_ne_close (style : Style) (depth : Nat) (line : close ≠ '\n') {a : α}
    (starts : ∃ c behind, text a = c :: behind ∧ c ≠ close) (as : List α) :
    style.inside depth text (a :: as) ++ r ≠ close :: s := by
  obtain ⟨c, behind, first, apart⟩ := starts
  rw [inside, first, List.append_assoc, List.append_assoc, List.cons_append]
  intro same
  rcases style.head?_line_append (depth + 1) c _ with head | head
  · rw [same] at head
    exact line (Option.some.inj head)
  · rw [same] at head
    exact apart (Option.some.inj head).symm

theorem inside_append_inj (style : Style) (depth : Nat) (bracket : close ∈ marks)
    (apart : close ≠ ',') (line : close ≠ '\n')
    (starts : ∀ a, ok a → ∃ c behind, text a = c :: behind ∧ c ≠ close) {as bs : List α}
    (told : ∀ a ∈ as, Told ok text a) (oksA : ∀ a ∈ as, ok a) (oksB : ∀ b ∈ bs, ok b)
    (h : style.inside depth text as ++ close :: r = style.inside depth text bs ++ close :: s) :
    as = bs ∧ r = s := by
  cases as with
  | nil =>
    cases bs with
    | nil => exact ⟨rfl, (List.cons.inj h).2⟩
    | cons b bs =>
      exact absurd h.symm
        (style.inside_append_ne_close depth line (starts b (oksB b List.mem_cons_self)) bs)
  | cons a as =>
    cases bs with
    | nil =>
      exact absurd h
        (style.inside_append_ne_close depth line (starts a (oksA a List.mem_cons_self)) as)
    | cons b bs =>
      -- Behind a comma, the parts would stand in the same way.
      have commas : style.rest depth text (a :: as) ++ close :: r =
          style.rest depth text (b :: bs) ++ close :: s := congrArg (',' :: ·) h
      exact style.rest_append_inj depth bracket apart told oksB commas

end Style

/-! ## Scalars -/

/-- A document all of whose numbers are finite. -/
inductive Finite : Json → Prop
  | null : Finite .null
  | bool (b : Bool) : Finite (.bool b)
  | count (n : Nat) : Finite (.count n)
  | number {n : Number} (h : n.isFinite = true) : Finite (.number n)
  | string (s : String) : Finite (.string s)
  | array {items : List Json} (h : ∀ item ∈ items, Finite item) : Finite (.array items)
  | object {members : List (String × Json)} (h : ∀ m ∈ members, Finite m.2) :
      Finite (.object members)

/-- The character that opens a string, an array or an object. -/
def opening : Json → Option Char
  | .null | .bool _ | .count _ | .number _ => none
  | .string _ => some '"'
  | .array _ => some '['
  | .object _ => some '\x7b'

variable {j k : Json}

/-- The characters of counts and numbers. -/
def IsNumeral (c : Char) : Prop := c.isDigit ∨ c ∈ ['.', 'e', '+', '-']

theorem isNumeral_spell {n : Number} (h : n.isFinite = true) {c : Char}
    (mem : c ∈ (n.spell numberLayout).toList) : IsNumeral c :=
  Number.mem_toList_spell h mem

theorem isNumeral_digitChars {n : Nat} {c : Char} (mem : c ∈ Decimal.digitChars n) :
    IsNumeral c :=
  Or.inl (Decimal.isDigit_digitChars n c mem)

theorem lacks_numeral {text : List Char} (h : ∀ c ∈ text, IsNumeral c) : Lacks marks text := by
  have apart : ∀ c ∈ marks, ¬ IsNumeral c := by simp [marks, IsNumeral, Char.isDigit]
  intro c mem mark
  exact apart c mark (h c mem)

theorem toList_atom_count (n : Nat) : (Json.count n).atom.toList = Decimal.digitChars n := by
  rw [atom, String.toList_ofList]

theorem lacks_atom (h : j.Finite) (scalar : j.opening = none) :
    Lacks marks j.atom.toList ∧ j.atom.toList ≠ [] := by
  cases h with
  | null => exact ⟨by simp [atom, Lacks, marks], by simp [atom]⟩
  | bool b => cases b <;> exact ⟨by simp [atom, Lacks, marks], by simp [atom]⟩
  | count n =>
    rw [toList_atom_count]
    exact ⟨lacks_numeral fun _ => isNumeral_digitChars, Nat.toDigits_ne_nil⟩
  | number finite =>
    exact ⟨lacks_numeral fun _ => isNumeral_spell finite, Number.toList_spell_ne_nil _ finite⟩
  | string | array | object => cases scalar

/-- A scalar that is written as a word. -/
def isWord : Json → Bool
  | .null | .bool _ => true
  | _ => false

/-- Words are told from counts and numbers by their letters. -/
theorem isWord_iff (h : j.Finite) (scalar : j.opening = none) :
    j.isWord = true ↔ ∃ c ∈ j.atom.toList, ¬ IsNumeral c := by
  cases h with
  | null => exact iff_of_true rfl ⟨'n', by simp [atom], by simp [IsNumeral, Char.isDigit]⟩
  | bool b =>
    refine iff_of_true rfl ?_
    cases b with
    | false => exact ⟨'f', by simp [atom], by simp [IsNumeral, Char.isDigit]⟩
    | true => exact ⟨'t', by simp [atom], by simp [IsNumeral, Char.isDigit]⟩
  | count n =>
    refine iff_of_false Bool.false_ne_true ?_
    rintro ⟨c, mem, letter⟩
    rw [toList_atom_count] at mem
    exact letter (isNumeral_digitChars mem)
  | number finite =>
    refine iff_of_false Bool.false_ne_true ?_
    rintro ⟨c, mem, letter⟩
    exact letter (isNumeral_spell finite mem)
  | string | array | object => cases scalar

/-- A number shows a point or a power of ten, a count does not. -/
theorem atom_count_ne_number (m : Nat) {n : Number} (finite : n.isFinite = true) :
    (Json.count m).atom ≠ (Json.number n).atom := by
  intro same
  obtain ⟨c, mem, other⟩ := Number.exists_mem_toList_spell (l := numberLayout) rfl finite
  have digits : (n.spell numberLayout).toList = Decimal.digitChars m :=
    (congrArg String.toList same).symm.trans (toList_atom_count m)
  rw [digits] at mem
  exact other (Decimal.isDigit_digitChars m c mem)

/-- Scalars with one text are the same scalar. -/
theorem eq_of_atom_eq (hj : j.Finite) (hk : k.Finite) (scalarJ : j.opening = none)
    (scalarK : k.opening = none) (h : j.atom = k.atom) : j = k := by
  have words : j.isWord = k.isWord := by
    rw [Bool.eq_iff_iff, isWord_iff hj scalarJ, isWord_iff hk scalarK, h]
  cases hj with
  | null =>
    cases hk with
    | null => rfl
    | bool b => cases b <;> exact absurd h (by decide)
    | count | number => cases words
    | string | array | object => cases scalarK
  | bool a =>
    cases hk with
    | null => cases a <;> exact absurd h (by decide)
    | bool b => exact congrArg Json.bool (boolText_injective h)
    | count | number => cases words
    | string | array | object => cases scalarK
  | count m =>
    cases hk with
    | null | bool => cases words
    | count n =>
      have digits := congrArg (fun text => Nat.ofDigitChars 10 text.toList 0) h
      simp only [toList_atom_count, Decimal.ofDigitChars_digitChars] at digits
      rw [digits]
    | number finite => exact absurd h (atom_count_ne_number m finite)
    | string | array | object => cases scalarK
  | number finiteM =>
    cases hk with
    | null | bool => cases words
    | count n => exact absurd h.symm (atom_count_ne_number n finiteM)
    | number finiteN => rw [Number.eq_of_spell_eq finiteM finiteN h]
    | string | array | object => cases scalarK
  | string | array | object => cases scalarJ

/-! ## Documents -/

/-- The text of a member, given that of its value. -/
def Style.member (style : Style) (text : Json → List Char) (m : String × Json) : List Char :=
  (quote m.1).toList ++ ':' :: (style.gap ++ text m.2)

/-- A writer lays documents out in a style. -/
structure Lays (style : Style) (write : Nat → Json → List Char) : Prop where
  scalar : ∀ depth j, j.opening = none → write depth j = j.atom.toList
  string : ∀ depth s, write depth (.string s) = (quote s).toList
  array : ∀ depth items, write depth (.array items) =
    '[' :: (style.inside depth (write (depth + 1)) items ++ [']'])
  object : ∀ depth members, write depth (.object members) =
    '\x7b' :: (style.inside depth (style.member (write (depth + 1))) members ++ ['\x7d'])

namespace Lays

variable {style : Style} {write : Nat → Json → List Char} {r s : List Char}

theorem exists_eq_opening (h : Lays style write) {c : Char} (opens : j.opening = some c)
    (depth : Nat) : ∃ behind, write depth j = c :: behind := by
  cases j with
  | null | bool | count | number => cases opens
  | string s =>
    cases opens
    exact ⟨_, (h.string depth s).trans (toList_quote s)⟩
  | array items =>
    cases opens
    exact ⟨_, h.array depth items⟩
  | object members =>
    cases opens
    exact ⟨_, h.object depth members⟩

/-- Strings, arrays, objects and other scalars are told apart by their first characters. -/
theorem opening_eq (h : Lays style write) (hj : j.Finite) (hk : k.Finite) {depth : Nat}
    (same : write depth j ++ r = write depth k ++ s) : j.opening = k.opening := by
  have mark {j : Json} {c : Char} (opens : j.opening = some c) : c ∈ marks := by
    cases j <;> cases opens <;> decide
  cases opensJ : j.opening with
  | none =>
    obtain ⟨lacks, nonempty⟩ := lacks_atom hj opensJ
    cases opensK : k.opening with
    | none => rfl
    | some c =>
      obtain ⟨behind, text⟩ := h.exists_eq_opening opensK depth
      rw [h.scalar depth j opensJ, text] at same
      exact absurd same (lacks.append_ne_cons nonempty (mark opensK) _ _)
  | some c =>
    obtain ⟨behind, text⟩ := h.exists_eq_opening opensJ depth
    cases opensK : k.opening with
    | none =>
      obtain ⟨lacks, nonempty⟩ := lacks_atom hk opensK
      rw [h.scalar depth k opensK, text] at same
      exact absurd same.symm (lacks.append_ne_cons nonempty (mark opensJ) _ _)
    | some d =>
      obtain ⟨behind', text'⟩ := h.exists_eq_opening opensK depth
      rw [text, text'] at same
      exact congrArg some (List.cons.inj same).1

/-- No document starts with a closing bracket. -/
theorem exists_eq_cons (h : Lays style write) (depth : Nat) {close : Char}
    (bracket : close ∈ [']', '\x7d']) (j : Json) (hj : j.Finite) :
    ∃ c behind, write depth j = c :: behind ∧ c ≠ close := by
  cases opens : j.opening with
  | none =>
    obtain ⟨lacks, nonempty⟩ := lacks_atom hj opens
    obtain ⟨c, behind, text⟩ := List.exists_cons_of_ne_nil nonempty
    refine ⟨c, behind, (h.scalar depth j opens).trans text, ?_⟩
    have closes : close ∈ marks := by
      revert bracket
      simp only [marks, List.mem_cons, List.not_mem_nil, or_false]
      tauto
    rintro rfl
    exact lacks c (by rw [text]; exact List.mem_cons_self) closes
  | some c =>
    obtain ⟨behind, text⟩ := h.exists_eq_opening opens depth
    refine ⟨c, behind, text, ?_⟩
    rintro rfl
    cases j <;> cases opens <;> simp at bracket

/-- A member is told by its key and its value. -/
theorem told_member {text : Json → List Char} {key : String} {value : Json}
    (told : Told Json.Finite text value) :
    Told (fun m => m.2.Finite) (style.member text) (key, value) := by
  intro m r s finite hr hs same
  simp only [Style.member, List.append_assoc, List.cons_append] at same
  obtain ⟨rfl, behind⟩ := quote_append_inj same
  obtain ⟨rfl, rests⟩ := told m.2 r s finite hr hs
    (List.append_cancel_left (List.cons.inj behind).2)
  exact ⟨rfl, rests⟩

theorem told_scalar (h : Lays style write) (hj : j.Finite) (scalar : j.opening = none)
    (depth : Nat) : Told Json.Finite (write depth) j := by
  intro k r s hk hr hs same
  have scalarK : k.opening = none := (h.opening_eq hj hk same).symm.trans scalar
  rw [h.scalar depth j scalar, h.scalar depth k scalarK] at same
  obtain ⟨texts, rests⟩ := (lacks_atom hj scalar).1.append_inj (lacks_atom hk scalarK).1 hr hs same
  exact ⟨eq_of_atom_eq hj hk scalar scalarK (String.toList_inj.1 texts), rests⟩

/-- The text of a document determines it and where it ends. -/
theorem told (h : Lays style write) (hj : j.Finite) (depth : Nat) :
    Told Json.Finite (write depth) j := by
  induction hj generalizing depth with
  | null => exact h.told_scalar .null rfl depth
  | bool b => exact h.told_scalar (.bool b) rfl depth
  | count n => exact h.told_scalar (.count n) rfl depth
  | number finite => exact h.told_scalar (.number finite) rfl depth
  | string t =>
    intro k r s hk hr hs same
    have opens := h.opening_eq (.string t) hk same
    cases hk with
    | string u =>
      rw [h.string, h.string] at same
      obtain ⟨rfl, rests⟩ := quote_append_inj same
      exact ⟨rfl, rests⟩
    | _ => simp [opening] at opens
  | array finite ih =>
    intro k r s hk hr hs same
    have opens := h.opening_eq (.array finite) hk same
    cases hk with
    | array finite' =>
      simp only [h.array, List.cons_append, List.append_assoc, List.nil_append, List.cons.injEq,
        true_and] at same
      obtain ⟨rfl, rests⟩ := style.inside_append_inj depth (by decide) (by decide) (by decide)
        (h.exists_eq_cons (depth + 1) (by decide)) (fun item mem => ih item mem (depth + 1)) finite
        finite' same
      exact ⟨rfl, rests⟩
    | _ => simp [opening] at opens
  | object finite ih =>
    intro k r s hk hr hs same
    have opens := h.opening_eq (.object finite) hk same
    cases hk with
    | object finite' =>
      simp only [h.object, List.cons_append, List.append_assoc, List.nil_append, List.cons.injEq,
        true_and] at same
      have keys : ∀ m : String × Json, m.2.Finite →
          ∃ c behind, style.member (write (depth + 1)) m = c :: behind ∧ c ≠ '\x7d' := by
        intro m _
        exact ⟨'"', _, by rw [Style.member, toList_quote]; rfl, by decide⟩
      obtain ⟨rfl, rests⟩ := style.inside_append_inj depth (by decide) (by decide) (by decide) keys
        (fun m mem => told_member (ih m mem (depth + 1))) finite finite' same
      exact ⟨rfl, rests⟩
    | _ => simp [opening] at opens

/-- No two documents of finite numbers have one text. -/
theorem eq_of_write_eq (h : Lays style write) (hj : j.Finite) (hk : k.Finite) (depth : Nat)
    (same : write depth j = write depth k) : j = k := by
  have texts : write depth j ++ [] = write depth k ++ [] := by rw [same]
  exact (h.told hj depth k [] [] hk startsIn_nil startsIn_nil texts).1

end Lays

/-! ## The two forms -/

/-- Everything on one line. -/
def oneLine : Style where
  line _ := []
  gap := []
  breaks _ := Or.inl rfl

/-- A line for every member, two blanks deeper than its bracket. -/
def manyLines : Style where
  line depth := '\n' :: List.replicate (2 * depth) ' '
  gap := [' ']
  breaks _ := Or.inr ⟨_, rfl⟩

theorem toList_compactItems (depth : Nat) (items : List Json) :
    (compactItems items).toList = oneLine.rest depth (fun j => j.compact.toList) items := by
  induction items with
  | nil => rfl
  | cons item items ih => simp [compactItems, Style.rest, oneLine, ih]

theorem toList_compactMembers (depth : Nat) (members : List (String × Json)) :
    (compactMembers members).toList =
      oneLine.rest depth (oneLine.member fun j => j.compact.toList) members := by
  induction members with
  | nil => rfl
  | cons m members ih =>
    obtain ⟨key, value⟩ := m
    simp [compactMembers, Style.rest, Style.member, oneLine, ih]

theorem lays_compact : Lays oneLine fun _ j => j.compact.toList where
  scalar depth j h := by cases j <;> cases h <;> simp [compact]
  string depth s := by simp [compact, atom]
  array depth items := by
    cases items with
    | nil => simp [compact, atom, Style.inside]
    | cons item items => simp [compact, Style.inside, toList_compactItems depth, oneLine]
  object depth members := by
    cases members with
    | nil => simp [compact, atom, Style.inside]
    | cons m members =>
      obtain ⟨key, value⟩ := m
      simp [compact, Style.inside, Style.member, toList_compactMembers depth, oneLine]

mutual

/-- What is written behind a text does not depend on that text. -/
theorem writeIndented_eq (acc : String) (depth : Nat) (j : Json) :
    j.writeIndented acc depth = acc ++ j.writeIndented "" depth := by
  match j with
  | .null | .bool _ | .count _ | .number _ | .string _ | .array [] | .object [] =>
    simp [writeIndented]
  | .array (item :: items) =>
    rw [writeIndented, writeIndented]
    rw [writeIndented_eq _ _ item, writeIndentedItems_eq _ _ items,
      writeIndented_eq ("" ++ _ ++ _) _ item, writeIndentedItems_eq ("" ++ _ ++ _ ++ _) _ items]
    simp [String.append_assoc]
  | .object ((key, value) :: members) =>
    rw [writeIndented, writeIndented]
    rw [writeIndented_eq _ _ value, writeIndentedMembers_eq _ _ members,
      writeIndented_eq ("" ++ _ ++ _ ++ _ ++ _) _ value,
      writeIndentedMembers_eq ("" ++ _ ++ _ ++ _ ++ _ ++ _) _ members]
    simp [String.append_assoc]

theorem writeIndentedItems_eq (acc : String) (depth : Nat) (items : List Json) :
    writeIndentedItems acc depth items = acc ++ writeIndentedItems "" depth items := by
  match items with
  | [] => simp [writeIndentedItems]
  | item :: items =>
    rw [writeIndentedItems, writeIndentedItems]
    rw [writeIndented_eq _ _ item, writeIndentedItems_eq _ _ items,
      writeIndented_eq ("" ++ _ ++ _) _ item, writeIndentedItems_eq ("" ++ _ ++ _ ++ _) _ items]
    simp [String.append_assoc]

theorem writeIndentedMembers_eq (acc : String) (depth : Nat) (members : List (String × Json)) :
    writeIndentedMembers acc depth members = acc ++ writeIndentedMembers "" depth members := by
  match members with
  | [] => simp [writeIndentedMembers]
  | (key, value) :: members =>
    rw [writeIndentedMembers, writeIndentedMembers]
    rw [writeIndented_eq _ _ value, writeIndentedMembers_eq _ _ members,
      writeIndented_eq ("" ++ _ ++ _ ++ _ ++ _) _ value,
      writeIndentedMembers_eq ("" ++ _ ++ _ ++ _ ++ _ ++ _) _ members]
    simp [String.append_assoc]

end

theorem toList_newline (depth : Nat) : (newline depth).toList = manyLines.line depth :=
  String.toList_ofList

theorem toList_writeIndentedItems (acc : String) (depth : Nat) (items : List Json) :
    (writeIndentedItems acc depth items ++ newline depth).toList = acc.toList ++
      manyLines.rest depth (fun j => (j.writeIndented "" (depth + 1)).toList) items := by
  induction items generalizing acc with
  | nil => simp [writeIndentedItems, Style.rest, toList_newline]
  | cons item items ih =>
    rw [writeIndentedItems, ih, writeIndented_eq]
    simp [Style.rest, toList_newline]

theorem toList_writeIndentedMembers (acc : String) (depth : Nat) (members : List (String × Json)) :
    (writeIndentedMembers acc depth members ++ newline depth).toList = acc.toList ++
      manyLines.rest depth
        (manyLines.member fun j => (j.writeIndented "" (depth + 1)).toList) members := by
  induction members generalizing acc with
  | nil => simp [writeIndentedMembers, Style.rest, toList_newline]
  | cons m members ih =>
    obtain ⟨key, value⟩ := m
    rw [writeIndentedMembers, ih, writeIndented_eq]
    simp [Style.rest, Style.member, manyLines, newline]

theorem lays_indented : Lays manyLines fun depth j => (j.writeIndented "" depth).toList where
  scalar depth j h := by cases j <;> cases h <;> simp [writeIndented]
  string depth s := by simp [writeIndented, atom]
  array depth items := by
    cases items with
    | nil => simp [writeIndented, atom, Style.inside]
    | cons item items =>
      rw [writeIndented, String.toList_append, toList_writeIndentedItems, writeIndented_eq]
      simp [Style.inside, toList_newline]
  object depth members := by
    cases members with
    | nil => simp [writeIndented, atom, Style.inside]
    | cons m members =>
      obtain ⟨key, value⟩ := m
      rw [writeIndented, String.toList_append, toList_writeIndentedMembers, writeIndented_eq]
      simp [Style.inside, Style.member, manyLines, newline]

/-- Neither form writes two documents of finite numbers alike. -/
theorem eq_of_compact_eq (hj : j.Finite) (hk : k.Finite) (h : j.compact = k.compact) : j = k :=
  lays_compact.eq_of_write_eq hj hk 0 (congrArg String.toList h)

theorem eq_of_indented_eq (hj : j.Finite) (hk : k.Finite) (h : j.indented = k.indented) : j = k :=
  lays_indented.eq_of_write_eq hj hk 0 (congrArg String.toList h)

end Json

end Twofold
