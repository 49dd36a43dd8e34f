import Twofold.Proofs.CrossCheck
import Twofold.Proofs.Generation
import Twofold.Proofs.ValueText

/-!
# Texts of expressions

An expression is a leaf, whose text has no brackets and no blanks, or its text opens a bracket,
behind which a blank ends the operator; the parts that follow are told from what stands behind them
in the same way. So the text of an expression determines the expression and where it ends, provided
that its leaves can be told apart: names have to look like invented ones, and numbers must not be
NaNs.
-/

namespace Twofold

/-- The characters around the parts of an expression. -/
def separators : List Char := [' ', '(', ')', '[', ']']

/-! ## Names -/

namespace Chance

/-- What invented names look like: a stem, and digits behind it. -/
def NameForm (x : Name) : Prop :=
  ∃ stem ∈ Generator.stems, ∃ digits : List Char, digits ≠ [] ∧ (∀ c ∈ digits, c.isDigit) ∧
    x.toList = stem.toList ++ digits

theorem Invented.nameForm {k : Nat} {x : Name} (h : Invented k x) : NameForm x := by
  obtain ⟨stem, member, rfl⟩ := h
  refine ⟨stem, member, Decimal.digitChars k, Nat.toDigits_ne_nil, Decimal.isDigit_digitChars k, ?_⟩
  rw [String.toList_append, countText, String.toList_ofList]

/-- The stems are single letters. -/
def stemLetters : List Char := ['a', 'b', 'x', 'y', 'ζ', 'é']

theorem exists_toList_stem_eq {stem : String} (h : stem ∈ Generator.stems) :
    ∃ c ∈ stemLetters, stem.toList = [c] := by
  simp only [Generator.stems, List.mem_cons, List.not_mem_nil, or_false] at h
  rcases h with rfl | rfl | rfl | rfl | rfl | rfl
  · exact ⟨'a', by simp [stemLetters], rfl⟩
  · exact ⟨'b', by simp [stemLetters], rfl⟩
  · exact ⟨'x', by simp [stemLetters], rfl⟩
  · exact ⟨'y', by simp [stemLetters], rfl⟩
  · exact ⟨'ζ', by simp [stemLetters], rfl⟩
  · exact ⟨'é', by simp [stemLetters], rfl⟩

namespace NameForm

variable {x : Name}

theorem exists_toList_eq (h : NameForm x) :
    ∃ c ∈ stemLetters, ∃ d digits, x.toList = c :: d :: digits ∧ ∀ e ∈ d :: digits, e.isDigit := by
  obtain ⟨stem, member, digits, nonempty, all, text⟩ := h
  obtain ⟨c, letter, single⟩ := exists_toList_stem_eq member
  obtain ⟨d, digits, rfl⟩ := List.exists_cons_of_ne_nil nonempty
  rw [single] at text
  exact ⟨c, letter, d, digits, text, all⟩

theorem toList_ne_nil (h : NameForm x) : x.toList ≠ [] := by
  obtain ⟨c, -, d, digits, text, -⟩ := h.exists_toList_eq
  simp [text]

theorem lacks (h : NameForm x) : Lacks separators x.toList := by
  obtain ⟨c, letter, d, digits, text, all⟩ := h.exists_toList_eq
  have letters : ∀ c ∈ stemLetters, c ∉ separators := by simp [stemLetters, separators]
  have digit : ∀ c ∈ separators, ¬ c.isDigit := by simp [separators, Char.isDigit]
  rw [text]
  intro e mem separator
  rcases List.mem_cons.1 mem with rfl | mem
  · exact letters e letter separator
  · exact digit e separator (all e mem)

/-- No number starts with the letter of a stem. -/
theorem ne_number (h : NameForm x) {n : Number} (hn : n.isNaN = false) : x ≠ n.text := by
  rintro rfl
  obtain ⟨c, letter, d, digits, text, -⟩ := h.exists_toList_eq
  have letters : ∀ c ∈ stemLetters, ¬ (c.isDigit ∨ c ∈ ['-', '.', 'i', 'n', 'f']) := by
    simp [stemLetters, Char.isDigit]
  apply letters c letter
  apply Number.mem_text_of_not_isNaN hn
  rw [text]
  exact List.mem_cons_self

/-- No boolean has a digit. -/
theorem ne_boolText (h : NameForm x) (b : Bool) : x ≠ boolText b := by
  rintro rfl
  obtain ⟨c, -, d, digits, text, all⟩ := h.exists_toList_eq
  have plain : ∀ c ∈ (boolText b).toList, ¬ c.isDigit := by
    cases b <;> simp [toList_boolText, Char.isDigit]
  apply plain d
  · rw [text]
    exact List.mem_cons_of_mem _ List.mem_cons_self
  · exact all d List.mem_cons_self

end NameForm

end Chance

namespace Expr

/-! ## Leaves -/

/-- All names in an expression, of variables and of bindings, and all numbers in it are of some
kind. -/
def All (name : Name → Prop) (number : Number → Prop) : Expr → Prop
  | num n => number n
  | bool _ => True
  | var x => name x
  | add a b | le a b | pair a b => a.All name number ∧ b.All name number
  | letIn x a b => name x ∧ a.All name number ∧ b.All name number
  | ite a b c => a.All name number ∧ b.All name number ∧ c.All name number
  | head a | tail a => a.All name number

/-- The names look like invented ones, and no number is a NaN. -/
def Legible (e : Expr) : Prop := e.All Chance.NameForm fun n => n.isNaN = false

/-- The operator in front of the parts of an expression that is not a leaf. -/
def operator? : Expr → Option String
  | num _ | bool _ | var _ => none
  | add .. => some "+"
  | le .. => some "<="
  | letIn .. => some "let"
  | ite .. => some "if"
  | pair .. => some "pair"
  | head _ => some "head"
  | tail _ => some "tail"

/-- What stands behind the operator and a blank. -/
def operandText : Expr → List Char
  | num _ | bool _ | var _ => []
  | add a b | le a b | pair a b => a.text.toList ++ ' ' :: (b.text.toList ++ [')'])
  | letIn x a b =>
    '(' :: '[' ::
      (x.toList ++ ' ' :: (a.text.toList ++ ']' :: ')' :: ' ' :: (b.text.toList ++ [')'])))
  | ite a b c => a.text.toList ++ ' ' :: (b.text.toList ++ ' ' :: (c.text.toList ++ [')']))
  | head a | tail a => a.text.toList ++ [')']

theorem toList_text_of_operator {e : Expr} {operator : String} (h : e.operator? = some operator) :
    e.text.toList = '(' :: (operator.toList ++ ' ' :: e.operandText) := by
  cases e <;> cases h <;> simp [text, operandText]

theorem lacks_operator {e : Expr} {operator : String} (h : e.operator? = some operator) :
    Lacks separators operator.toList := by
  cases e <;> cases h <;> simp [Lacks, separators]

theorem lacks_leaf {e : Expr} (legible : e.Legible) (leaf : e.operator? = none) :
    Lacks separators e.text.toList ∧ e.text.toList ≠ [] := by
  cases e with
  | num n => exact ⟨n.lacks_text (by simp [separators, Char.isDigit]), n.text_ne_nil⟩
  | bool b =>
    refine ⟨?_, boolText_ne_nil b⟩
    cases b <;> simp [text, Lacks, separators, toList_boolText]
  | var x =>
    have form : Chance.NameForm x := legible
    exact ⟨form.lacks, form.toList_ne_nil⟩
  | _ => cases leaf

/-- Leaves with one text are the same leaf. -/
theorem leaf_eq_of_text_eq {e f : Expr} (he : e.Legible) (hf : f.Legible)
    (leafE : e.operator? = none) (leafF : f.operator? = none) (h : e.text = f.text) : e = f := by
  cases e with
  | num m =>
    have numberM : m.isNaN = false := he
    cases f with
    | num n =>
      have numberN : n.isNaN = false := hf
      have same := Number.canonical_eq_of_text_eq h
      rw [Number.canonical, Number.canonical, numberM, numberN] at same
      exact congrArg num same
    | bool b => exact absurd (congrArg String.toList h) (m.text_ne_boolText b)
    | var y => exact absurd h.symm (Chance.NameForm.ne_number hf numberM)
    | _ => cases leafF
  | bool a =>
    cases f with
    | num n => exact absurd (congrArg String.toList h).symm (n.text_ne_boolText a)
    | bool b => exact congrArg bool (boolText_injective h)
    | var y => exact absurd h.symm (Chance.NameForm.ne_boolText hf a)
    | _ => cases leafF
  | var x =>
    cases f with
    | num n => exact absurd h (Chance.NameForm.ne_number he hf)
    | bool b => exact absurd h (Chance.NameForm.ne_boolText he b)
    | var y => exact congrArg var h
    | _ => cases leafF
  | _ => cases leafE

/-! ## Unique reading -/

/-- Two texts that go on with a separator start with the same operator, and go on in the same way,
or both are leaves. -/
theorem operator_eq_of_append_eq {e f : Expr} {r s : List Char} (he : e.Legible) (hf : f.Legible)
    (h : e.text.toList ++ r = f.text.toList ++ s) :
    e.operator? = f.operator? ∧
      ∀ operator, e.operator? = some operator → e.operandText ++ r = f.operandText ++ s := by
  cases opE : e.operator? with
  | none =>
    obtain ⟨lacks, nonempty⟩ := lacks_leaf he opE
    cases opF : f.operator? with
    | none => exact ⟨rfl, nofun⟩
    | some operator =>
      rw [toList_text_of_operator opF] at h
      exact absurd h (lacks.append_ne_cons nonempty (by decide) _ _)
  | some operatorE =>
    cases opF : f.operator? with
    | none =>
      obtain ⟨lacks, nonempty⟩ := lacks_leaf hf opF
      rw [toList_text_of_operator opE] at h
      exact absurd h.symm (lacks.append_ne_cons nonempty (by decide) _ _)
    | some operatorF =>
      rw [toList_text_of_operator opE, toList_text_of_operator opF] at h
      simp only [List.cons_append, List.append_assoc, List.cons.injEq, true_and] at h
      obtain ⟨operators, operands⟩ := (lacks_operator opE).append_inj (lacks_operator opF)
        (startsIn_cons (by decide) _) (startsIn_cons (by decide) _) h
      refine ⟨congrArg some (String.toList_inj.1 operators), ?_⟩
      intro _ _
      exact (List.cons.inj operands).2

/-- The text of the expression determines it and where it ends. -/
def Readable (e : Expr) : Prop :=
  ∀ (f : Expr) (r s : List Char), e.Legible → f.Legible → StartsIn separators r →
    StartsIn separators s → e.text.toList ++ r = f.text.toList ++ s → e = f ∧ r = s

/-- A part and the character behind it. -/
theorem Readable.part {a c : Expr} {mark : Char} {r s : List Char} (h : a.Readable)
    (ha : a.Legible) (hc : c.Legible) (separator : mark ∈ separators)
    (same : a.text.toList ++ mark :: r = c.text.toList ++ mark :: s) : a = c ∧ r = s := by
  obtain ⟨parts, rests⟩ :=
    h c _ _ ha hc (startsIn_cons separator r) (startsIn_cons separator s) same
  exact ⟨parts, (List.cons.inj rests).2⟩

/-- The two parts of an expression and the bracket behind them. -/
theorem Readable.two_parts {a b c d : Expr} {r s : List Char} (iha : a.Readable) (ihb : b.Readable)
    (hab : a.Legible ∧ b.Legible) (hcd : c.Legible ∧ d.Legible)
    (same : a.text.toList ++ ' ' :: (b.text.toList ++ ')' :: r) =
      c.text.toList ++ ' ' :: (d.text.toList ++ ')' :: s)) : a = c ∧ b = d ∧ r = s := by
  obtain ⟨firsts, seconds⟩ := iha.part hab.1 hcd.1 (by decide) same
  exact ⟨firsts, ihb.part hab.2 hcd.2 (by decide) seconds⟩

theorem readable (e : Expr) : e.Readable := by
  induction e with
  | num | bool | var =>
    intro f r s he hf hr hs h
    obtain ⟨operators, -⟩ := operator_eq_of_append_eq he hf h
    have leaf : f.operator? = none := operators.symm
    obtain ⟨texts, rests⟩ := (lacks_leaf he rfl).1.append_inj (lacks_leaf hf leaf).1 hr hs h
    exact ⟨leaf_eq_of_text_eq he hf rfl leaf (String.toList_inj.1 texts), rests⟩
  | add a b iha ihb =>
    intro f r s he hf hr hs h
    obtain ⟨operators, operands⟩ := operator_eq_of_append_eq he hf h
    cases f with
    | add c d =>
      have parts := operands _ rfl
      simp only [operandText, List.append_assoc, List.cons_append, List.nil_append] at parts
      obtain ⟨rfl, rfl, rests⟩ := iha.two_parts ihb he hf parts
      exact ⟨rfl, rests⟩
    | _ => simp [operator?] at operators
  | le a b iha ihb =>
    intro f r s he hf hr hs h
    obtain ⟨operators, operands⟩ := operator_eq_of_append_eq he hf h
    cases f with
    | le c d =>
      have parts := operands _ rfl
      simp only [operandText, List.append_assoc, List.cons_append, List.nil_append] at parts
      obtain ⟨rfl, rfl, rests⟩ := iha.two_parts ihb he hf parts
      exact ⟨rfl, rests⟩
    | _ => simp [operator?] at operators
  | pair a b iha ihb =>
    intro f r s he hf hr hs h
    obtain ⟨operators, operands⟩ := operator_eq_of_append_eq he hf h
    cases f with
    | pair c d =>
      have parts := operands _ rfl
      simp only [operandText, List.append_assoc, List.cons_append, List.nil_append] at parts
      obtain ⟨rfl, rfl, rests⟩ := iha.two_parts ihb he hf parts
      exact ⟨rfl, rests⟩
    | _ => simp [operator?] at operators
  | letIn x a b iha ihb =>
    intro f r s he hf hr hs h
    obtain ⟨operators, operands⟩ := operator_eq_of_append_eq he hf h
    cases f with
    | letIn y c d =>
      obtain ⟨nameX, ha, hb⟩ := he
      obtain ⟨nameY, hc, hd⟩ := hf
      have parts := operands _ rfl
      simp only [operandText, List.append_assoc, List.cons_append, List.nil_append,
        List.cons.injEq, true_and] at parts
      obtain ⟨names, bound⟩ := nameX.lacks.append_inj nameY.lacks (startsIn_cons (by decide) _)
        (startsIn_cons (by decide) _) parts
      obtain ⟨rfl, body⟩ := iha.part ha hc (by decide) (List.cons.inj bound).2
      simp only [List.cons.injEq, true_and] at body
      obtain ⟨rfl, rests⟩ := ihb.part hb hd (by decide) body
      rw [String.toList_inj.1 names]
      exact ⟨rfl, rests⟩
    | _ => simp [operator?] at operators
  | ite a b c iha ihb ihc =>
    intro f r s he hf hr hs h
    obtain ⟨operators, operands⟩ := operator_eq_of_append_eq he hf h
    cases f with
    | ite a' b' c' =>
      have parts := operands _ rfl
      simp only [operandText, List.append_assoc, List.cons_append, List.nil_append] at parts
      obtain ⟨rfl, branches⟩ := iha.part he.1 hf.1 (by decide) parts
      obtain ⟨rfl, rfl, rests⟩ := ihb.two_parts ihc he.2 hf.2 branches
      exact ⟨rfl, rests⟩
    | _ => simp [operator?] at operators
  | head a iha =>
    intro f r s he hf hr hs h
    obtain ⟨operators, operands⟩ := operator_eq_of_append_eq he hf h
    cases f with
    | head c =>
      have parts := operands _ rfl
      simp only [operandText, List.append_assoc, List.cons_append, List.nil_append] at parts
      obtain ⟨rfl, rests⟩ := iha.part (c := c) he hf (by decide) parts
      exact ⟨rfl, rests⟩
    | _ => simp [operator?] at operators
  | tail a iha =>
    intro f r s he hf hr hs h
    obtain ⟨operators, operands⟩ := operator_eq_of_append_eq he hf h
    cases f with
    | tail c =>
      have parts := operands _ rfl
      simp only [operandText, List.append_assoc, List.cons_append, List.nil_append] at parts
      obtain ⟨rfl, rests⟩ := iha.part (c := c) he hf (by decide) parts
      exact ⟨rfl, rests⟩
    | _ => simp [operator?] at operators

end Expr

/-! ## Generated expressions -/

namespace Chance

open Generator

theorem isNaN_of_mem_numberPool : ∀ n ∈ numberPool, n.isNaN = false := by
  decide

/-- The names and numbers of a generated expression are invented, in scope or from the pool. -/
theorem Generated.all {d k l : Nat} {scope : List Name} {e : Expr} {name : Name → Prop}
    {number : Number → Prop} (h : Generated d scope k e l)
    (pooled : ∀ n ∈ numberPool, number n) (invented : ∀ k x, Invented k x → name x)
    (known : ∀ x ∈ scope, name x) : e.All name number := by
  induction h with
  | num inPool => exact pooled _ inPool
  | bool => trivial
  | known inScope => exact known _ inScope
  | unknown fresh => exact invented _ _ fresh
  | add _ _ ihl ihr | le _ _ ihl ihr | pair _ _ ihl ihr => exact ⟨ihl known, ihr known⟩
  | letIn fresh _ _ ihBound ihBody =>
    refine ⟨invented _ _ fresh, ihBound known, ihBody fun y member => ?_⟩
    rcases List.mem_append.1 member with member | member
    · exact known y member
    · rw [List.mem_singleton.1 member]
      exact invented _ _ fresh
  | ite _ _ _ iht ihy ihn => exact ⟨iht known, ihy known, ihn known⟩
  | head _ ih | tail _ ih => exact ih known

theorem Generated.legible {d k l : Nat} {e : Expr} (h : Generated d [] k e l) : e.Legible :=
  h.all isNaN_of_mem_numberPool (fun _ _ => Invented.nameForm) nofun

end Chance

open Chance (Source LawfulSource Generator Keystream)

/-- The text of an expression identifies it among those with names like invented ones and without
NaNs. Whatever is drawn, generated expressions are such, and a disagreement tells their texts. -/
theorem Expr.text_identifies :
    (∀ e f : Expr, e.Legible → f.Legible → e.text = f.text → e = f) ∧
    (∀ {σ : Type} [Source σ] [LawfulSource σ] (g : Generator σ) (maxDepth : Nat),
      (Generator.generate maxDepth [] g).1.Legible) ∧
    ∀ (e : Expr) (d : Trial.Disagreement), Trial.check e = .error d → d.expr = e.text := by
  refine ⟨fun e f he hf same => ?_, fun g maxDepth => ?_,
    fun _ _ => Trial.expr_eq_of_check_eq_error⟩
  · have texts : e.text.toList ++ [] = f.text.toList ++ [] := by rw [same]
    exact (e.readable f [] [] he hf startsIn_nil startsIn_nil texts).1
  · exact (Chance.generates_generate maxDepth [] g).legible

/-- A generated binding, found by its text. -/
theorem Expr.text_identifies_binding :
    let e := (Generator.generate 2 [] (Generator.new (Keystream.ofSeed 26))).1
    e.text = "(let ([b0 y1]) (if -1 a2 b0))" ∧
      e = .letIn "b0" (.var "y1") (.ite (.num ⟨0xbff0000000000000⟩) (.var "a2") (.var "b0")) := by
  intro e
  have text : e.text = "(let ([b0 y1]) (if -1 a2 b0))" := by decide +kernel
  obtain ⟨identifies, generated, -⟩ := Expr.text_identifies
  refine ⟨text, identifies e _ (generated _ 2) ?_ (text.trans ?_)⟩
  · have b0 : Chance.Invented 0 "b0" := ⟨"b", by decide, by decide +kernel⟩
    have y1 : Chance.Invented 1 "y1" := ⟨"y", by decide, by decide +kernel⟩
    have a2 : Chance.Invented 2 "a2" := ⟨"a", by decide, by decide +kernel⟩
    exact ⟨b0.nameForm, y1.nameForm, rfl, a2.nameForm, b0.nameForm⟩
  · decide +kernel

end Twofold
