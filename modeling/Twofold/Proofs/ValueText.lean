import Twofold.Expr.Text
import Twofold.Proofs.NumberText

/-!
# Texts of values

The text of a value can be told from what follows it, provided that this starts with a delimiter:
the point between the components of a pair stands between blanks, the point of a number does not.
So the text of a value determines the value, also in the middle of a longer text.
-/

namespace Twofold

/-! ## Where a text ends -/

/-- Nothing, or a text that starts with one of the marks. -/
def StartsIn (marks rest : List Char) : Prop := ∀ c, rest.head? = some c → c ∈ marks

/-- A text without any of the marks. -/
def Lacks (marks text : List Char) : Prop := ∀ c ∈ text, c ∉ marks

section Marks

variable {marks a b r s : List Char} {c : Char}

theorem startsIn_nil : StartsIn marks [] := nofun

theorem startsIn_cons (h : c ∈ marks) (rest : List Char) : StartsIn marks (c :: rest) := by
  intro first eq
  cases eq
  exact h

/-- A text without marks ends at the first mark. -/
theorem Lacks.append_inj (ha : Lacks marks a) (hb : Lacks marks b) (hr : StartsIn marks r)
    (hs : StartsIn marks s) (h : a ++ r = b ++ s) : a = b ∧ r = s := by
  induction a generalizing b with
  | nil =>
    cases b with
    | nil => exact ⟨rfl, h⟩
    | cons c b =>
      have ends : c ∈ marks := hr c (by rw [← List.nil_append r, h]; rfl)
      exact absurd ends (hb c List.mem_cons_self)
  | cons c a ih =>
    cases b with
    | nil =>
      have ends : c ∈ marks := hs c (by rw [← List.nil_append s, ← h]; rfl)
      exact absurd ends (ha c List.mem_cons_self)
    | cons d b =>
      obtain ⟨rfl, rest⟩ := List.cons.inj h
      obtain ⟨rfl, rfl⟩ := ih (fun x mem => ha x (List.mem_cons_of_mem _ mem))
        (fun x mem => hb x (List.mem_cons_of_mem _ mem)) rest
      exact ⟨rfl, rfl⟩

/-- A text without marks is not confused with one that starts with a mark. -/
theorem Lacks.append_ne_cons (ha : Lacks marks a) (nonempty : a ≠ []) (h : c ∈ marks)
    (r s : List Char) : a ++ r ≠ c :: s := by
  intro same
  obtain ⟨d, a, rfl⟩ := List.exists_cons_of_ne_nil nonempty
  obtain ⟨rfl, -⟩ := List.cons.inj same
  exact ha _ List.mem_cons_self h

end Marks

/-- The characters around values. -/
def delimiters : List Char := [' ', '(', ')', ';']

/-- What can follow a value: nothing, or a text that starts with a delimiter. -/
def Delimited (rest : List Char) : Prop := StartsIn delimiters rest

/-- A text without delimiters. -/
def Unbroken (text : List Char) : Prop := Lacks delimiters text

theorem delimited_nil : Delimited [] := startsIn_nil

theorem delimited_cons {c : Char} (h : c ∈ delimiters) (rest : List Char) :
    Delimited (c :: rest) :=
  startsIn_cons h rest

/-! ## Leaves -/

theorem Number.lacks_text {marks : List Char} (n : Number)
    (apart : ∀ c ∈ marks, ¬ (c.isDigit ∨ c ∈ ['N', 'a', '-', '.', 'i', 'n', 'f'])) :
    Lacks marks n.text.toList := by
  intro c mem mark
  exact apart c mark (mem_text mem)

theorem unbroken_number (n : Number) : Unbroken n.text.toList :=
  n.lacks_text (by simp [delimiters, Char.isDigit])

theorem toList_boolText (b : Bool) :
    (boolText b).toList = if b then ['t', 'r', 'u', 'e'] else ['f', 'a', 'l', 's', 'e'] := by
  cases b <;> rfl

theorem unbroken_boolText (b : Bool) : Unbroken (boolText b).toList := by
  cases b <;> simp [Unbroken, Lacks, toList_boolText, delimiters]

theorem Number.text_ne_boolText (n : Number) (b : Bool) : n.text.toList ≠ (boolText b).toList := by
  intro same
  have letter : 'e' ∈ n.text.toList := by
    rw [same, toList_boolText]
    cases b <;> decide
  exact absurd (Number.mem_text letter) (by decide)

theorem boolText_injective : Function.Injective boolText := by
  unfold Function.Injective
  decide

theorem boolText_ne_nil (b : Bool) : (boolText b).toList ≠ [] := by
  cases b <;> simp [toList_boolText]

/-- A leaf is not confused with a pair. -/
theorem Unbroken.append_ne_open {a : List Char} (ha : Unbroken a) (nonempty : a ≠ [])
    (r s : List Char) : a ++ r ≠ '(' :: s :=
  Lacks.append_ne_cons ha nonempty (by decide) r s

/-! ## Values -/

namespace Value

/-- A value, any NaN in it being replaced by that of arithmetic. -/
def canonical : Value → Value
  | num n => num n.canonical
  | bool b => bool b
  | pair a b => pair a.canonical b.canonical

theorem toList_text_pair (a b : Value) :
    (pair a b).text.toList =
      '(' :: (a.text.toList ++ ' ' :: '.' :: ' ' :: (b.text.toList ++ [')'])) := by
  simp [text]

theorem text_ne_nil (v : Value) : v.text.toList ≠ [] := by
  cases v with
  | num n => exact n.text_ne_nil
  | bool b => cases b <;> simp [text, boolText]
  | pair a b => simp [toList_text_pair]

/-- The text of a value determines the value and where it ends. -/
theorem canonical_eq_of_append_eq {v w : Value} {r s : List Char} (hr : Delimited r)
    (hs : Delimited s) (h : v.text.toList ++ r = w.text.toList ++ s) :
    v.canonical = w.canonical ∧ r = s := by
  induction v generalizing w r s with
  | num m =>
    cases w with
    | num n =>
      obtain ⟨texts, rests⟩ := (unbroken_number m).append_inj (unbroken_number n) hr hs h
      exact ⟨congrArg num (Number.canonical_eq_of_text_eq (String.toList_inj.1 texts)), rests⟩
    | bool b =>
      obtain ⟨texts, -⟩ := (unbroken_number m).append_inj (unbroken_boolText b) hr hs h
      exact absurd texts (m.text_ne_boolText b)
    | pair c d =>
      rw [toList_text_pair] at h
      exact absurd h ((unbroken_number m).append_ne_open m.text_ne_nil _ _)
  | bool a =>
    cases w with
    | num n =>
      obtain ⟨texts, -⟩ := (unbroken_boolText a).append_inj (unbroken_number n) hr hs h
      exact absurd texts.symm (n.text_ne_boolText a)
    | bool b =>
      obtain ⟨texts, rests⟩ := (unbroken_boolText a).append_inj (unbroken_boolText b) hr hs h
      exact ⟨congrArg bool (boolText_injective (String.toList_inj.1 texts)), rests⟩
    | pair c d =>
      rw [toList_text_pair] at h
      exact absurd h ((unbroken_boolText a).append_ne_open (text_ne_nil (bool a)) _ _)
  | pair a b iha ihb =>
    cases w with
    | num n =>
      rw [toList_text_pair] at h
      exact absurd h.symm ((unbroken_number n).append_ne_open n.text_ne_nil _ _)
    | bool c =>
      rw [toList_text_pair] at h
      exact absurd h.symm ((unbroken_boolText c).append_ne_open (text_ne_nil (bool c)) _ _)
    | pair c d =>
      simp only [toList_text_pair, List.cons_append, List.append_assoc, List.cons.injEq,
        true_and, List.nil_append] at h
      obtain ⟨firsts, behind⟩ := iha (delimited_cons (by decide) _) (delimited_cons (by decide) _) h
      simp only [List.cons.injEq, true_and] at behind
      obtain ⟨seconds, close⟩ :=
        ihb (delimited_cons (by decide) _) (delimited_cons (by decide) _) behind
      exact ⟨by rw [canonical, canonical, firsts, seconds], (List.cons.inj close).2⟩

theorem getLast?_text_ne (v : Value) : v.text.toList.getLast? ≠ some 'r' := by
  cases v with
  | num n =>
    intro last
    exact absurd (Number.mem_text (List.mem_of_getLast? last)) (by decide)
  | bool b => cases b <;> simp [text, boolText]
  | pair a b =>
    rw [text, String.toList_append, List.getLast?_append]
    simp

end Value

end Twofold
