import Twofold.Proofs.Agreement
import Twofold.Proofs.CompileFailures
import Twofold.Proofs.ValueText

/-!
# Texts of failures

A name can be any text, so the text for an unbound name can start like any other text; but it ends
with an `r`, and no other text of a failure does. The remaining texts are told apart by how they
start, and the values in them end where the next part starts. So a text identifies the failure,
whichever evaluation it comes from, and failures of the evaluator itself are never taken for
failures of the expression.
-/

namespace Twofold

open Wasm

/-! ## How texts end -/

/-- The text has an end, which is not that of the text for an unbound name. -/
def EndsApart (s : String) : Prop := s.toList ≠ [] ∧ s.toList.getLast? ≠ some 'r'

instance (s : String) : Decidable (EndsApart s) := inferInstanceAs (Decidable (_ ∧ _))

theorem EndsApart.append {t : String} (h : EndsApart t) (s : String) : EndsApart (s ++ t) := by
  obtain ⟨nonempty, last⟩ := h
  unfold EndsApart
  rw [String.toList_append, List.getLast?_append_of_ne_nil _ nonempty]
  exact ⟨List.append_ne_nil_of_right_ne_nil _ nonempty, last⟩

theorem not_endsApart_unbound (x : Name) : ¬ EndsApart (Wording.unbound x) := by
  rintro ⟨-, last⟩
  apply last
  rw [Wording.unbound, String.toList_append, List.getLast?_append]
  rfl

theorem Value.endsApart_text (v : Value) : EndsApart v.text :=
  ⟨v.text_ne_nil, v.getLast?_text_ne⟩

theorem endsApart_toDigits {b : Nat} (large : 1 < b) (small : b ≤ 16) (n : Nat) :
    EndsApart (String.ofList (Nat.toDigits b n)) := by
  have digits : ∀ k < 16, Nat.digitChar k ≠ 'r' := by decide
  unfold EndsApart
  rw [String.toList_ofList]
  refine ⟨Nat.toDigits_ne_nil, ?_⟩
  rw [Nat.toDigits_eq_if large]
  split
  next less =>
    intro last
    exact digits n (by omega) (Option.some.inj last)
  next more =>
    have digit : n % b < b := Nat.mod_lt n (by omega)
    rw [List.getLast?_concat]
    intro last
    exact digits _ (by omega) (Option.some.inj last)

namespace Heap

theorem endsApart_hexText (n : Nat) : EndsApart (hexText n) :=
  (endsApart_toDigits (by decide) (by decide) n).append _

theorem endsApart_intText (n : Int) : EndsApart (intText n) :=
  (endsApart_toDigits (by decide) (by decide) n.natAbs).append _

theorem ReadError.endsApart_message (r : ReadError) : EndsApart r.message := by
  cases r with
  | missingMemory => decide
  | outOfBounds ptr len size => exact EndsApart.append (by decide) _
  | unknownTag tag ptr => exact (endsApart_hexText ptr).append _
  | forwardReference ptr component => exact (endsApart_hexText component).append _
  | invalidUtf8 ptr => exact EndsApart.append (by decide) _
  | missingMark text => exact EndsApart.append (by decide) _
  | unknownPrimitive code => exact (endsApart_intText code).append _
  | missingOperand p => exact EndsApart.append (by decide) _

end Heap

theorem CompileError.Raised.endsApart_message {c : CompileError} (h : c.Raised) :
    EndsApart c.message := by
  cases h with
  | tooManyLocals => exact EndsApart.append (by decide) _
  | dataTooLarge x => exact (EndsApart.append (by decide) _).append _
  | unexpectedLocals => exact EndsApart.append (by decide) _

theorem Wasm.Trap.endsApart_message (t : Trap) : EndsApart t.message := by
  cases t <;> decide

/-! ## Operands of the wrong kind -/

theorem Primitive.expected_of_numeric {p : Primitive} (h : p.isNumeric = true) :
    p.expected = expected .add := by
  rw [expected, h]
  rfl

theorem Primitive.expected_of_not_numeric {p : Primitive} (h : p.isNumeric = false) :
    p.expected = expected .head := by
  rw [expected, h]
  rfl

/-- The first characters of the operators are different. -/
theorem Primitive.eq_of_head?_name_eq {p q : Primitive}
    (h : p.name.toList.head? = q.name.toList.head?) : p = q := by
  cases p <;> cases q <;> simp [name] at h ⊢

theorem Primitive.head?_name_ne (p : Primitive) : p.name.toList.head? ≠ some 'i' := by
  cases p <;> simp [name]

/-- A text about an operand starts with the operator. -/
theorem Wording.head?_contractViolation (p : Primitive) (expected : String) (v : Value)
    (r : List Char) :
    ((contractViolation p.name expected v).toList ++ r).head? = p.name.toList.head? := by
  unfold contractViolation
  simp only [String.toList_append, List.append_assoc, List.head?_append]
  cases p <;> rfl

theorem Wording.ne_contractViolation {text : List Char} (h : text.head? = some 'i') (p : Primitive)
    (v : Value) (r : List Char) : text ≠ (contractViolation p.name p.expected v).toList ++ r := by
  rintro rfl
  rw [head?_contractViolation] at h
  exact p.head?_name_ne h

/-- The text about an operand determines the operator, the operand, and what follows. -/
theorem Wording.contractViolation_inj {p q : Primitive} {v w : Value} {r s : List Char}
    (hr : Delimited r) (hs : Delimited s)
    (h : (contractViolation p.name p.expected v).toList ++ r =
      (contractViolation q.name q.expected w).toList ++ s) :
    p = q ∧ v.canonical = w.canonical ∧ r = s := by
  have operators : p = q := by
    have initials := congrArg List.head? h
    rw [head?_contractViolation, head?_contractViolation] at initials
    exact Primitive.eq_of_head?_name_eq initials
  subst operators
  have operands : v.text.toList ++ r = w.text.toList ++ s := by
    simpa only [contractViolation, String.toList_append, List.append_assoc,
      List.append_cancel_left_eq] using h
  obtain ⟨values, rests⟩ := Value.canonical_eq_of_append_eq hr hs operands
  exact ⟨rfl, values, rests⟩

theorem Wording.toList_operandPosition (i : Nat) (v : Value) :
    (operandPosition i v).toList =
      "; argument position: ".toList ++
        ((ordinal i).toList ++ ("; other argument: ".toList ++ v.text.toList)) := by
  unfold operandPosition
  simp only [String.toList_append, List.append_assoc]

theorem Wording.delimited_operandPosition (i : Nat) (v : Value) :
    Delimited (operandPosition i v).toList := by
  rw [toList_operandPosition]
  exact delimited_cons (by decide) _

theorem Wording.operandPosition_inj {i j : Nat} {v w : Value} (hi : i = 1 ∨ i = 2)
    (hj : j = 1 ∨ j = 2)
    (h : (operandPosition i v).toList = (operandPosition j w).toList) :
    i = j ∧ v.canonical = w.canonical := by
  rw [toList_operandPosition, toList_operandPosition, List.append_cancel_left_eq] at h
  have first : (ordinal 1).toList = ['1', 's', 't'] := by decide
  have second : (ordinal 2).toList = ['2', 'n', 'd'] := by decide
  have positions : i = j := by
    rcases hi with rfl | rfl <;> rcases hj with rfl | rfl <;> simp [first, second] at h ⊢
  subst positions
  have others : v.text.toList ++ [] = w.text.toList ++ [] := by
    simpa only [List.append_cancel_left_eq, List.append_nil] using h
  exact ⟨rfl, (Value.canonical_eq_of_append_eq delimited_nil delimited_nil others).1⟩

/-! ## Failures of an expression -/

namespace EvalError

/-- The failure names an operator and a position that there are, and is not internal. -/
def Regular : EvalError → Prop
  | unbound _ | nonBooleanTest => True
  | typeMismatch operator position _ _ =>
    (∃ p : Primitive, p.isNumeric = true ∧ operator = p.name) ∧ (position = 1 ∨ position = 2)
  | notAPair operator _ => ∃ p : Primitive, p.isNumeric = false ∧ operator = p.name
  | internal _ => False

theorem Truthful.regular {err : EvalError} (h : err.Truthful) : err.Regular := by
  cases err with
  | unbound | nonBooleanTest => trivial
  | typeMismatch operator position given other =>
    obtain ⟨operators, -, positions⟩ := h
    refine ⟨?_, positions.imp_right And.left⟩
    rcases operators with rfl | rfl
    · exact ⟨.add, rfl, rfl⟩
    · exact ⟨.le, rfl, rfl⟩
  | notAPair operator given =>
    rcases h.1 with rfl | rfl
    · exact ⟨.head, rfl, rfl⟩
    · exact ⟨.tail, rfl, rfl⟩
  | internal what => exact h

/-- A failure, any NaN in its operands being replaced by that of arithmetic. -/
def canonical : EvalError → EvalError
  | typeMismatch operator position given other =>
    typeMismatch operator position given.canonical other.canonical
  | notAPair operator given => notAPair operator given.canonical
  | err => err

theorem kind_canonical (err : EvalError) : err.canonical.kind = err.kind := by
  cases err <;> rfl

/-- The text of a failure is that for an unbound name, that for a test, or one about an operand. -/
inductive Worded : EvalError → List Char → Prop where
  | unbound (x : Name) : Worded (.unbound x) (Wording.unbound x).toList
  | nonBooleanTest : Worded .nonBooleanTest Wording.nonBooleanTest.toList
  | typeMismatch {p : Primitive} {position : Nat} (given other : Value)
      (numeric : p.isNumeric = true) (known : position = 1 ∨ position = 2) :
      Worded (.typeMismatch p.name position given other)
        ((Wording.contractViolation p.name p.expected given).toList ++
          (Wording.operandPosition position other).toList)
  | notAPair {p : Primitive} (given : Value) (pairs : p.isNumeric = false) :
      Worded (.notAPair p.name given)
        ((Wording.contractViolation p.name p.expected given).toList ++ [])

theorem Regular.worded {err : EvalError} (h : err.Regular) : err.Worded err.message.toList := by
  cases err with
  | unbound x => exact .unbound x
  | nonBooleanTest => exact .nonBooleanTest
  | typeMismatch operator position given other =>
    obtain ⟨⟨p, numeric, rfl⟩, known⟩ := h
    rw [message, ← Primitive.expected_of_numeric numeric, String.toList_append]
    exact .typeMismatch given other numeric known
  | notAPair operator given =>
    obtain ⟨p, pairs, rfl⟩ := h
    rw [message, ← Primitive.expected_of_not_numeric pairs, ← List.append_nil (String.toList _)]
    exact .notAPair given pairs
  | internal what => exact absurd h id

/-- Only the text for an unbound name ends like one. -/
theorem Regular.eq_unbound_or_endsApart {err : EvalError} (h : err.Regular) :
    (∃ x, err = .unbound x) ∨ EndsApart err.message := by
  cases err with
  | unbound x => exact Or.inl ⟨x, rfl⟩
  | nonBooleanTest => exact Or.inr (by decide)
  | typeMismatch operator position given other =>
    have position : EndsApart (Wording.operandPosition position other) :=
      other.endsApart_text.append _
    exact Or.inr (position.append _)
  | notAPair operator given => exact Or.inr (given.endsApart_text.append _)
  | internal what => exact absurd h id

/-- Texts that are not about names determine the failure by the way they go on. -/
theorem Worded.canonical_eq {a b : EvalError} {t u : List Char} (ha : a.Worded t) (hb : b.Worded u)
    (boundA : ∀ x, a ≠ .unbound x) (boundB : ∀ x, b ≠ .unbound x) (h : t = u) :
    a.canonical = b.canonical := by
  cases ha with
  | unbound x => exact absurd rfl (boundA x)
  | nonBooleanTest =>
    cases hb with
    | unbound y => exact absurd rfl (boundB y)
    | nonBooleanTest => rfl
    | typeMismatch | notAPair => exact absurd h (Wording.ne_contractViolation rfl _ _ _)
  | typeMismatch given other numeric known =>
    cases hb with
    | unbound y => exact absurd rfl (boundB y)
    | nonBooleanTest => exact absurd h.symm (Wording.ne_contractViolation rfl _ _ _)
    | typeMismatch given' other' numeric' known' =>
      obtain ⟨rfl, givens, rests⟩ := Wording.contractViolation_inj
        (Wording.delimited_operandPosition _ _) (Wording.delimited_operandPosition _ _) h
      obtain ⟨rfl, others⟩ := Wording.operandPosition_inj known known' rests
      rw [canonical, canonical, givens, others]
    | notAPair given' pairs' =>
      obtain ⟨rfl, -, -⟩ := Wording.contractViolation_inj
        (Wording.delimited_operandPosition _ _) delimited_nil h
      rw [numeric] at pairs'
      cases pairs'
  | notAPair given pairs =>
    cases hb with
    | unbound y => exact absurd rfl (boundB y)
    | nonBooleanTest => exact absurd h.symm (Wording.ne_contractViolation rfl _ _ _)
    | typeMismatch given' other' numeric' known' =>
      obtain ⟨rfl, -, -⟩ := Wording.contractViolation_inj delimited_nil
        (Wording.delimited_operandPosition _ _) h
      rw [pairs] at numeric'
      cases numeric'
    | notAPair given' pairs' =>
      obtain ⟨rfl, givens, -⟩ := Wording.contractViolation_inj delimited_nil delimited_nil h
      rw [canonical, canonical, givens]

/-- The text of a failure determines the failure, up to the patterns of NaNs. -/
theorem Regular.canonical_eq {a b : EvalError} (ha : a.Regular) (hb : b.Regular)
    (h : a.message = b.message) : a.canonical = b.canonical := by
  rcases ha.eq_unbound_or_endsApart with ⟨x, rfl⟩ | apartA
  · rcases hb.eq_unbound_or_endsApart with ⟨y, rfl⟩ | apartB
    · have names : x = y := (String.append_left_inj _).1 h
      rw [names]
    · rw [← h] at apartB
      exact absurd apartB (not_endsApart_unbound x)
  · have apartB : EndsApart b.message := h ▸ apartA
    refine ha.worded.canonical_eq hb.worded ?_ ?_ (congrArg String.toList h)
    · rintro x rfl
      exact not_endsApart_unbound x apartA
    · rintro y rfl
      exact not_endsApart_unbound y apartB

/-- An internal failure is taken for one of the expression only if a name imitates it, to the
end. -/
theorem Worded.internal_ne {err : EvalError} {text : List Char} (h : err.Worded text)
    {what : String} (apart : EndsApart what) : (Wording.internal what).toList ≠ text := by
  have opened : (Wording.internal what).toList = "internal error: ".toList ++ what.toList :=
    String.toList_append
  have initial : (Wording.internal what).toList.head? = some 'i' := by
    rw [opened]
    rfl
  cases h with
  | unbound x =>
    intro same
    have apart : EndsApart (Wording.internal what) := apart.append _
    rw [String.toList_inj.1 same] at apart
    exact not_endsApart_unbound x apart
  | nonBooleanTest =>
    intro same
    have second : some 'n' = some 'f' :=
      congrArg (fun text => text.tail.head?) (opened.symm.trans same)
    exact absurd second (by decide)
  | typeMismatch | notAPair => exact Wording.ne_contractViolation initial _ _ _

theorem Regular.internal_ne_message {err : EvalError} (h : err.Regular) {what : String}
    (apart : EndsApart what) : Wording.internal what ≠ err.message := by
  intro same
  exact h.worded.internal_ne apart (congrArg String.toList same)

end EvalError

/-! ## Failures of either evaluation -/

namespace Fault

/-- The faults that compiled expressions can report. -/
def Reportable : Fault → Prop
  | unbound _ => True
  | nonBooleanTest message => message = Wording.nonBooleanTest
  | contractViolation p position _ (some _) =>
    p.isNumeric = true ∧ (position = 1 ∨ position = 2)
  | contractViolation p _ _ none => p.isNumeric = false

/-- What a fault is about, as a failure of evaluation. -/
def payload : Fault → EvalError
  | unbound x => .unbound x
  | nonBooleanTest _ => .nonBooleanTest
  | contractViolation p position given (some other) => .typeMismatch p.name position given other
  | contractViolation p _ given none => .notAPair p.name given

/-- A fault has the kind and the words of the failure that it is about. -/
theorem Reportable.payload_spec {f : Fault} (h : f.Reportable) :
    f.payload.Regular ∧ f.payload.kind = f.kind ∧ f.payload.message = f.message := by
  cases f with
  | unbound x => exact ⟨trivial, rfl, rfl⟩
  | nonBooleanTest message => exact ⟨trivial, rfl, Eq.symm h⟩
  | contractViolation p position given other =>
    cases other with
    | some other =>
      obtain ⟨numeric, known⟩ := h
      refine ⟨⟨⟨p, numeric, rfl⟩, known⟩, ?_, ?_⟩
      · rw [kind, numeric]
        rfl
      · rw [message, Primitive.expected_of_numeric numeric]
        rfl
    | none =>
      have pairs : p.isNumeric = false := h
      refine ⟨⟨p, pairs, rfl⟩, ?_, ?_⟩
      · rw [kind, pairs]
        rfl
      · rw [message, Primitive.expected_of_not_numeric pairs, String.append_empty]
        rfl

end Fault

/-- A failure of either evaluation. -/
inductive Failure where
  | evaluated (err : EvalError)
  | reported (fault : Fault)

namespace Failure

/-- The text of a failure. -/
def message : Failure → String
  | evaluated err => err.message
  | reported fault => fault.message

/-- The kind of a failure. -/
def kind : Failure → FailureKind
  | evaluated err => err.kind
  | reported fault => fault.kind

/-- What a failure is about: the name, or the operator and the operands with their positions. -/
def payload : Failure → EvalError
  | evaluated err => err
  | reported fault => fault.payload

/-- Some expression fails to evaluate in this way, or it is a fault that can be reported. -/
def Possible : Failure → Prop
  | evaluated err => ∃ e : Expr, e.eval = .error err
  | reported fault => fault.Reportable

theorem Possible.payload_spec {a : Failure} (h : a.Possible) :
    a.payload.Regular ∧ a.payload.kind = a.kind ∧ a.payload.message = a.message := by
  cases a with
  | evaluated err =>
    obtain ⟨e, failed⟩ := h
    exact ⟨(Expr.truthful_of_eval failed).regular, rfl, rfl⟩
  | reported fault => exact Fault.Reportable.payload_spec h

/-- Failures with one text are of one kind and about the same. -/
theorem Possible.eq_of_message_eq {a b : Failure} (ha : a.Possible) (hb : b.Possible)
    (h : a.message = b.message) :
    a.kind = b.kind ∧ a.payload.canonical = b.payload.canonical := by
  obtain ⟨regularA, kindA, messageA⟩ := ha.payload_spec
  obtain ⟨regularB, kindB, messageB⟩ := hb.payload_spec
  have same : a.payload.canonical = b.payload.canonical := by
    apply regularA.canonical_eq regularB
    rw [messageA, messageB, h]
  refine ⟨?_, same⟩
  rw [← kindA, ← kindB, ← EvalError.kind_canonical, same, EvalError.kind_canonical]

end Failure

/-! ## Agreement about failures -/

namespace Reference

/-- An internal failure whose text ends apart. -/
def Internal (failure : ReferenceError) : Prop :=
  ∃ what, failure.message = Wording.internal what ∧ EndsApart what

theorem internal_compile {c : CompileError} (h : c.Raised) : Internal (.compile c) :=
  ⟨_, rfl, h.endsApart_message⟩

theorem internal_read (r : Heap.ReadError) : Internal (.read r) := ⟨_, rfl, r.endsApart_message⟩

theorem fault_or_internal_of_result {stopped : Option Trap} {s : Machine Reported}
    {failure : ReferenceError} (h : result stopped s = .error failure) :
    (∃ fault, failure = .fault fault) ∨ Internal failure := by
  unfold result at h
  split at h
  next fault _ =>
    cases h
    exact Or.inl ⟨fault, rfl⟩
  next r _ =>
    cases h
    exact Or.inr (internal_read r)
  next =>
    refine Or.inr ?_
    cases stopped with
    | some t =>
      cases h
      exact ⟨_, rfl, t.endsApart_message.append _⟩
    | none =>
      split at h
      next trapped => cases trapped
      next ptr _ =>
        split at h
        · cases h
        next r _ =>
          cases h
          exact internal_read r
      next =>
        cases h
        exact ⟨_, rfl, Trap.invalid.endsApart_message.append _⟩

/-- A reference evaluation fails with a fault or internally. -/
theorem fault_or_internal {e : Expr} {failure : ReferenceError} (h : eval e = .error failure) :
    (∃ fault, failure = .fault fault) ∨ Internal failure := by
  unfold eval at h
  split at h
  next c refused =>
    cases h
    exact Or.inr (internal_compile (Expr.raised_of_compile refused))
  next m _ =>
    unfold execute at h
    split at h
    · exact fault_or_internal_of_result h
    · exact fault_or_internal_of_result h

/-- A fault is of the kind of the failure of evaluation by substitution. -/
theorem kind_of_fault {e : Expr} {fault : Fault} {err : EvalError}
    (h : eval e = .error (.fault fault)) (failed : e.eval = .error err) :
    fault.kind = err.kind := by
  rcases e.compile_cases with ⟨within, compiled⟩ | ⟨-, what, refused⟩
  · simp only [eval, compiled] at h
    rcases Expr.execute_cases within with
      ⟨v, -, run⟩ | ⟨err', fault', failed', run, kind, -⟩ | ⟨-, run⟩
    · rw [run] at h
      cases h
    · rw [failed] at failed'
      rw [run] at h
      cases failed'
      cases h
      exact kind
    · rw [run] at h
      cases h
  · rw [eval, refused] at h
    cases h

end Reference

namespace Trial

/-- An agreement about a failure is one about its kind. -/
theorem kind_eq_of_check {e : Expr} {a : Agreement} (agreed : check e = .ok a)
    (fails : a.outcome.isError = true) :
    ∃ failure, Reference.eval e = .error failure ∧ a.kind = some failure.kind := by
  obtain ⟨same, rfl⟩ := check_eq_ok_iff.1 agreed
  cases failed : e.eval with
  | ok v =>
    rw [failed] at fails
    cases fails
  | error err =>
    rw [failed] at same
    cases reference : Reference.eval e with
    | ok v =>
      rw [reference] at same
      cases same
    | error failure =>
      rw [reference] at same
      have texts : failure.message = err.message := Outcome.error.inj same
      refine ⟨failure, rfl, ?_⟩
      rcases Reference.fault_or_internal reference with ⟨fault, rfl⟩ | ⟨what, words, apart⟩
      · have kinds := Reference.kind_of_fault reference failed
        exact congrArg some kinds.symm
      · have regular := (Expr.truthful_of_eval failed).regular
        exact absurd (words.symm.trans texts) (regular.internal_ne_message apart)

end Trial

/-- The text of a failure identifies it: failures with one text, from whichever evaluation, are of
one kind and about the same, up to the patterns of NaNs, which are all written `NaN`. No failure of
the code generator or of reading the memory has the text of a failure of an expression. So an
agreement on the text of a failure is an agreement on its kind. -/
theorem failure_text_identifies :
    (∀ a b : Failure, a.Possible → b.Possible → a.message = b.message →
      a.kind = b.kind ∧ a.payload.canonical = b.payload.canonical) ∧
    (∀ (e : Expr) (err : EvalError), e.eval = .error err →
      (∀ c : CompileError, c.Raised → (ReferenceError.compile c).message ≠ err.message) ∧
        ∀ r : Heap.ReadError, (ReferenceError.read r).message ≠ err.message) ∧
    ∀ (e : Expr) (a : Trial.Agreement), Trial.check e = .ok a → a.outcome.isError = true →
      ∃ failure, Reference.eval e = .error failure ∧ a.kind = some failure.kind := by
  refine ⟨fun a b ha hb same => ha.eq_of_message_eq hb same, fun e err failed => ?_,
    fun e a agreed fails => Trial.kind_eq_of_check agreed fails⟩
  have regular := (Expr.truthful_of_eval failed).regular
  constructor
  · intro c raised
    exact regular.internal_ne_message raised.endsApart_message
  · intro r
    exact regular.internal_ne_message r.endsApart_message

/-- An operand that both evaluations complain about, a name that starts like a failure at a limit,
and an agreement about a free name. -/
theorem failure_text_identifies_operand :
    ((Failure.evaluated (.typeMismatch "+" 2 (.bool true) (.num ⟨0⟩))).kind =
        (Failure.reported (.contractViolation .add 2 (.bool true) (some (.num ⟨0⟩)))).kind) ∧
      ((ReferenceError.compile .tooManyLocals).message ≠
        (EvalError.unbound "internal error: limit exceeded: more than 50000 locals").message) ∧
      ∃ failure, Reference.eval (.var "x") = .error failure ∧
        some FailureKind.freeVariable = some failure.kind := by
  have unbound (x : Name) : (Expr.var x).eval = .error (.unbound x) := by
    rw [Expr.eval_eq_evalIn]
    rfl
  have possible : (Failure.evaluated (.typeMismatch "+" 2 (.bool true) (.num ⟨0⟩))).Possible := by
    refine ⟨.add (.num ⟨0⟩) (.bool true), ?_⟩
    rw [Expr.eval_eq_evalIn]
    rfl
  have reportable :
      (Failure.reported (.contractViolation .add 2 (.bool true) (some (.num ⟨0⟩)))).Possible :=
    ⟨rfl, Or.inr rfl⟩
  have agreed : Trial.check (.var "x") =
      .ok ⟨.error (Wording.unbound "x"), some .freeVariable⟩ := by
    have within : (Expr.var "x").WithinLimits := ⟨by decide, by decide⟩
    refine Trial.check_eq_ok_iff.2 ⟨Expr.outcome_reference_eq within (by decide), ?_⟩
    rw [unbound]
    rfl
  obtain ⟨texts, internals, agreements⟩ := failure_text_identifies
  exact ⟨(texts _ _ possible reportable rfl).1, (internals _ _ (unbound _)).1 _ .tooManyLocals,
    agreements _ _ agreed rfl⟩

end Twofold
