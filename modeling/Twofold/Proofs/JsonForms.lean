import Twofold.Proofs.ExprText
import Twofold.Proofs.JsonText

/-!
# JSON forms

Every node of an expression, a value or an outcome is an object whose only key names its kind, so
the form of one with finite numbers determines it; and its written form determines the form,
whatever characters the names and messages hold.
-/

namespace Twofold

namespace Json

theorem finite_ofNumber (n : Number) : (ofNumber n).Finite := by
  unfold ofNumber
  split
  next finite => exact .number finite
  next => exact .null

/-- Infinities and NaNs have no form of their own, finite numbers do. -/
theorem eq_of_ofNumber_eq {m n : Number} (hm : m.isFinite = true) (hn : n.isFinite = true)
    (h : ofNumber m = ofNumber n) : m = n := by
  rw [ofNumber, ofNumber, if_pos hm, if_pos hn] at h
  exact Json.number.inj h

theorem finite_node {content : Json} (kind : String) (h : content.Finite) :
    (node kind content).Finite := by
  refine .object fun m member => ?_
  rw [List.mem_singleton.1 member]
  exact h

theorem finite_two {a b : Json} (ha : a.Finite) (hb : b.Finite) : (array [a, b]).Finite := by
  refine .array fun item member => ?_
  simp only [List.mem_cons, List.not_mem_nil, or_false] at member
  rcases member with rfl | rfl
  · exact ha
  · exact hb

theorem finite_three {a b c : Json} (x y z : String) (ha : a.Finite) (hb : b.Finite)
    (hc : c.Finite) : (object [(x, a), (y, b), (z, c)]).Finite := by
  refine .object fun m member => ?_
  simp only [List.mem_cons, List.not_mem_nil, or_false] at member
  rcases member with rfl | rfl | rfl
  · exact ha
  · exact hb
  · exact hc

theorem node_inj {kind kind' : String} {content content' : Json} :
    node kind content = node kind' content' ↔ kind = kind' ∧ content = content' := by
  simp [node]

theorem array_two_inj {a b c d : Json} : array [a, b] = array [c, d] ↔ a = c ∧ b = d := by
  simp

theorem object_three_inj {a b c a' b' c' : Json} {x y z : String} :
    object [(x, a), (y, b), (z, c)] = object [(x, a'), (y, b'), (z, c')] ↔
      a = a' ∧ b = b' ∧ c = c' := by
  simp

end Json

/-! ## Expressions -/

namespace Expr

/-- All numbers of an expression are finite. -/
def Finite (e : Expr) : Prop := e.All (fun _ => True) fun n => n.isFinite = true

/-- The form of an expression has no other numbers than finite ones. -/
theorem finite_toJson (e : Expr) : e.toJson.Finite := by
  induction e with
  | num n => exact Json.finite_node _ (Json.finite_ofNumber n)
  | bool b => exact Json.finite_node _ (.bool b)
  | var x => exact Json.finite_node _ (.string x)
  | add a b iha ihb | le a b iha ihb | pair a b iha ihb =>
    exact Json.finite_node _ (Json.finite_two iha ihb)
  | letIn x a b iha ihb =>
    exact Json.finite_node _ (Json.finite_three _ _ _ (.string x) iha ihb)
  | ite a b c iha ihb ihc => exact Json.finite_node _ (Json.finite_three _ _ _ iha ihb ihc)
  | head a iha | tail a iha => exact Json.finite_node _ iha

/-- The kind of a node, and the forms of its parts, determine an expression. -/
theorem eq_of_toJson_eq {e f : Expr} (he : e.Finite) (hf : f.Finite) (h : e.toJson = f.toJson) :
    e = f := by
  induction e generalizing f with
  | num m =>
    cases f with
    | num n =>
      obtain ⟨-, numbers⟩ := Json.node_inj.1 h
      rw [Json.eq_of_ofNumber_eq he hf numbers]
    | _ => exact absurd (Json.node_inj.1 h).1 (by decide)
  | bool a =>
    cases f with
    | bool b => rw [Json.bool.inj (Json.node_inj.1 h).2]
    | _ => exact absurd (Json.node_inj.1 h).1 (by decide)
  | var x =>
    cases f with
    | var y => rw [Json.string.inj (Json.node_inj.1 h).2]
    | _ => exact absurd (Json.node_inj.1 h).1 (by decide)
  | add a b iha ihb =>
    cases f with
    | add c d =>
      obtain ⟨firsts, seconds⟩ := Json.array_two_inj.1 (Json.node_inj.1 h).2
      rw [iha he.1 hf.1 firsts, ihb he.2 hf.2 seconds]
    | _ => exact absurd (Json.node_inj.1 h).1 (by decide)
  | le a b iha ihb =>
    cases f with
    | le c d =>
      obtain ⟨firsts, seconds⟩ := Json.array_two_inj.1 (Json.node_inj.1 h).2
      rw [iha he.1 hf.1 firsts, ihb he.2 hf.2 seconds]
    | _ => exact absurd (Json.node_inj.1 h).1 (by decide)
  | pair a b iha ihb =>
    cases f with
    | pair c d =>
      obtain ⟨firsts, seconds⟩ := Json.array_two_inj.1 (Json.node_inj.1 h).2
      rw [iha he.1 hf.1 firsts, ihb he.2 hf.2 seconds]
    | _ => exact absurd (Json.node_inj.1 h).1 (by decide)
  | letIn x a b iha ihb =>
    cases f with
    | letIn y c d =>
      obtain ⟨-, ha, hb⟩ := he
      obtain ⟨-, hc, hd⟩ := hf
      obtain ⟨names, bounds, bodies⟩ := Json.object_three_inj.1 (Json.node_inj.1 h).2
      rw [Json.string.inj names, iha ha hc bounds, ihb hb hd bodies]
    | _ => exact absurd (Json.node_inj.1 h).1 (by decide)
  | ite a b c iha ihb ihc =>
    cases f with
    | ite a' b' c' =>
      obtain ⟨ha, hb, hc⟩ := he
      obtain ⟨ha', hb', hc'⟩ := hf
      obtain ⟨tests, yeses, noes⟩ := Json.object_three_inj.1 (Json.node_inj.1 h).2
      rw [iha ha ha' tests, ihb hb hb' yeses, ihc hc hc' noes]
    | _ => exact absurd (Json.node_inj.1 h).1 (by decide)
  | head a iha =>
    cases f with
    | head c => rw [iha (f := c) he hf (Json.node_inj.1 h).2]
    | _ => exact absurd (Json.node_inj.1 h).1 (by decide)
  | tail a iha =>
    cases f with
    | tail c => rw [iha (f := c) he hf (Json.node_inj.1 h).2]
    | _ => exact absurd (Json.node_inj.1 h).1 (by decide)

end Expr

/-! ## Values, outcomes and disagreements -/

namespace Value

/-- All numbers of a value are finite. -/
def Finite : Value → Prop
  | num n => n.isFinite = true
  | bool _ => True
  | pair a b => a.Finite ∧ b.Finite

theorem finite_toJson (v : Value) : v.toJson.Finite := by
  induction v with
  | num n => exact Json.finite_node _ (Json.finite_ofNumber n)
  | bool b => exact Json.finite_node _ (.bool b)
  | pair a b iha ihb => exact Json.finite_node _ (Json.finite_two iha ihb)

theorem eq_of_toJson_eq {v w : Value} (hv : v.Finite) (hw : w.Finite) (h : v.toJson = w.toJson) :
    v = w := by
  induction v generalizing w with
  | num m =>
    cases w with
    | num n =>
      obtain ⟨-, numbers⟩ := Json.node_inj.1 h
      rw [Json.eq_of_ofNumber_eq hv hw numbers]
    | _ => exact absurd (Json.node_inj.1 h).1 (by decide)
  | bool a =>
    cases w with
    | bool b => rw [Json.bool.inj (Json.node_inj.1 h).2]
    | _ => exact absurd (Json.node_inj.1 h).1 (by decide)
  | pair a b iha ihb =>
    cases w with
    | pair c d =>
      obtain ⟨firsts, seconds⟩ := Json.array_two_inj.1 (Json.node_inj.1 h).2
      rw [iha hv.1 hw.1 firsts, ihb hv.2 hw.2 seconds]
    | _ => exact absurd (Json.node_inj.1 h).1 (by decide)

end Value

namespace Outcome

/-- All numbers of an outcome are finite. -/
def Finite : Outcome → Prop
  | value v => v.Finite
  | error _ => True

theorem finite_toJson (o : Outcome) : o.toJson.Finite := by
  cases o with
  | value v => exact Json.finite_node _ v.finite_toJson
  | error message => exact Json.finite_node _ (.string message)

theorem eq_of_toJson_eq {o p : Outcome} (ho : o.Finite) (hp : p.Finite)
    (h : o.toJson = p.toJson) : o = p := by
  cases o with
  | value v =>
    cases p with
    | value w => rw [Value.eq_of_toJson_eq ho hp (Json.node_inj.1 h).2]
    | error message => exact absurd (Json.node_inj.1 h).1 (by decide)
  | error message =>
    cases p with
    | value w => exact absurd (Json.node_inj.1 h).1 (by decide)
    | error message' => rw [Json.string.inj (Json.node_inj.1 h).2]

end Outcome

namespace Trial.Disagreement

/-- All numbers of the two outcomes are finite. -/
def Finite (d : Disagreement) : Prop := d.reference.Finite ∧ d.evaluator.Finite

theorem finite_toJson (d : Disagreement) : d.toJson.Finite :=
  Json.finite_three _ _ _ (.string d.expr) d.reference.finite_toJson d.evaluator.finite_toJson

theorem eq_of_toJson_eq {d d' : Disagreement} (hd : d.Finite) (hd' : d'.Finite)
    (h : d.toJson = d'.toJson) : d = d' := by
  obtain ⟨expr, reference, evaluator⟩ := d
  obtain ⟨expr', reference', evaluator'⟩ := d'
  obtain ⟨exprs, references, evaluators⟩ := Json.object_three_inj.1 h
  have texts : expr = expr' := Json.string.inj exprs
  have first : reference = reference' := Outcome.eq_of_toJson_eq hd.1 hd'.1 references
  have second : evaluator = evaluator' := Outcome.eq_of_toJson_eq hd.2 hd'.2 evaluators
  rw [texts, first, second]

end Trial.Disagreement

namespace Chance

theorem isFinite_of_mem_numberPool : ∀ n ∈ Generator.numberPool, n.isFinite = true := by
  decide

theorem Generated.finite {d k l : Nat} {e : Expr} (h : Generated d [] k e l) : e.Finite :=
  h.all isFinite_of_mem_numberPool (fun _ _ _ => trivial) nofun

end Chance

open Chance (Generator Keystream)

/-- The written forms lose nothing on finite numbers: the text without blanks identifies an
expression, whatever its names, and the text in lines identifies a disagreement. -/
theorem json_forms_identify :
    (∀ e f : Expr, e.Finite → f.Finite → e.toJson.compact = f.toJson.compact → e = f) ∧
    ∀ d d' : Trial.Disagreement, d.Finite → d'.Finite → d.toJson.indented = d'.toJson.indented →
      d = d' := by
  refine ⟨fun e f he hf same => ?_, fun d d' hd hd' same => ?_⟩
  · exact Expr.eq_of_toJson_eq he hf (Json.eq_of_compact_eq e.finite_toJson f.finite_toJson same)
  · exact Trial.Disagreement.eq_of_toJson_eq hd hd'
      (Json.eq_of_indented_eq d.finite_toJson d'.finite_toJson same)

/-- A generated expression and one written out, and the disagreements on them, with a decimal
fraction and with a message all of whose characters are escaped. -/
theorem json_forms_identify_seeded :
    let e := (Generator.generate 2 [] (Generator.new (Keystream.ofSeed 26))).1
    let o : Outcome := .value (.pair (.num ⟨0x3fb999999999999a⟩) (.bool true))
    let d : Trial.Disagreement := ⟨e.text, o, .error "\"\\\n\x01"⟩
    let d' : Trial.Disagreement := ⟨"(let ([b0 y1]) (if -1 a2 b0))", o, .error "\"\\\n\x01"⟩
    e = .letIn "b0" (.var "y1") (.ite (.num ⟨0xbff0000000000000⟩) (.var "a2") (.var "b0")) ∧
      d = d' := by
  intro e o d d'
  have numbers : e.Finite := (Chance.generates_generate 2 [] _).finite
  have decimal : o.Finite := ⟨rfl, trivial⟩
  refine ⟨json_forms_identify.1 e _ numbers ?_ ?_,
    json_forms_identify.2 d d' ⟨decimal, trivial⟩ ⟨decimal, trivial⟩ ?_⟩
  · exact ⟨trivial, trivial, rfl, trivial, trivial⟩
  · decide +kernel
  · decide +kernel

end Twofold
