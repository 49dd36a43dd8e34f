import Twofold.Proofs.Emission

/-!
# The limits of compilation

On its way through an expression, emission asks for a local at every binding and for a symbol at
every free occurrence. These are the demands of the expression, in the order in which they are made;
a symbol is paid for once, however often it is asked for. Emission meets them as long as all demands
so far are within the limits, and the first demand that is not decides about the failure.
-/

namespace Twofold

open Wasm Emitter

/-- What emission asks for: a local for a binding, or the symbol of a free name. -/
inductive Demand where
  | slot
  | symbol (x : Name)
deriving DecidableEq, Repr

/-- The demands of an expression below bindings of the names in `bound`. The local of a binding is
asked for between its bound expression and its body; operands and branches ask from left to right.
-/
def Expr.demands : Expr → (bound : List Name) → List Demand
  | num _, _ | bool _, _ => []
  | var x, bound => if x ∈ bound then [] else [.symbol x]
  | add a b, bound | le a b, bound | pair a b, bound => a.demands bound ++ b.demands bound
  | letIn x a b, bound => a.demands bound ++ .slot :: b.demands (x :: bound)
  | ite a b c, bound => a.demands bound ++ b.demands bound ++ c.demands bound
  | head a, bound | tail a, bound => a.demands bound

namespace Demand

/-- The words for a demand that is not met. -/
def refusal : Demand → String
  | slot => "more than 50000 locals"
  | symbol x => "data segment too large to intern `" ++ x ++ "`"

/-- The names whose symbols are asked for. -/
def names (ds : List Demand) : List Name :=
  ds.filterMap fun
    | slot => none
    | symbol x => some x

@[simp] theorem names_nil : names [] = [] := rfl

@[simp] theorem names_append (ds ds' : List Demand) : names (ds ++ ds') = names ds ++ names ds' :=
  List.filterMap_append

@[simp] theorem names_slot (ds : List Demand) : names (slot :: ds) = names ds := rfl

@[simp] theorem names_symbol (x : Name) (ds : List Demand) :
    names (symbol x :: ds) = x :: names ds := rfl

/-- The demands are within the limits: the locals in number, and the text about a test that is not a
boolean in bytes, together with every name that is asked for and its mark. -/
def Affordable (ds : List Demand) : Prop :=
  ds.count slot ≤ 50000 ∧ 37 + ∑ x ∈ (names ds).toFinset, (4 + x.utf8ByteSize) ≤ 8388608

/-- Static data takes the same room as the demands for its symbols. -/
theorem size_extend_names (ds : List Demand) :
    (StaticData.new.extend (names ds)).size =
      37 + ∑ x ∈ (names ds).toFinset, (4 + x.utf8ByteSize) := by
  have distinct : (StaticData.new.extend (names ds)).symbols.Nodup :=
    StaticData.nodup_symbols_extend _ List.nodup_nil
  have same : (StaticData.new.extend (names ds)).symbols.toFinset = (names ds).toFinset := by
    ext x
    simp [StaticData.mem_symbols_extend, StaticData.new]
  rw [StaticData.size_eq, ← same, List.sum_toFinset _ distinct]
  rfl

theorem affordable_iff {ds : List Demand} :
    Affordable ds ↔ ds.count slot ≤ maxLocals ∧
      (StaticData.new.extend (names ds)).size ≤ StaticData.limit := by
  rw [size_extend_names]
  rfl

/-- Demands that come first are within the limits if all are. -/
theorem Affordable.of_prefix {ds ds' : List Demand} (h : Affordable ds') (first : ds <+: ds') :
    Affordable ds := by
  obtain ⟨rest, rfl⟩ := first
  rw [affordable_iff, List.count_append, names_append, StaticData.extend_append] at h
  have grown := StaticData.size_le_extend (StaticData.new.extend (names ds)) (names rest)
  exact affordable_iff.2 ⟨by omega, by omega⟩

theorem affordable_slot_iff {ds : List Demand} (h : Affordable ds) :
    Affordable (ds ++ [slot]) ↔ ds.count slot < maxLocals := by
  rw [affordable_iff] at h ⊢
  simp [h.2]

theorem affordable_symbol_iff {ds : List Demand} {x : Name} (h : Affordable ds) :
    Affordable (ds ++ [symbol x]) ↔
      x ∈ (StaticData.new.extend (names ds)).symbols ∨
        (StaticData.new.extend (names ds)).size + StaticData.symbolSize x ≤ StaticData.limit := by
  rw [affordable_iff] at h ⊢
  have count : (ds ++ [symbol x]).count slot = ds.count slot := by simp
  rw [count, names_append, StaticData.extend_append, names_symbol, names_nil,
    StaticData.extend_cons, StaticData.extend_nil, StaticData.size_add_le_iff h.2]
  exact and_iff_right h.1

/-- When the demands in `met` have been met, `d` is the first of the demands `ds` that is not within
the limits as well. -/
def FirstRefused (met ds : List Demand) (d : Demand) : Prop :=
  ∃ before after, ds = before ++ d :: after ∧ Affordable (met ++ before) ∧
    ¬ Affordable (met ++ before ++ [d])

namespace FirstRefused

variable {met ds : List Demand} {d : Demand}

theorem single (h : Affordable met) (beyond : ¬ Affordable (met ++ [d])) :
    FirstRefused met [d] d :=
  ⟨[], [], rfl, by rwa [List.append_nil], by rwa [List.append_nil]⟩

theorem append_right (h : FirstRefused met ds d) (ds' : List Demand) :
    FirstRefused met (ds ++ ds') d := by
  obtain ⟨before, after, rfl, within, beyond⟩ := h
  exact ⟨before, after ++ ds', by simp, within, beyond⟩

theorem append_left {ds' : List Demand} (h : FirstRefused (met ++ ds) ds' d) :
    FirstRefused met (ds ++ ds') d := by
  obtain ⟨before, after, rfl, within, beyond⟩ := h
  rw [List.append_assoc met ds before] at within beyond
  exact ⟨ds ++ before, after, by simp, within, beyond⟩

end FirstRefused

end Demand

open Demand

namespace Emitter

/-- The emitter has met these demands, and no others. -/
structure Met (s : Emitter) (ds : List Demand) : Prop where
  locals : s.nextLocal = ds.count .slot
  data : s.data = StaticData.new.extend (names ds)
  affordable : Affordable ds

/-- Below bindings of the names in `bound`, a step of emission meets its demands, or fails at the
first one that is refused. -/
def Serves {α : Type} (bound : List Name) (ds : List Demand) (step : Emit α) : Prop :=
  ∀ (met : List Demand) (s : Emitter), s.Met met → s.scope.map Prod.fst = bound →
    (∃ r t, step s = .ok r t ∧ t.Met (met ++ ds) ∧ t.scope = s.scope) ∨
      ∃ d t, FirstRefused met ds d ∧ step s = .error (.limitExceeded d.refusal) t

namespace Serves

variable {α β : Type} {bound : List Name} {ds ds' : List Demand}

theorem bind {a : Emit α} {f : α → Emit β} (ha : Serves bound ds a)
    (hf : ∀ r, Serves bound ds' (f r)) : Serves bound (ds ++ ds') (a >>= f) := by
  intro met s hs scope
  have opened : (a >>= f) s = EStateM.bind a f s := rfl
  rw [opened, EStateM.bind]
  rcases ha met s hs scope with ⟨r, t, ran, ht, same⟩ | ⟨d, t, refused, failed⟩
  · rw [ran]
    rcases hf r (met ++ ds) t ht (same ▸ scope) with
      ⟨r', u, ran', hu, same'⟩ | ⟨d, u, refused, failed⟩
    · rw [List.append_assoc] at hu
      exact Or.inl ⟨r', u, ran', hu, same'.trans same⟩
    · exact Or.inr ⟨d, u, refused.append_left, failed⟩
  · rw [failed]
    exact Or.inr ⟨d, t, refused.append_right ds', rfl⟩

theorem instr (i : Instr) : Serves bound [] (Emitter.instr i) := by
  intro met s hs scope
  rw [List.append_nil]
  exact Or.inl ⟨(), { s with code := s.code.push i }, rfl, ⟨hs.locals, hs.data, hs.affordable⟩, rfl⟩

/-- Code without demands of its own may follow. -/
theorem andInstr {a : Emit Unit} (ha : Serves bound ds a) (i : Instr) :
    Serves bound ds (do a; Emitter.instr i) := by
  have both := ha.bind fun _ => instr i
  rwa [List.append_nil] at both

theorem declare (type : ValType) : Serves bound [.slot] (Emitter.declare type) := by
  intro met s hs scope
  rw [Emitter.declare]
  by_cases full : maxLocals ≤ s.nextLocal
  · have beyond : ¬ Affordable (met ++ [.slot]) := by
      rw [affordable_slot_iff hs.affordable, ← hs.locals]
      omega
    rw [if_pos full]
    exact Or.inr ⟨.slot, s, .single hs.affordable beyond, rfl⟩
  · have within : Affordable (met ++ [.slot]) := by
      rw [affordable_slot_iff hs.affordable, ← hs.locals]
      omega
    rw [if_neg full]
    refine Or.inl ⟨_, _, rfl, ⟨?_, ?_, within⟩, rfl⟩
    · simp [hs.locals]
    · simp [hs.data]

theorem intern (x : Name) : Serves bound [.symbol x] (Emitter.intern x) := by
  intro met s hs scope
  rw [Emitter.intern, StaticData.intern_eq, hs.data]
  by_cases within : Affordable (met ++ [.symbol x])
  · rw [if_pos ((affordable_symbol_iff hs.affordable).1 within)]
    refine Or.inl ⟨_, _, rfl, ⟨?_, ?_, within⟩, rfl⟩
    · simp [hs.locals]
    · simp [StaticData.extend_cons]
  · rw [if_neg (mt (affordable_symbol_iff hs.affordable).2 within)]
    exact Or.inr ⟨.symbol x, s, .single hs.affordable within, rfl⟩

/-- A name that is in scope for a step is not in scope any more behind it. -/
theorem inScope {x : Name} {body : Emit Unit} (i : Nat) (h : Serves (x :: bound) ds body) :
    Serves bound ds (Emitter.inScope x i body) := by
  intro met s hs scope
  have entered : (s.enter x i).Met met := ⟨hs.locals, hs.data, hs.affordable⟩
  have inside : (s.enter x i).scope.map Prod.fst = x :: bound := by simp [enter, scope]
  rw [Emitter.inScope]
  rcases h met (s.enter x i) entered inside with ⟨r, t, ran, ht, same⟩ | ⟨d, t, refused, failed⟩
  · rw [ran]
    refine Or.inl ⟨(), t.leave x, rfl, ⟨ht.locals, ht.data, ht.affordable⟩, ?_⟩
    simp [leave, same, enter]
  · rw [failed]
    exact Or.inr ⟨d, t.leave x, refused, rfl⟩

theorem occurrence (x : Name) :
    Serves bound (if x ∈ bound then [] else [.symbol x]) (Emitter.occurrence x) := by
  intro met s hs scope
  cases found : s.scope.lookup x with
  | some i =>
    have inside : x ∈ bound := scope ▸ mem_of_lookup_eq_some found
    rw [if_pos inside, occurrence_of_lookup_eq_some found]
    exact instr _ met s hs scope
  | none =>
    have free : x ∉ bound := scope ▸ not_mem_of_lookup_eq_none found
    rw [if_neg free, occurrence_of_lookup_eq_none found]
    exact ((intern x).bind fun loc => (instr _).bind fun _ => (instr _).bind fun _ =>
      (instr _).bind fun _ => instr _) met s hs scope

end Serves

end Emitter

namespace Expr

/-- Emission meets the demands of an expression, or fails at the first one that is refused. -/
theorem serves_emit (e : Expr) (bound : List Name) : Serves bound (e.demands bound) e.emit := by
  induction e generalizing bound with
  | num n => exact (Serves.instr _).andInstr _
  | bool b => exact (Serves.instr _).andInstr _
  | var x => exact .occurrence x
  | add a b iha ihb | le a b iha ihb | pair a b iha ihb =>
    exact (iha bound).bind fun _ => (ihb bound).andInstr _
  | letIn x a b iha ihb =>
    exact (iha bound).bind fun _ => (Serves.declare _).bind fun i => (Serves.instr _).bind fun _ =>
      (ihb (x :: bound)).inScope i
  | ite a b c iha ihb ihc =>
    rw [demands, List.append_assoc]
    exact (iha bound).bind fun _ => (Serves.instr _).bind fun _ => (Serves.instr _).bind fun _ =>
      (ihb bound).bind fun _ => (Serves.instr _).bind fun _ => (ihc bound).andInstr _
  | head a iha | tail a iha => exact (iha bound).andInstr _

/-! ## Whole expressions -/

/-- One local is asked for at every binding. -/
theorem count_slot_demands (e : Expr) (bound : List Name) :
    (e.demands bound).count .slot = e.lets := by
  induction e generalizing bound with
  | num n => rfl
  | bool b => rfl
  | var x => by_cases h : x ∈ bound <;> simp [demands, h, lets]
  | add a b iha ihb | le a b iha ihb | pair a b iha ihb => simp [demands, lets, iha, ihb]
  | letIn x a b iha ihb =>
    simp [demands, lets, iha, ihb]
    omega
  | ite a b c iha ihb ihc => simp [demands, lets, iha, ihb, ihc, Nat.add_assoc]
  | head a iha | tail a iha => simp [demands, lets, iha]

/-- A symbol is asked for at every free occurrence. -/
theorem names_demands (e : Expr) (bound : List Name) :
    names (e.demands bound) = e.freeOccurrences bound := by
  induction e generalizing bound with
  | num n => rfl
  | bool b => rfl
  | var x => by_cases h : x ∈ bound <;> simp [demands, h, freeOccurrences]
  | add a b iha ihb | le a b iha ihb | pair a b iha ihb | letIn x a b iha ihb =>
    simp [demands, freeOccurrences, iha, ihb]
  | ite a b c iha ihb ihc => simp [demands, freeOccurrences, iha, ihb, ihc]
  | head a iha | tail a iha => simp [demands, freeOccurrences, iha]

/-- All demands of an expression are within the limits if the expression is. -/
theorem affordable_demands_iff (e : Expr) : Affordable (e.demands []) ↔ e.WithinLimits := by
  rw [affordable_iff, count_slot_demands, names_demands, size_extend_freeOccurrences]
  rfl

/-- Emission of an expression beyond the limits fails at the first demand that is refused. -/
theorem assemble_eq_refusal {e : Expr} (beyond : ¬ e.WithinLimits) :
    ∃ d, FirstRefused [] (e.demands []) d ∧ e.assemble = .error (.limitExceeded d.refusal) := by
  have start : (Emitter.new 0).Met [] := ⟨rfl, rfl, by decide, by decide⟩
  rcases e.serves_emit [] [] (.new 0) start rfl with ⟨-, t, -, ht, -⟩ | ⟨d, t, refused, failed⟩
  · rw [List.nil_append] at ht
    exact absurd (e.affordable_demands_iff.1 ht.affordable) beyond
  · refine ⟨d, refused, ?_⟩
    rw [assemble, failed]

/-- The code of an expression is emitted if and only if its bindings and the symbols of its free
names are within the limits. Otherwise emission stops at the first demand with which one of the
limits is crossed, and the failure has the words for this demand. -/
theorem assemble_limits (e : Expr) :
    ((∃ m, e.assemble = .ok m) ↔ e.lets ≤ 50000 ∧ e.dataSize ≤ 8388608) ∧
      (¬ (e.lets ≤ 50000 ∧ e.dataSize ≤ 8388608) →
        ∃ before d after, e.demands [] = before ++ d :: after ∧
          (∀ ds, ds <+: before → Affordable ds) ∧ ¬ Affordable (before ++ [d]) ∧
          e.assemble = .error (.limitExceeded d.refusal)) := by
  have limits : e.WithinLimits ↔ e.lets ≤ 50000 ∧ e.dataSize ≤ 8388608 := Iff.rfl
  rw [← limits]
  constructor
  · rcases assemble_cases e with ⟨within, built⟩ | ⟨beyond, what, failed⟩
    · exact ⟨fun _ => within, fun _ => ⟨_, built⟩⟩
    · refine ⟨fun ⟨m, built⟩ => ?_, fun within => absurd within beyond⟩
      rw [failed] at built
      cases built
  · intro beyond
    obtain ⟨d, ⟨before, after, split, met, refused⟩, failed⟩ := assemble_eq_refusal beyond
    exact ⟨before, d, after, split, fun _ => Affordable.of_prefix met, refused, failed⟩

/-- The longest name that a free variable can have, and one more byte; as many bindings inside each
other as there are locals, and one more. -/
theorem assemble_limits_boundaries :
    let named (n : Nat) := var (String.ofList (List.replicate n 'a'))
    let nested (n : Nat) := (letIn "x" (bool true))^[n] (bool true)
    (∃ m, (named 8388567).assemble = .ok m) ∧
      (named 8388568).assemble = .error (.limitExceeded ("data segment too large to intern `" ++
        String.ofList (List.replicate 8388568 'a') ++ "`")) ∧
      (∃ m, (nested 50000).assemble = .ok m) ∧
      (nested 50001).assemble = .error (.limitExceeded "more than 50000 locals") := by
  intro named nested
  have bytes (n : Nat) : (String.ofList (List.replicate n 'a')).utf8ByteSize = n := by
    rw [String.utf8ByteSize_ofList]
    induction n with
    | zero => rfl
    | succ n ih =>
      rw [List.replicate_succ, String.utf8Len_cons, ih]
      rfl
  have symbols (n : Nat) :
      (named n).demands [] = [.symbol (String.ofList (List.replicate n 'a'))] := rfl
  have slots (n : Nat) : ∀ bound, (nested n).demands bound = List.replicate n .slot := by
    induction n with
    | zero => exact fun _ => rfl
    | succ n ih =>
      intro bound
      have outermost : nested (n + 1) = letIn "x" (bool true) (nested n) :=
        Function.iterate_succ_apply' _ _ _
      rw [outermost, demands, ih, List.replicate_succ]
      rfl
  have short (n : Nat) : (named n).WithinLimits ↔ n ≤ 8388567 := by
    rw [← affordable_demands_iff, symbols]
    simp [Affordable, bytes]
    omega
  have shallow (n : Nat) : (nested n).WithinLimits ↔ n ≤ 50000 := by
    rw [← affordable_demands_iff, slots]
    simp [Affordable, names]
  -- All demands of these expressions are alike, so the refused one is any of them.
  have fits {e : Expr} (h : e.WithinLimits) : ∃ m, e.assemble = .ok m := (assemble_limits e).1.2 h
  have fails {e : Expr} (d : Demand) (h : ¬ e.WithinLimits) (alike : ∀ d' ∈ e.demands [], d' = d) :
      e.assemble = .error (.limitExceeded d.refusal) := by
    obtain ⟨before, d', after, split, -, -, failed⟩ := (assemble_limits e).2 h
    have same : d' = d := alike d' (by rw [split]; exact List.mem_append_cons_self)
    rw [failed, same]
  refine ⟨fits ((short 8388567).2 (by decide)),
    fails (.symbol _) (mt (short 8388568).1 (by decide)) ?_,
    fits ((shallow 50000).2 (by decide)), fails .slot (mt (shallow 50001).1 (by decide)) ?_⟩
  · rw [symbols]
    exact fun d => List.mem_singleton.1
  · rw [slots]
    exact fun d => List.eq_of_mem_replicate

end Expr

end Twofold
