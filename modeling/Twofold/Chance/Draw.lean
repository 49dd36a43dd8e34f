import Twofold.Chance.Keystream

/-!
# Draws

What the generation of expressions asks of a source of chance, and how a keystream answers: a number
below a bound is the high half of a product, and is drawn again when the low half shows that it
would be favoured.
-/

namespace Twofold.Chance

/-- A source of chance. -/
class Source (σ : Type) where
  /-- A number below a bound, from one word. -/
  below : (bound : Nat) → σ → Nat × σ
  /-- A number below a bound, from two words. -/
  wideBelow : (bound : Nat) → σ → Nat × σ
  /-- A fair choice. -/
  coin : σ → Bool × σ
  /-- A choice that holds once in ten times. -/
  onceInTen : σ → Bool × σ

/-- A source whose numbers keep below their bounds. -/
class LawfulSource (σ : Type) [Source σ] : Prop where
  below_lt : ∀ (bound : Nat) (s : σ), 0 < bound → (Source.below bound s).1 < bound
  wideBelow_lt : ∀ (bound : Nat) (s : σ), 0 < bound → (Source.wideBelow bound s).1 < bound

namespace Keystream

/-- How often a number is drawn again. Each time the chance is below one half. -/
def patience : Nat := 1 <<< 20

/-- The largest low half that is accepted, for words of the given width. -/
def zone (width bound : Nat) : Nat := bound <<< (width - 1 - bound.log2) - 1

/-- Draws words of the given width until one gives a number below the bound that is accepted. -/
def drawBelow (width : Nat) (draw : Keystream → Nat × Keystream) (bound : Nat) :
    (left : Nat) → Keystream → Nat × Keystream
  | 0, s => (0, s)
  | left + 1, s =>
    let (v, s) := draw s
    if v * bound % 1 <<< width ≤ zone width bound then ((v * bound) >>> width, s)
    else drawBelow width draw bound left s

/-- A word as a number. -/
def word (s : Keystream) : Nat × Keystream :=
  let (w, s) := s.next
  (w.toNat, s)

/-- Two words as a number. -/
def wideWord (s : Keystream) : Nat × Keystream :=
  let (w, s) := s.next64
  (w.toNat, s)

/-- A tenth of all pairs of words, as near as a binary64 number comes to it. -/
def tenth : Nat := 1844674407370955264

instance : Source Keystream where
  below bound := drawBelow 32 word bound patience
  wideBelow bound := drawBelow 64 wideWord bound patience
  coin s :=
    let (w, s) := s.next
    (decide (1 <<< 31 ≤ w.toNat), s)
  onceInTen s :=
    let (w, s) := s.next64
    (decide (w.toNat < tenth), s)

/-- A number that is drawn keeps below its bound: a word of the given width is below `1 <<< width`,
so the high half of its product with the bound is below the bound. -/
theorem drawBelow_lt {width bound : Nat} {draw : Keystream → Nat × Keystream} (hb : 0 < bound)
    (hd : ∀ s, (draw s).1 < 1 <<< width) (left : Nat) (s : Keystream) :
    (drawBelow width draw bound left s).1 < bound := by
  induction left generalizing s with
  | zero => exact hb
  | succ left ih =>
    simp only [drawBelow]
    split
    · have small := Nat.mul_lt_mul_of_pos_right (hd s) hb
      rw [Nat.one_shiftLeft] at small
      rw [Nat.shiftRight_eq_div_pow]
      exact Nat.div_lt_of_lt_mul small
    · exact ih _

instance : LawfulSource Keystream where
  below_lt _ s hb := drawBelow_lt hb (fun s => s.next.1.toNat_lt) patience s
  wideBelow_lt _ s hb := drawBelow_lt hb (fun s => s.next64.1.toNat_lt) patience s

end Keystream

end Twofold.Chance
