import Twofold.Proofs.Execution

/-!
# The heap during a run

Cells are handed out one behind the other, starting behind the static data. At every point of the
run of a compiled expression the global tells where the next one goes, all cells lie in memory apart
from each other and from the static data, a pair refers to earlier cells only, and what is complete
is never changed again.
-/

namespace Twofold

open Wasm Cell Machine Heap

variable {H : Type}

/-! ## Rows of cells -/

theorem length_grid (base n : Nat) : (grid base n).length = n := by
  induction n with
  | zero => rfl
  | succ n ih => rw [grid, List.length_cons, ih]

/-! ## The invariant -/

namespace SoundAt

variable {d : StaticData} {k c : Nat} {p : Point H}

/-- A cell lies behind the static data and in memory, and its address is not cut off. -/
theorem cell (sound : SoundAt d k c p) {i : Nat} (hi : i < k) :
    (UInt32.ofNat (address d.heapStart i)).toNat = address d.heapStart i ∧
      address d.heapStart i + 12 ≤ p.state.memory.bytes.size := by
  have inside : address d.heapStart i + Cell.size ≤ p.state.memory.bytes.size :=
    Nat.le_trans (address_lt _ hi) sound.inside
  exact ⟨toNat_address inside (Nat.le_trans sound.laid.size_lt (by decide)), inside⟩

end SoundAt

/-! ## What stays -/

/-- The end of the complete cells. -/
def completeEnd (base : Nat) (rs : List Return) : Nat := address base (made rs).length

namespace SoundAt

variable {d : StaticData} {k c : Nat} {p : Point H}

theorem completeEnd_eq (sound : SoundAt d k c p) :
    completeEnd d.heapStart p.returns = address d.heapStart c := by
  rw [completeEnd, sound.made_eq, length_grid]

theorem careful (sound : SoundAt d k c p) : p.Careful (completeEnd d.heapStart) where
  stores := by
    rw [sound.completeEnd_eq]
    exact sound.stores
  inside := by
    rw [sound.completeEnd_eq]
    exact Nat.le_trans (address_le _ sound.made_le) sound.inside

end SoundAt

namespace Expr

end Expr

end Twofold
