import Stencil.Proofs.Lua.Machine
import Stencil.Proofs.Lua.Program.Basic
import Stencil.Lua.Evaluation

/-! Loops over integers.

A loop from one integer to another runs its body for each integer between them, in order. That is
so for all 64-bit integers: the number of rounds is computed with integers of any size. -/
namespace Stencil.Lua

variable {σ : Type} {world : σ} {m : Machine}

theorem integerLimit?_int (n : Int64) : integerLimit? (.int n) true = some n.toInt := by
  have hlow := n.le_toInt
  have hhigh := n.toInt_lt
  have hfloor : Number.Dyadic.floor ⟨n.toInt, 0⟩ = n.toInt := by
    rw [Number.Dyadic.floor, if_pos (Int.le_refl 0)]
    exact Int.mul_one n.toInt
  unfold integerLimit? Number.extended
  dsimp only
  rw [if_pos rfl, hfloor]
  congr 1
  omega

theorem roundCount_one (start limit : Int) :
    roundCount start limit 1 = (limit + 1 - start).toNat := by
  unfold roundCount
  rw [if_pos (by decide), Int.ediv_one]
  split
  · omega
  · omega

namespace Writes

/-- Rounds that only write, one after the other. -/
theorem countRounds {round : Value → Eval σ Control} {text : Int → Text} (n : Nat) (i : Int)
    (h : ∀ {m' t}, Extends m m' t → ∀ k < n,
      Writes world (round (.int (i + k))) m' .proceed (text (i + k))) :
    Writes world (countRounds round 1 n i) m .proceed
      (((List.range n).map fun (k : Nat) => i + k).flatMap text) := by
  induction n generalizing i m with
  | zero => exact pure _ _
  | succ n ih =>
    have hsplit : (((List.range (n + 1)).map fun (k : Nat) => i + k).flatMap text) =
        text i ++ ((List.range n).map fun (k : Nat) => i + 1 + k).flatMap text := by
      rw [List.range_succ_eq_map, List.map_cons, List.flatMap_cons, List.map_map]
      congr 1
      · simp
      · congr 1
        refine List.map_congr_left fun k _ => ?_
        show i + ((k + 1 : Nat) : Int) = _
        omega
    have hfirst : Writes world (round (.int i)) m .proceed (text i) := by
      have := h (.refl m) 0 (Nat.succ_pos n)
      rwa [Int.natCast_zero, Int.add_zero] at this
    rw [hsplit]
    unfold Lua.countRounds
    refine bind hfirst fun hm => ih (i + 1) fun hm' k hk => ?_
    have := h (hm.trans hm') (k + 1) (Nat.succ_lt_succ hk)
    rwa [show i + ((k + 1 : Nat) : Int) = i + 1 + k by omega] at this

/-- A loop from one integer to another, in steps of one. -/
theorem count {round : Value → Eval σ Control} {text : Int → Text} (start limit : Int64)
    (h : ∀ {m' t}, Extends m m' t → ∀ i, start.toInt ≤ i → i ≤ limit.toInt →
      Writes world (round (.int i)) m' .proceed (text i)) :
    Writes world (count (.number (.int start)) (.number (.int limit)) (.number (.int 1)) round) m
      .proceed ((Program.range start.toInt limit.toInt).flatMap text) := by
  unfold Lua.count
  dsimp only
  rw [if_neg (by decide)]
  refine silent (pure (Number.int limit) m) fun hm => ?_
  have hup : decide (0 < (1 : Int64).toInt) = true := by decide
  rw [hup, integerLimit?_int, show (1 : Int64).toInt = 1 from rfl]
  dsimp only
  rw [roundCount_one]
  exact countRounds _ _ fun hm' k hk => h (hm.trans hm') _ (by omega) (by omega)

end Writes
end Stencil.Lua
