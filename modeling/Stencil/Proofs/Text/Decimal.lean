import Mathlib.Data.Nat.Digits.Defs
import Stencil.Text.WordChar

/-! Numbers as they are written.

A number is written in digits, from which its value is read back (`digitsValue_ofNat`), and a number
that is not greater is not written longer (`length_ofNat_le`). -/
namespace Stencil.Text

theorem isAsciiDigit_of_mem_ofNat {n : Nat} {c : Char} (h : c ∈ ofNat n) :
    isAsciiDigit c = true := Nat.isDigit_of_mem_toDigits (by decide) (by decide) h

theorem ofNat_ne_nil (n : Nat) : ofNat n ≠ [] := Nat.toDigits_ne_nil

/-- A number that has been written has its value. -/
theorem digitsValue_ofNat (n : Nat) : digitsValue (ofNat n) = n := by
  have hstep : (fun (value : Nat) (c : Char) => value * 10 + (c.toNat - '0'.toNat)) =
      fun value c => 10 * value + (c.toNat - '0'.toNat) := by
    funext value c
    rw [Nat.mul_comm]
  unfold digitsValue
  rw [hstep]
  exact Nat.ofDigitChars_ten_toDigits

/-- A field that is wide enough for a number is wide enough for every smaller one. -/
theorem length_ofNat_le {m n : Nat} (h : m ≤ n) : (ofNat m).length ≤ (ofNat n).length := by
  have hbase : 1 < 10 := by decide
  have hn := (Nat.length_toDigits_le_iff hbase (List.length_pos_iff.2 (ofNat_ne_nil n))).1 le_rfl
  exact (Nat.length_toDigits_le_iff hbase (List.length_pos_iff.2 (ofNat_ne_nil n))).2
    (h.trans_lt hn)

theorem not_mem_ofNat {c : Char} (h : isAsciiDigit c = false) (n : Nat) : c ∉ ofNat n :=
  fun hc => Bool.false_ne_true (h.symm.trans (isAsciiDigit_of_mem_ofNat hc))

end Stencil.Text
