import Stencil.Text.Basic

/-! Byte offsets in a text.

The character that starts at a byte offset is the one that so many bytes stand in front of
(`indexOfByte?_eq_some_iff`). -/
namespace Stencil.Text

variable {t before rest : Text} {offset i : Nat}

@[simp] theorem utf8Size_nil : utf8Size [] = 0 := rfl

@[simp] theorem utf8Size_cons (c : Char) (t : Text) :
    utf8Size (c :: t) = c.utf8Size + utf8Size t := rfl

@[simp] theorem utf8Size_append (t u : Text) : utf8Size (t ++ u) = utf8Size t + utf8Size u := by
  induction t with
  | nil => exact (Nat.zero_add _).symm
  | cons c cs ih => rw [List.cons_append, utf8Size_cons, utf8Size_cons, ih, Nat.add_assoc]

theorem indexOfByte?_cons {c : Char} (h : c.utf8Size ≤ offset) (t : Text) :
    indexOfByte? (c :: t) offset = (indexOfByte? t (offset - c.utf8Size)).map (· + 1) := by
  have := c.utf8Size_pos
  obtain ⟨n, rfl⟩ : ∃ n, offset = n + 1 := ⟨offset - 1, by omega⟩
  rw [indexOfByte?, if_pos h]

theorem indexOfByte?_utf8Size (before rest : Text) :
    indexOfByte? (before ++ rest) before.utf8Size = some before.length := by
  induction before with
  | nil =>
    cases rest with
    | nil => rfl
    | cons c cs => rfl
  | cons c cs ih =>
    rw [List.cons_append, utf8Size_cons, indexOfByte?_cons (Nat.le_add_right _ _),
      Nat.add_sub_cancel_left, ih]
    rfl

theorem indexOfByte?_eq_some_iff : indexOfByte? t offset = some i ↔
    ∃ before rest, t = before ++ rest ∧ before.length = i ∧ before.utf8Size = offset := by
  constructor
  · intro h
    induction t generalizing offset i with
    | nil =>
      cases offset with
      | zero =>
        cases h
        exact ⟨[], [], rfl, rfl, rfl⟩
      | succ n => cases h
    | cons c cs ih =>
      cases offset with
      | zero =>
        cases h
        exact ⟨[], c :: cs, rfl, rfl, rfl⟩
      | succ n =>
        rw [indexOfByte?] at h
        split at h
        · next hle =>
          obtain ⟨j, hj, rfl⟩ := Option.map_eq_some_iff.1 h
          obtain ⟨before, rest, rfl, rfl, hsize⟩ := ih hj
          exact ⟨c :: before, rest, rfl, rfl, by rw [utf8Size_cons, hsize]; omega⟩
        · cases h
  · rintro ⟨before, rest, rfl, rfl, rfl⟩
    exact indexOfByte?_utf8Size before rest

end Stencil.Text
