import Stencil.Proofs.Lua.Complete
import Stencil.Proofs.Lua.Parens

/-! A comment behind code.

Behind complete text that stays apart from it, text is marked as it is by itself
(`IsComplete.marked_append`). All text stays apart from a blank or a closing parenthesis, so a
parenthesis that is closed stays so (`Closes.append`), and a comment is hidden as a whole and leaves
the code as it is up to its last significant character (`significantPrefix_comment`). -/
namespace Stencil.Lua

variable {t u remark : Text}

/-! ### Marks -/

/-- No string or comment begins in the text by what stands behind it. -/
def StaysApart (t u : Text) : Prop :=
  ∀ c cs, c :: cs <:+ t → BeginsHidden (c :: cs ++ u) → BeginsHidden (c :: cs)

theorem StaysApart.of_append {first : Text} (h : StaysApart (first ++ t) u) : StaysApart t u :=
  fun c cs hsuffix => h c cs (hsuffix.trans (List.suffix_append first t))

theorem Ends.staysApart (hu : Ends u) (t : Text) : StaysApart t u :=
  fun _ _ _ hbegins => hu.beginsHidden hbegins

theorem IsComplete.marks_append (h : IsComplete t) (hu : StaysApart t u) :
    marks 0 (t ++ u) = marks 0 t ++ marks 0 u := by
  induction h with
  | nil => rfl
  | @char c t hc _ ih =>
    have hc' : ¬ BeginsHidden (c :: t ++ u) :=
      fun hbegins => hc (hu c t (List.suffix_refl _) hbegins)
    have hbehind : StaysApart ([c] ++ t) u := hu
    rw [marks_of_afterHidden?_eq_none (afterHidden?_eq_none_iff.2 hc), List.cons_append,
      List.cons_append, ← ih hbehind.of_append]
    exact marks_of_afterHidden?_eq_none (afterHidden?_eq_none_iff.2 hc')
  | @hidden opening inside closing t hencloses _ ih =>
    have hbehind : StaysApart t u := by
      simp only [← List.append_assoc] at hu
      exact hu.of_append
    have hsplit : ∀ rest, opening ++ (inside ++ (closing ++ rest)) =
        (opening ++ (inside ++ closing)) ++ rest := fun rest => by simp only [List.append_assoc]
    rw [hsplit, List.append_assoc, hencloses.marks_append, hencloses.marks_append, ih hbehind,
      List.append_assoc]

/-- What stands behind complete text is marked as it is by itself. -/
theorem IsComplete.marked_append (h : IsComplete t) (hu : StaysApart t u) :
    marked (t ++ u) = marked t ++ marked u := by
  have hlength : t.length = (significance t).length := (length_significance t).symm
  rw [marked, significance, h.marks_append hu]
  exact List.zip_append hlength

/-! ### Comments -/

/-- A comment with a blank in front of it. -/
def comment (remark : Text) : Text := " --" ++ remark

/-- The comment takes the rest of the line. -/
def IsRemark (remark : Text) : Prop := ∀ level, ¬ longOpening level <+: remark

theorem isRemark_of_head?_ne (h : remark.head? ≠ some '[') : IsRemark remark := by
  rintro level ⟨rest, rfl⟩
  exact h rfl

theorem ends_comment (remark : Text) : Ends (comment remark) := by
  rintro c ⟨⟩
  decide

/-- Of a comment only the blank in front of it is seen. -/
theorem marked_comment (h : IsRemark remark) :
    marked (comment remark) = (' ', true) :: ('-' :: '-' :: remark).map (·, false) := by
  have hcode : IsCode [.char ' ', .unclosed ('-' :: '-' :: remark)] := by
    refine .char ?_ (.unclosed (.line h))
    exact not_beginsHidden_of_isPlain (by decide) _
  have hmarked := hcode.marked_eq
  simp only [segmentsText_cons, segmentsMarked_cons] at hmarked
  simpa [Segment.text, Segment.marked, segmentsText, segmentsMarked, comment] using hmarked

theorem significantPrefix_append_of_trailing (hmarked : marked (t ++ u) = marked t ++ marked u)
    (hu : ∀ m ∈ marked u, (!m.2 || isAsciiBlank m.1) = true) :
    significantPrefix (t ++ u) = significantPrefix t := by
  have hreverse : ∀ m ∈ (marked u).reverse, (!m.2 || isAsciiBlank m.1) = true :=
    fun m hm => hu m (List.mem_reverse.1 hm)
  show ((marked (t ++ u)).reverse.dropWhile fun m => !m.2 || isAsciiBlank m.1).reverse.map _ = _
  rw [hmarked, List.reverse_append, List.dropWhile_append_of_pos hreverse]
  rfl

/-- **A comment is no part of the significant code.** -/
theorem significantPrefix_comment (ht : IsComplete t) (h : IsRemark remark) :
    significantPrefix (t ++ comment remark) = significantPrefix t := by
  have happend := ht.marked_append ((ends_comment remark).staysApart t)
  refine significantPrefix_append_of_trailing happend ?_
  rw [marked_comment h]
  intro m hm
  rcases List.mem_cons.1 hm with rfl | hm
  · decide
  · obtain ⟨c, -, rfl⟩ := List.mem_map.1 hm
    rfl

/-! ### Parentheses -/

variable {opening closing : Nat}

/-- What closes a parenthesis does so whatever stands behind the text. -/
theorem Closes.append (h : Closes t opening closing) (ht : IsComplete t) (hu : Ends u) :
    Closes (t ++ u) opening closing := by
  obtain ⟨before, inner, after, hmarked, hbefore, hinner, hnested⟩ := h
  refine ⟨before, inner, after ++ marked u, ?_, hbefore, hinner, hnested⟩
  rw [ht.marked_append (hu.staysApart t), hmarked]
  simp only [List.append_assoc, List.cons_append]

theorem Closes.lt_length (h : Closes t opening closing) : closing < t.length := by
  obtain ⟨before, inner, after, hmarked, hbefore, hinner, -⟩ := h
  have hlength := congrArg List.length (map_fst_marked t)
  rw [hmarked] at hlength
  simp only [List.length_map, List.length_append, List.length_cons] at hlength
  omega

end Stencil.Lua
