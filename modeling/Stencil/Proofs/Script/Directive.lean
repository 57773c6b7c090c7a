import Stencil.Proofs.Text.Blank
import Stencil.Script.Directive

/-! Where a directive is looked for.

Only what stands behind the blanks at the start of a source can be an assignment to the indent
unit. -/
namespace Stencil.Directive

variable {d : Delimiters}

theorem digitsHere?_of_after? {t : Text} (h : Text.after? d.left t = none) :
    digitsHere? d t = none := by
  rw [digitsHere?, h]
  rfl

/-- Code that does not begin with the name of the directive is none. -/
theorem digitsHere?_of_code {t code : Text} (hcode : Text.after? d.left t = some code)
    (h : Text.after? "__indent__" code.trimStart = none) : digitsHere? d t = none := by
  rw [digitsHere?, hcode]
  show (Text.after? "__indent__" code.trimStart).bind _ = none
  rw [h]
  rfl

theorem digits?_lineEnd (rest : Text) :
    digits? d ('\r' :: '\n' :: rest) =
      (digitsHere? d ('\r' :: '\n' :: rest)).or (digits? d rest) := by
  rw [digits?.eq_def]
  cases digitsHere? d ('\r' :: '\n' :: rest) <;> rfl

theorem digits?_cons {c : Char} (hc : c ≠ '\r') (rest : Text) :
    digits? d (c :: rest) = (digitsHere? d (c :: rest)).or
      (if c = ' ' ∨ c = '\t' ∨ c = '\n' then digits? d rest else none) := by
  rw [digits?.eq_def]
  cases digitsHere? d (c :: rest) with
  | some digits => rfl
  | none =>
    rw [Option.none_or]
    dsimp only
    split
    · next heq => exact absurd (List.cons.inj heq).1 hc
    · next heq =>
      obtain ⟨rfl, rfl⟩ := List.cons.inj heq
      rfl
    · next heq => cases heq

/-- A source without left delimiters has no directive. -/
theorem digits?_of_cut?_eq_none {source : Text} (h : Text.cut? d.left source = none) :
    digits? d source = none := by
  have hhere : ∀ {t : Text}, Text.cut? d.left t = none → digitsHere? d t = none := by
    intro t ht
    refine digitsHere?_of_after? ?_
    cases hafter : Text.after? d.left t with
    | none => rfl
    | some rest =>
      rw [Text.cut?_of_after? d.left_ne hafter] at ht
      cases ht
  fun_induction digits? d source with
  | case1 source digits hdigits =>
    rw [hhere h] at hdigits
    cases hdigits
  | case2 rest _ ih => exact ih (Text.cut?_eq_none_of_append d.left_ne ['\r', '\n'] h)
  | case3 c rest _ _ _ ih => exact ih (Text.cut?_eq_none_of_append d.left_ne [c] h)
  | case4 => rfl
  | case5 => rfl

theorem digits?_append {blanks body : Text} (hleft : d.left.StartsInk)
    (hblanks : ∀ c ∈ blanks, isBlank c = true) (hbody : body.StartsInk)
    (h : digitsHere? d body = none) : digits? d (blanks ++ body) = none := by
  generalize hn : blanks.length = n
  induction n using Nat.strongRecOn generalizing blanks with
  | ind n ih =>
    have hhere : digitsHere? d (blanks ++ body) = none := by
      cases blanks with
      | nil => exact h
      | cons c cs =>
        exact digitsHere?_of_after?
          (hleft.after?_eq_none d.left_ne (hblanks c (List.mem_cons_self ..)) _)
    have hink : ∀ {c rest}, body = c :: rest → isBlank c = true → False := by
      rintro c rest rfl hc
      exact Bool.false_ne_true ((hbody c rfl).symm.trans hc)
    have hrest : ∀ (skipped : Text) {behind}, blanks = skipped ++ behind → skipped ≠ [] →
        digits? d (behind ++ body) = none := by
      rintro skipped behind rfl hskipped
      have := List.length_pos_iff.2 hskipped
      exact ih behind.length (by rw [← hn, List.length_append]; omega)
        (fun c hc => hblanks c (List.mem_append_right _ hc)) rfl
    rw [digits?.eq_def, hhere]
    dsimp only
    split
    · next rest heq =>
      rcases blanks with _ | ⟨c, _ | ⟨c', behind⟩⟩
      · exact (hink heq (by decide)).elim
      · exact (hink (List.cons.inj heq).2 (by decide)).elim
      · obtain ⟨rfl, rfl, rfl⟩ : c = '\r' ∧ c' = '\n' ∧ behind ++ body = rest := by simpa using heq
        exact hrest ['\r', '\n'] rfl (List.cons_ne_nil _ _)
    · next c rest _ heq =>
      split
      · next hc =>
        rcases blanks with _ | ⟨c', behind⟩
        · refine (hink heq ?_).elim
          rcases hc with rfl | rfl | rfl
          all_goals decide
        · obtain ⟨rfl, rfl⟩ : c' = c ∧ behind ++ body = rest := by simpa using heq
          exact hrest [c'] rfl (List.cons_ne_nil _ _)
      · rfl
    · rfl

end Stencil.Directive
