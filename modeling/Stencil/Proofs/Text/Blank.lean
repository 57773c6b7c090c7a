import Stencil.Proofs.Text.Parts
import Stencil.Text.Blank

/-! Blanks around a text.

Blanks in front of a text that does not start with one are its indentation, and blanks on both
sides of a text that has none at its ends are trimmed. -/
namespace Stencil.Text

variable {indent body blanks t : Text}

/-- The text does not start with a blank. -/
def StartsInk (t : Text) : Prop := ∀ c ∈ t.head?, isBlank c = false

/-- The text does not end with a blank. -/
def EndsInk (t : Text) : Prop := ∀ c ∈ t.getLast?, isBlank c = false

/-- The text is empty or starts with a blank. -/
def StartsBlank (t : Text) : Prop := ∀ c ∈ t.head?, isBlank c = true

instance (t : Text) : Decidable t.StartsInk :=
  decidable_of_iff (t.head?.all (!isBlank ·) = true) (by cases h : t.head? <;> simp [StartsInk, h])

instance (t : Text) : Decidable t.EndsInk :=
  decidable_of_iff (t.getLast?.all (!isBlank ·) = true) (by cases h : t.getLast? <;> simp [EndsInk, h])

theorem any_isBlank_eq_false_iff : t.any isBlank = false ↔ ∀ c ∈ t, isBlank c = false := by
  simp [List.any_eq_false]

theorem indentation_append (hindent : ∀ c ∈ indent, isBlank c = true) (hbody : StartsInk body) :
    (indent ++ body).indentation = indent := (span_of_all hindent hbody).1

theorem trimStart_append (hindent : ∀ c ∈ indent, isBlank c = true) (hbody : StartsInk body) :
    (indent ++ body).trimStart = body := (span_of_all hindent hbody).2

/-- Where the blanks end that a text starts with is known from the text. -/
theorem indent_append_inj {indent' body' : Text} (hindent : ∀ c ∈ indent, isBlank c = true)
    (hindent' : ∀ c ∈ indent', isBlank c = true) (hbody : StartsInk body) (hbody' : StartsInk body')
    (h : indent ++ body = indent' ++ body') : indent = indent' ∧ body = body' := by
  have hindents := congrArg indentation h
  rw [indentation_append hindent hbody, indentation_append hindent' hbody'] at hindents
  rw [hindents, List.append_cancel_left_eq] at h
  exact ⟨hindents, h⟩

theorem StartsInk.trimStart_eq (h : StartsInk t) : t.trimStart = t := by
  have hempty : ∀ c ∈ ([] : Text), isBlank c = true := fun _ hc => nomatch hc
  exact trimStart_append hempty h

theorem isBlank_of_mem_indentation {c : Char} (h : c ∈ t.indentation) : isBlank c = true :=
  List.all_eq_true.1 List.all_takeWhile c h

theorem startsInk_trimStart (t : Text) : StartsInk t.trimStart := by
  intro c hc
  have := List.head?_dropWhile_not isBlank t
  rw [show t.dropWhile isBlank = t.trimStart from rfl, hc] at this
  simpa using this

/-- What does not start with a blank is not found before one. -/
theorem StartsInk.after?_eq_none {part : Text} (hpart : StartsInk part) (hne : part ≠ []) {c : Char}
    (hc : isBlank c = true) (cs : Text) : after? part (c :: cs) = none := by
  refine after?_of_head_ne hne ?_ cs
  rintro p hp rfl
  exact Bool.false_ne_true ((hpart p hp).symm.trans hc)

/-- What is nowhere in a text does not stand behind its indentation. -/
theorem after?_trimStart_of_cut?_eq_none {part : Text} (hpart : part ≠ [])
    (h : cut? part t = none) : after? part t.trimStart = none := by
  rw [← t.indentation_append_trimStart] at h
  have hcut := cut?_eq_none_of_append hpart _ h
  cases hafter : after? part t.trimStart with
  | none => rfl
  | some rest =>
    rw [cut?_of_after? hpart hafter] at hcut
    cases hcut

theorem isBlankLine_iff : t.isBlankLine = true ↔ t.trimStart = [] := by
  rw [isBlankLine, trimStart]
  induction t with
  | nil => simp
  | cons c cs ih =>
    cases hc : isBlank c with
    | true => rw [List.all_cons, hc, Bool.true_and, List.dropWhile_cons_of_pos hc, ih]
    | false => simp [hc]

theorem isBlankLine_eq_false_iff : t.isBlankLine = false ↔ t.trimStart ≠ [] := by
  rw [← Bool.not_eq_true, isBlankLine_iff]

theorem trimEnd_append (hblanks : ∀ c ∈ blanks, isBlank c = true) (hbody : EndsInk body) :
    (body ++ blanks).trimEnd = body :=
  dropEndWhile_append hbody hblanks

theorem trimEnd_of_endsInk (h : EndsInk t) : t.trimEnd = t := by
  have hempty : ∀ c ∈ ([] : Text), isBlank c = true := fun _ hc => nomatch hc
  have htrim := trimEnd_append hempty h
  rwa [List.append_nil] at htrim

theorem StartsInk.append (h : StartsInk body) (hne : body ≠ []) (more : Text) :
    StartsInk (body ++ more) := by
  cases body with
  | nil => exact absurd rfl hne
  | cons c cs => exact h

theorem EndsInk.append (h : EndsInk t) (hne : t ≠ []) (before : Text) : EndsInk (before ++ t) := by
  obtain ⟨c, hc⟩ := Option.ne_none_iff_exists'.1 (mt List.getLast?_eq_none_iff.1 hne)
  intro last hlast
  rw [List.getLast?_append, hc] at hlast
  exact h last (hc.trans hlast)

/-- Only what stands behind the last character that is no blank is trimmed. -/
theorem EndsInk.trimEnd_append (h : EndsInk t) (rest : Text) :
    (t ++ rest).trimEnd = t ++ rest.trimEnd := by
  obtain ⟨blanks, hsplit, hblanks, hend⟩ := exists_dropEndWhile isBlank rest
  have hink : EndsInk (t ++ rest.dropEndWhile isBlank) := by
    by_cases hnil : rest.dropEndWhile isBlank = []
    · rwa [hnil, List.append_nil]
    · exact EndsInk.append hend hnil t
  have htrim := Text.trimEnd_append hblanks hink
  rwa [List.append_assoc, ← hsplit] at htrim

theorem StartsBlank.append {more : Text} (h : StartsBlank t) (hmore : StartsBlank more) :
    StartsBlank (t ++ more) := by
  cases t with
  | nil => exact hmore
  | cons c cs => exact h

/-- What stands between blanks, if it has none at its own ends. -/
theorem trim_append (hindent : ∀ c ∈ indent, isBlank c = true) (hstart : StartsInk body)
    (hend : EndsInk body) (hblanks : ∀ c ∈ blanks, isBlank c = true) :
    trim (indent ++ (body ++ blanks)) = body := by
  by_cases hne : body = []
  · have hall : ∀ c ∈ indent ++ blanks, isBlank c = true :=
      fun c hc => (List.mem_append.1 hc).elim (hindent c) (hblanks c)
    have hempty : StartsInk [] := nofun
    have htrim := trimStart_append hall hempty
    rw [List.append_nil] at htrim
    rw [hne, List.nil_append, trim, htrim]
    rfl
  · rw [trim, trimStart_append hindent (hstart.append hne blanks), trimEnd_append hblanks hend]

/-- A text is what is trimmed of it with blanks on both sides. -/
theorem exists_trim (t : Text) :
    ∃ before behind, t = before ++ (t.trim ++ behind) ∧ (∀ c ∈ before, isBlank c = true) ∧
      (∀ c ∈ behind, isBlank c = true) ∧ t.trim.StartsInk ∧ t.trim.EndsInk := by
  obtain ⟨behind, hsplit, hbehind, hend⟩ := exists_dropEndWhile isBlank t.trimStart
  refine ⟨t.indentation, behind, ?_, fun c hc => isBlank_of_mem_indentation hc, hbehind, ?_, hend⟩
  · rw [trim, trimEnd, ← hsplit, indentation_append_trimStart]
  · intro c hc
    refine startsInk_trimStart t c ?_
    rw [hsplit, List.head?_append, show (t.trimStart.dropEndWhile isBlank).head? = some c from hc]
    rfl

theorem isBlank_of_trim_eq_nil (h : t.trim = []) : ∀ c ∈ t, isBlank c = true := by
  obtain ⟨before, behind, hsplit, hbefore, hbehind, _, _⟩ := t.exists_trim
  rw [h, List.nil_append] at hsplit
  rw [hsplit]
  exact fun c hc => (List.mem_append.1 hc).elim (hbefore c) (hbehind c)

theorem startsInk_trim (t : Text) : t.trim.StartsInk := by
  obtain ⟨_, _, _, _, _, hstart, _⟩ := exists_trim t
  exact hstart

end Stencil.Text
