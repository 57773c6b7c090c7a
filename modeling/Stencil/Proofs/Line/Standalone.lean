import Stencil.Proofs.Line.Grammar

/-! Placeholders on a line of their own and in a line.

The expression of a placeholder that fills its line ends at the last right delimiter of the line, and
that of a placeholder in a text at the first one behind its left delimiter. These are the same
unless a right delimiter starts in the expression and ends behind it, and for that a right delimiter
that overlaps itself has to follow the expression without a blank
(`fragments_placeholder_iff`). -/
namespace Stencil

section Parts

variable {d : Delimiters} (hleft : ∀ c ∈ d.left, isBlank c = false)
  (hright : ∀ c ∈ d.right, isBlank c = false) {front before expr behind trailing : Text}
  (hfront : front.LeadsTo d.left)
  (hescape : ¬ d.escape <+: before ++ (expr ++ behind) ++ (d.right ++ trailing))
  (hbefore : ∀ c ∈ before, isBlank c = true) (hexpr : d.IsExpr expr)
  (hbehind : ∀ c ∈ behind, isBlank c = true) (htrailing : ∀ c ∈ trailing, isBlank c = true)

include hleft in
theorem leadsTo_left (hblanks : ∀ c ∈ trailing, isBlank c = true) : trailing.LeadsTo d.left := by
  have hnil := (Text.LeadsTo.nil d.left_ne).blanks_append hleft d.left_ne hblanks
  rwa [List.append_nil] at hnil

include hright hbefore hexpr hbehind in
/-- Where the placeholder ends, if a text that starts with its expression leads there. -/
theorem leadsTo_right (h : behind = [] → expr.LeadsTo d.right) :
    (before ++ (expr ++ behind)).LeadsTo d.right := by
  refine Text.LeadsTo.blanks_append hright d.right_ne hbefore ?_
  by_cases hnil : behind = []
  · rw [hnil, List.append_nil]
    exact h hnil
  · exact Text.LeadsTo.append_blanks hright d.right_ne hexpr.right hnil hbehind

include hright hbefore hexpr in
/-- If what stands in front of the first right delimiter is the expression, nothing in it starts a
right delimiter. -/
theorem leadsTo_right_of_trim {between rest : Text}
    (hcut : Text.cut? d.right (before ++ expr ++ (d.right ++ trailing)) = some (between, rest))
    (htrim : between.trim = expr) : expr.LeadsTo d.right := by
  obtain ⟨hsplit, hbetween⟩ := (Text.cut?_eq_some_iff d.right_ne).1 hcut
  obtain ⟨indent, blanks, hparts, hindent, hblanks, _, _⟩ := between.exists_trim
  rw [htrim] at hparts
  have hexprs : ∀ t : Text, Text.StartsInk (expr ++ t) :=
    fun t => hexpr.startsInk.append hexpr.ne_nil t
  have hrights : ∀ t : Text, Text.StartsInk (d.right ++ t) :=
    fun t => (Text.startsInk_of_forall hright).append d.right_ne t
  have hempty : ∀ c ∈ ([] : Text), isBlank c = true := fun _ hc => nomatch hc
  rw [hparts, List.append_assoc, List.append_assoc, List.append_assoc] at hsplit
  -- both expressions start where the blanks end, and both delimiters behind them as well
  obtain ⟨-, hsplit⟩ := Text.indent_append_inj hbefore hindent (hexprs _) (hexprs _) hsplit
  rw [List.append_cancel_left_eq] at hsplit
  obtain ⟨hnil, -⟩ := Text.indent_append_inj hempty hblanks (hrights _) (hrights _) hsplit
  rw [hparts, ← hnil, List.append_nil] at hbetween
  exact hbetween.of_append

include hleft hright hfront hescape hbefore hexpr hbehind htrailing in
/-- Where no right delimiter starts in the expression, and only there, the placeholder is the same
one behind any text. -/
theorem fragments_placeholder_iff :
    fragments d (front ++ (d.left ++ (before ++ (expr ++ behind) ++ (d.right ++ trailing)))) =
        .ok (literals front ++ .placeholder expr :: literals trailing) ↔
      (behind = [] → expr.LeadsTo d.right) := by
  constructor
  · rintro h rfl
    rw [List.append_nil] at h hescape
    have hcut := Text.cut?_of_leadsTo d.left_ne hfront (before ++ expr ++ (d.right ++ trailing))
    have hne : front ++ (d.left ++ (before ++ expr ++ (d.right ++ trailing))) ≠ [] :=
      List.append_ne_nil_of_right_ne_nil _ (List.append_ne_nil_of_left_ne_nil d.left_ne _)
    rcases fragments_cases h hne with ⟨hnone, _⟩ | ⟨_, inside, _, _, hfound, hliteral, _⟩ |
      ⟨_, inside, between, rest, more, hfound, _, hend, _, _, hfs⟩
    · cases hcut.symm.trans hnone
    · cases hcut.symm.trans hfound
      exact absurd hliteral (Text.not_isPrefix_iff.1 hescape ▸ (Option.some_ne_none _).symm)
    · cases hcut.symm.trans hfound
      have hsame := List.append_cancel_left
        (hfs.trans (literals_append front (.placeholder between.trim) more))
      have htrim := Fragment.placeholder.inj (List.cons.inj hsame).1
      exact leadsTo_right_of_trim hright hbefore hexpr hend htrim.symm
  · intro h
    refine Reading.fragments_eq (.placeholder hfront hescape ?_ hbefore hexpr hbehind ?_)
    · exact leadsTo_right hright hbefore hexpr hbehind h
    · exact .of_leadsTo (leadsTo_left hleft htrailing)

end Parts

/-- **A placeholder on a line of its own is the same placeholder in a text**, behind any text that
leads to it, exactly if no right delimiter starts in its expression and ends in the one that stands
right behind the expression. So it is with any right delimiter that does not overlap itself. -/
theorem fragments_of_placeholder_line {d : Delimiters} (hleft : ∀ c ∈ d.left, isBlank c = false)
    (hright : ∀ c ∈ d.right, isBlank c = false) {content indent expr : Text}
    (h : Form.ofLine d content = .ok (.placeholder indent expr)) :
    ∃ before behind trailing,
      content = indent ++ (d.left ++ (before ++ (expr ++ behind) ++ (d.right ++ trailing))) ∧
      (∀ c ∈ indent ++ before ++ behind ++ trailing, isBlank c = true) ∧
      (fragments d content = .ok (literals indent ++ .placeholder expr :: literals trailing) ↔
        (behind = [] → expr.LeadsTo d.right)) ∧
      (∀ front, front.LeadsTo d.left →
        (fragments d (front ++ content.trimStart) =
          .ok (literals front ++ .placeholder expr :: literals trailing) ↔
            (behind = [] → expr.LeadsTo d.right))) ∧
      (¬ d.right.OverlapsItself →
        fragments d content = .ok (literals indent ++ .placeholder expr :: literals trailing)) := by
  cases Form.ofLine_eq_ok_iff.1 h with
  | @placeholder _ _ inside hindent hink hescape hinside hne =>
    obtain ⟨before, behind, trailing, rfl, hbefore, hbehind, htrailing⟩ := hinside.split
    have hexpr : d.IsExpr expr := ⟨hne, hinside.startsInk, hinside.endsInk, hinside.right⟩
    have hsame := fun (front : Text) (hfront : front.LeadsTo d.left) =>
      fragments_placeholder_iff hleft hright hfront hescape hbefore hexpr hbehind htrailing
    have hown := hsame indent (leadsTo_left hleft hindent)
    refine ⟨before, behind, trailing, rfl, ?_, hown, fun front hfront => ?_, fun hoverlap => ?_⟩
    · simp only [List.forall_mem_append]
      exact ⟨⟨⟨hindent, hbefore⟩, hbehind⟩, htrailing⟩
    · rw [Text.trimStart_append hindent (hink.append d.left_ne _)]
      exact hsame front hfront
    · exact hown.2 fun _ => .of_not_overlapsItself hoverlap hexpr.right

/-- A line of a placeholder with blanks around it, by itself and behind the beginning of another. -/
theorem fragments_of_placeholder_line_name :
    let line : Text := "  <% name %> "
    (∀ c ∈ Delimiters.standard.left, isBlank c = false) ∧
    (∀ c ∈ Delimiters.standard.right, isBlank c = false) ∧
    Form.ofLine .standard line = .ok (.placeholder "  " "name") ∧
    ∃ trailing,
      fragments .standard line = .ok (.literal "  " :: .placeholder "name" :: literals trailing) ∧
      fragments .standard ("a <" ++ line.trimStart) =
        .ok (.literal "a <" :: .placeholder "name" :: literals trailing) := by
  intro line
  have hleft : ∀ c ∈ Delimiters.standard.left, isBlank c = false :=
    Text.any_isBlank_eq_false_iff.1 rfl
  have hright : ∀ c ∈ Delimiters.standard.right, isBlank c = false :=
    Text.any_isBlank_eq_false_iff.1 rfl
  have hform : Form.ofLine .standard line = .ok (.placeholder "  " "name") := rfl
  have hoverlap : ¬ Delimiters.standard.right.OverlapsItself := by decide
  obtain ⟨_, _, trailing, _, _, hown, hfront, hwhole⟩ :=
    fragments_of_placeholder_line hleft hright hform
  exact ⟨hleft, hright, hform, trailing, hwhole hoverlap,
    (hfront "a <" (by decide)).2 (hown.1 (hwhole hoverlap))⟩

/-- With `}}` for a right delimiter, the line ends the expression at the last two of three braces,
and the text at the first two. -/
theorem fragments_of_placeholder_line_braces :
    ∃ d : Delimiters, Delimiters.ofParts "\x7b\x7b" "\x7d\x7d" "!" = .ok d ∧
      (∀ c ∈ d.left ++ d.right, isBlank c = false) ∧
      Form.ofLine d "\x7b\x7b x \x7d\x7d\x7d" = .ok (.placeholder [] "x \x7d") ∧
      fragments d "\x7b\x7b x \x7d\x7d\x7d" = .ok [.placeholder "x", .literal "\x7d"] :=
  ⟨⟨"\x7b\x7b", "\x7d\x7d", "!", by decide, by decide, by decide, by decide, by decide⟩, rfl,
    Text.any_isBlank_eq_false_iff.1 rfl, rfl, by decide +kernel⟩

end Stencil
