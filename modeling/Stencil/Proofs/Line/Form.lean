import Stencil.Line.Form
import Stencil.Proofs.Text.Blank

/-! The rules for lines, read backwards.

`fragments_cases` and `Form.fragments_of_ofLine` say what a text line must have looked like for the
fragments that it is cut into. -/
namespace Stencil

/-! ### Fragments -/

variable {d : Delimiters}

@[simp] theorem fragments_nil : fragments d [] = .ok [] := by
  rw [fragments, if_pos rfl]

theorem fragments_of_cut?_none {t : Text} (ht : t ≠ []) (hcut : Text.cut? d.left t = none) :
    fragments d t = .ok [.literal t] := by
  rw [fragments, if_neg ht]
  split
  · rfl
  · next hsome =>
    rw [hcut] at hsome
    cases hsome

theorem fragments_of_escape {t before inside rest : Text} {fs : List Fragment}
    (hcut : Text.cut? d.left t = some (before, inside))
    (hescape : Text.after? d.escape inside = some rest) (hrest : fragments d rest = .ok fs) :
    fragments d t = .ok (.escaped before :: fs) := by
  have ht : t ≠ [] := by
    rintro rfl
    rw [Text.cut?, if_neg d.left_ne] at hcut
    cases hcut
  rw [fragments, if_neg ht]
  split
  · next hnone =>
    rw [hcut] at hnone
    cases hnone
  · next hsome =>
    rw [hcut] at hsome
    cases hsome
    split
    · next hfound =>
      rw [hescape] at hfound
      cases hfound
      rw [hrest]
      rfl
    · next hnone =>
      rw [hescape] at hnone
      cases hnone

/-- A text that has fragments starts, up to the first left delimiter in it, in one of three ways. -/
theorem fragments_cases {t : Text} {fs : List Fragment} (h : fragments d t = .ok fs)
    (ht : t ≠ []) :
    (Text.cut? d.left t = none ∧ fs = [.literal t]) ∨
    (∃ before inside rest more, Text.cut? d.left t = some (before, inside) ∧
      Text.after? d.escape inside = some rest ∧ fragments d rest = .ok more ∧
      fs = .escaped before :: more) ∨
    (∃ before inside between rest more, Text.cut? d.left t = some (before, inside) ∧
      Text.after? d.escape inside = none ∧ Text.cut? d.right inside = some (between, rest) ∧
      between.trim ≠ [] ∧ fragments d rest = .ok more ∧
      fs = (if before = [] then [.placeholder between.trim]
        else [.literal before, .placeholder between.trim]) ++ more) := by
  rw [fragments, if_neg ht] at h
  split at h
  · next hcut => exact .inl ⟨hcut, (Except.ok.inj h).symm⟩
  · next before inside hcut =>
    split at h
    · next rest hescape =>
      cases hmore : fragments d rest with
      | error e => rw [hmore] at h; cases h
      | ok more =>
        rw [hmore] at h
        exact .inr (.inl ⟨before, inside, rest, more, hcut, hescape, hmore, (Except.ok.inj h).symm⟩)
    · next hescape =>
      split at h
      · cases h
      · next between rest hright =>
        dsimp only at h
        by_cases hexpr : between.trim = []
        · rw [if_pos hexpr] at h; cases h
        · rw [if_neg hexpr] at h
          cases hmore : fragments d rest with
          | error e => rw [hmore] at h; cases h
          | ok more =>
            rw [hmore] at h
            exact .inr (.inr ⟨before, inside, between, rest, more, hcut, hescape, hright, hexpr,
              hmore, (Except.ok.inj h).symm⟩)

/-- What holds of a text and its fragments is shown from what follows the first of them. -/
theorem fragments_induction {P : Text → List Fragment → Prop} (nil : P [] [])
    (literal : ∀ t, Text.cut? d.left t = none → P t [.literal t])
    (escaped : ∀ before rest more, P rest more →
      P (before ++ d.left ++ (d.escape ++ rest)) (.escaped before :: more))
    (placeholder : ∀ before between rest more, P rest more →
      P (before ++ d.left ++ (between ++ d.right ++ rest))
        ((if before = [] then [.placeholder between.trim]
          else [.literal before, .placeholder between.trim]) ++ more))
    {t : Text} {fs : List Fragment} (h : fragments d t = .ok fs) : P t fs := by
  generalize hn : t.length = n
  induction n using Nat.strongRecOn generalizing t fs with
  | ind n ih =>
    by_cases ht : t = []
    · rw [ht, fragments_nil] at h
      cases h
      exact ht ▸ nil
    · rcases fragments_cases h ht with ⟨hcut, rfl⟩ | ⟨before, inside, rest, more, hcut, hescape,
        hmore, rfl⟩ | ⟨before, inside, between, rest, more, hcut, _, hright, _, hmore, rfl⟩
      · exact literal t hcut
      · have hlength := Text.length_lt_of_cut? d.left_ne hcut
        obtain rfl := Text.cut?_eq_some hcut
        obtain rfl := Text.after?_eq_some_iff.1 hescape
        refine escaped before rest more (ih rest.length ?_ hmore rfl)
        rw [List.length_append] at hlength
        omega
      · have hlength := Text.length_lt_of_cut? d.left_ne hcut
        have hrest := Text.length_lt_of_cut? d.right_ne hright
        obtain rfl := Text.cut?_eq_some hcut
        obtain rfl := Text.cut?_eq_some hright
        exact placeholder before between rest more (ih rest.length (by omega) hmore rfl)

/-- A text that is not empty has fragments. -/
theorem fragments_ne_nil {t : Text} {fs : List Fragment} (h : fragments d t = .ok fs)
    (ht : t ≠ []) : fs ≠ [] := by
  rcases fragments_cases h ht with ⟨_, rfl⟩ | ⟨_, _, _, _, _, _, _, rfl⟩ |
    ⟨before, _, _, _, _, _, _, _, _, _, rfl⟩
  · simp
  · simp
  · by_cases hbefore : before = [] <;> simp [hbefore]

/-! ### Lines -/

namespace Form

theorem ofLine_blank {content : Text} (h : content.isBlankLine = true) :
    ofLine d content = .ok (blank content) := by
  unfold ofLine
  rw [h]
  rfl

/-- A line that does not start with a left delimiter, or only with a literal one, is as good as its
fragments. -/
theorem ofLine_eq_map {content : Text} (hblank : content.isBlankLine = false)
    (hleft : ∀ inside, Text.after? d.left content.trimStart = some inside →
      Text.after? d.escape inside ≠ none) :
    ofLine d content = (fragments d content).map (text content.indentation) := by
  have htext : (return Form.text content.indentation (← fragments d content)) =
      (fragments d content).map (text content.indentation) := by
    cases fragments d content <;> rfl
  unfold ofLine
  dsimp only
  rw [hblank, if_neg Bool.false_ne_true, ← htext]
  by_cases hescaped : content.trimStart.startsWith d.escapedLeft = true
  · rw [if_pos hescaped]
  · rw [if_neg hescaped]
    cases hafter : Text.after? d.left content.trimStart with
    | none => rfl
    | some inside =>
      refine absurd ?_ hescaped
      rw [Text.startsWith, Delimiters.escapedLeft, Text.after?_append_part, hafter,
        Option.bind_some, Option.isSome_iff_ne_none]
      exact hleft inside hafter

theorem ofLine_text {content : Text} {fs : List Fragment} (hblank : content.isBlankLine = false)
    (hleft : ∀ inside, Text.after? d.left content.trimStart = some inside →
      Text.after? d.escape inside ≠ none)
    (hfs : fragments d content = .ok fs) :
    ofLine d content = .ok (text content.indentation fs) := by
  rw [ofLine_eq_map hblank hleft, hfs]
  rfl

/-- A line without left delimiters is text as it is. -/
theorem ofLine_literal {content : Text} (hblank : content.isBlankLine = false)
    (hcut : Text.cut? d.left content = none) :
    ofLine d content = .ok (text content.indentation [.literal content]) := by
  have hne : content ≠ [] := by
    rintro rfl
    cases hblank
  refine ofLine_text hblank (fun inside hinside => ?_) (fragments_of_cut?_none hne hcut)
  rw [Text.after?_trimStart_of_cut?_eq_none d.left_ne hcut] at hinside
  cases hinside

section Delimited

variable {indent inside : Text}

/-- A line that starts with a left delimiter which is not made literal. -/
theorem delimited (hindent : ∀ c ∈ indent, isBlank c = true) (hleft : d.left.StartsInk)
    (hescape : Text.after? d.escape inside = none) :
    (indent ++ (d.left ++ inside)).isBlankLine = false ∧
      (indent ++ (d.left ++ inside)).indentation = indent ∧
      (indent ++ (d.left ++ inside)).trimStart = d.left ++ inside ∧
      (d.left ++ inside).startsWith d.escapedLeft = false := by
  have hink := hleft.append d.left_ne inside
  have hstart : (indent ++ (d.left ++ inside)).trimStart = d.left ++ inside :=
    Text.trimStart_append hindent hink
  refine ⟨?_, Text.indentation_append hindent hink, hstart, ?_⟩
  · rw [Text.isBlankLine_eq_false_iff, hstart]
    exact List.append_ne_nil_of_left_ne_nil d.left_ne inside
  · rw [Text.startsWith, Delimiters.escapedLeft, Text.after?_append_part, Text.after?_append,
      Option.bind_some, hescape]
    rfl

theorem ofLine_code (hindent : ∀ c ∈ indent, isBlank c = true) (hleft : d.left.StartsInk)
    (hescape : Text.after? d.escape inside = none)
    (hright : Text.before? d.right inside.trimEnd = none) :
    ofLine d (indent ++ (d.left ++ inside)) = .ok (code indent inside.trim) := by
  obtain ⟨hblank, hindentation, hstart, hliteral⟩ := delimited hindent hleft hescape
  simp [ofLine, hblank, hindentation, hstart, hliteral, hright]

theorem ofLine_placeholder {between : Text} (hindent : ∀ c ∈ indent, isBlank c = true)
    (hleft : d.left.StartsInk) (hescape : Text.after? d.escape inside = none)
    (hright : Text.before? d.right inside.trimEnd = some between) (hne : between.trim ≠ [])
    (hone : between.trim.contains d.right = false) :
    ofLine d (indent ++ (d.left ++ inside)) = .ok (placeholder indent between.trim) := by
  obtain ⟨hblank, hindentation, hstart, hliteral⟩ := delimited hindent hleft hescape
  simp [ofLine, hblank, hindentation, hstart, hliteral, hright, hne, hone]

end Delimited

/-- What a line that is accounted for must have looked like. -/
theorem ofLine_cases {content : Text} {form : Form} (h : ofLine d content = .ok form) :
    form = blank content ∨
    (∃ fs, fragments d content = .ok fs ∧ form = text content.indentation fs) ∨
    ∃ inside, content.trimStart = d.left ++ inside ∧
      (form = code content.indentation inside.trim ∨
        ∃ between, inside.trimEnd = between ++ d.right ∧
          form = placeholder content.indentation between.trim) := by
  have htext : (return Form.text content.indentation (← fragments d content)) = .ok form →
      ∃ fs, fragments d content = .ok fs ∧ form = text content.indentation fs := by
    intro hform
    cases hfs : fragments d content with
    | error e => rw [hfs] at hform; cases hform
    | ok fs => rw [hfs] at hform; exact ⟨fs, rfl, (Except.ok.inj hform).symm⟩
  unfold ofLine at h
  dsimp only at h
  split at h
  · exact .inl (Except.ok.inj h).symm
  · split at h
    · exact .inr (.inl (htext h))
    · split at h
      · exact .inr (.inl (htext h))
      · next inside hleft =>
        refine .inr (.inr ⟨inside, Text.after?_eq_some_iff.1 hleft, ?_⟩)
        split at h
        · exact .inl (Except.ok.inj h).symm
        · next between hright =>
          split at h
          · cases h
          · split at h
            · exact .inl (Except.ok.inj h).symm
            · exact .inr ⟨between, Text.before?_eq_some_iff.1 hright, (Except.ok.inj h).symm⟩

/-- A text line is not blank, and its fragments are those of the whole line. -/
theorem fragments_of_ofLine {content indent : Text} {fs : List Fragment}
    (h : ofLine d content = .ok (text indent fs)) :
    fragments d content = .ok fs ∧ content.isBlankLine = false ∧
      indent = content.indentation := by
  have hwhole : ∀ {form : Form},
      (return Form.text content.indentation (← fragments d content)) = .ok form →
        form = text indent fs → fragments d content = .ok fs ∧ indent = content.indentation := by
    intro form hform htext
    cases hfs : fragments d content with
    | error e => rw [hfs] at hform; cases hform
    | ok found =>
      rw [hfs] at hform
      cases hform
      cases htext
      exact ⟨rfl, rfl⟩
  unfold ofLine at h
  dsimp only at h
  cases hblank : content.isBlankLine with
  | true => rw [hblank, if_pos rfl] at h; cases h
  | false =>
    rw [hblank, if_neg Bool.false_ne_true] at h
    have hgoal : fragments d content = .ok fs ∧ indent = content.indentation := by
      split at h
      · exact hwhole h rfl
      · split at h
        · exact hwhole h rfl
        · split at h
          · cases h
          · split at h
            · cases h
            · split at h <;> cases h
    exact ⟨hgoal.1, rfl, hgoal.2⟩

/-- A text line has at least one fragment. -/
theorem fragments_ne_nil_of_ofLine {content indent : Text} {fs : List Fragment}
    (h : ofLine d content = .ok (text indent fs)) : fs ≠ [] := by
  obtain ⟨hfs, hblank, _⟩ := fragments_of_ofLine h
  have hcontent : content ≠ [] := by
    intro hnil
    rw [hnil] at hblank
    cases hblank
  exact fragments_ne_nil hfs hcontent

end Form
end Stencil
