import Stencil.Proofs.Text.Blank

/-! Where a part stands for the first time.

A text leads to a part if the part, put behind it, starts nowhere sooner, not even across the end of
the text. That is where `cut?` cuts, whatever follows (`cut?_eq_some_iff`). It is more than that the
text is without the part, as the part can overlap itself; for a part that does not, and for one
without blanks behind a blank, it is the same (`LeadsTo.of_not_overlapsItself`,
`LeadsTo.append_blanks`). -/
namespace Stencil.Text

variable {part t before rest : Text}

theorem not_isPrefix_iff : ¬ part <+: t ↔ after? part t = none := by
  rw [after?_eq_none_iff]
  exact ⟨fun h rest heq => h ⟨rest, heq.symm⟩, fun h ⟨rest, heq⟩ => h rest heq.symm⟩

/-! ### First occurrences -/

/-- Put behind `before`, the part starts nowhere sooner. -/
def LeadsTo (before part : Text) : Prop := ¬ part <:+: before ++ part.dropLast

instance (before part : Text) : Decidable (before.LeadsTo part) :=
  inferInstanceAs (Decidable (¬ _))

theorem not_isInfix_dropLast (hpart : part ≠ []) : ¬ part <:+: part.dropLast := by
  intro h
  have := h.length_le
  have := List.length_pos_iff.2 hpart
  rw [List.length_dropLast] at *
  omega

theorem LeadsTo.nil (hpart : part ≠ []) : LeadsTo [] part := not_isInfix_dropLast hpart

theorem LeadsTo.not_isInfix (h : before.LeadsTo part) : ¬ part <:+: before :=
  fun hfound => h (hfound.trans (List.prefix_append _ _).isInfix)

/-- What leads to a part does so from any place in it on. -/
theorem LeadsTo.of_append {front : Text} (h : (front ++ before).LeadsTo part) :
    before.LeadsTo part := by
  intro hfound
  refine h (hfound.trans ?_)
  rw [List.append_assoc]
  exact (List.suffix_append _ _).isInfix

theorem cut?_eq_none_iff (hpart : part ≠ []) : cut? part t = none ↔ ¬ part <:+: t := by
  constructor
  · intro h hfound
    have hself := cut?_eq_none_of_isInfix hpart hfound h
    rw [cut?_of_after? hpart (after?_eq_some_iff.2 (List.append_nil part).symm)] at hself
    cases hself
  · intro h
    cases hcut : cut? part t with
    | none => rfl
    | some found => exact absurd ⟨found.1, found.2, (cut?_eq_some hcut).symm⟩ h

theorem contains_eq_false_iff (hpart : part ≠ []) :
    t.contains part = false ↔ ¬ part <:+: t := by
  rw [contains, Option.isSome_eq_false_iff, Option.isNone_iff_eq_none, cut?_eq_none_iff hpart]

theorem cut?_of_leadsTo (hpart : part ≠ []) (h : before.LeadsTo part) (rest : Text) :
    cut? part (before ++ (part ++ rest)) = some (before, rest) := by
  induction before with
  | nil => exact cut?_of_after? hpart (after?_append part rest)
  | cons c cs ih =>
    have hlater : after? part (c :: (cs ++ (part ++ rest))) = none := by
      rw [after?_eq_none_iff]
      intro found heq
      -- what is read there ends before the part behind the text does
      have hwhole : c :: cs ++ part.dropLast <+: c :: (cs ++ (part ++ rest)) := by
        rw [← List.cons_append, List.prefix_append_right_inj]
        exact (List.dropLast_prefix part).trans (List.prefix_append _ _)
      have hshort : part.length ≤ (c :: cs ++ part.dropLast).length := by
        rw [List.length_append, List.length_cons, List.length_dropLast]
        omega
      exact h (List.prefix_of_prefix_length_le ⟨found, heq.symm⟩ hwhole hshort).isInfix
    have hrest : LeadsTo ([c] ++ cs) part := h
    rw [List.cons_append, cut?_cons_of_none _ _ hlater, ih hrest.of_append]
    rfl

theorem leadsTo_of_cut? (hpart : part ≠ []) (h : cut? part t = some (before, rest)) :
    before.LeadsTo part := by
  induction t generalizing before with
  | nil =>
    rw [cut?, if_neg hpart] at h
    cases h
  | cons c cs ih =>
    cases hafter : after? part (c :: cs) with
    | some found =>
      rw [cut?_cons_of_some c cs hafter] at h
      cases h
      exact LeadsTo.nil hpart
    | none =>
      rw [cut?_cons_of_none c cs hafter] at h
      obtain ⟨⟨inside, found⟩, hcut, heq⟩ := Option.map_eq_some_iff.1 h
      cases heq
      intro hfound
      rw [List.cons_append, List.infix_cons_iff] at hfound
      rcases hfound with hstarts | hfound
      · have hwhole : inside ++ part.dropLast <+: cs := by
          rw [cut?_eq_some hcut, List.append_assoc, List.prefix_append_right_inj]
          exact (List.dropLast_prefix part).trans (List.prefix_append _ _)
        obtain ⟨more, hmore⟩ := hstarts.trans (List.cons_prefix_cons.2 ⟨rfl, hwhole⟩)
        exact after?_eq_none_iff.1 hafter more hmore.symm
      · exact ih hcut hfound

/-- A text is cut at the first place where the part stands. -/
theorem cut?_eq_some_iff (hpart : part ≠ []) :
    cut? part t = some (before, rest) ↔ t = before ++ (part ++ rest) ∧ before.LeadsTo part := by
  constructor
  · intro h
    exact ⟨(cut?_eq_some h).trans (List.append_assoc ..), leadsTo_of_cut? hpart h⟩
  · rintro ⟨rfl, h⟩
    exact cut?_of_leadsTo hpart h rest

/-! ### Parts that overlap themselves -/

/-- A proper beginning of the part is also an end of it. -/
def OverlapsItself (part : Text) : Prop := ∃ n < part.length, 0 < n ∧ part.take n <:+ part

instance (part : Text) : Decidable part.OverlapsItself :=
  inferInstanceAs (Decidable (∃ n < part.length, _))

/-- Only a part that overlaps itself can start in a text that it does not stand in. -/
theorem LeadsTo.of_not_overlapsItself (hpart : ¬ part.OverlapsItself) (h : ¬ part <:+: t) :
    t.LeadsTo part := by
  have hne : part ≠ [] := by
    rintro rfl
    exact h List.nil_infix
  rintro ⟨front, behind, heq⟩
  rw [List.append_assoc, List.append_eq_append_iff] at heq
  rcases heq with ⟨start, rfl, heq⟩ | ⟨skipped, -, heq⟩
  · rw [List.append_eq_append_iff] at heq
    rcases heq with ⟨inside, rfl, -⟩ | ⟨border, hborder, hrest⟩
    · exact h ⟨front, inside, List.append_assoc ..⟩
    · -- the part begins in the text and ends behind it
      have hstarts : border <+: part.dropLast := ⟨behind, hrest.symm⟩
      have htake := List.prefix_iff_eq_take.1 (hstarts.trans (List.dropLast_prefix part))
      refine hpart ⟨border.length, ?_, ?_, htake ▸ ⟨start, hborder.symm⟩⟩
      · have := hstarts.length_le
        have := List.length_pos_iff.2 hne
        rw [List.length_dropLast] at *
        omega
      · rw [List.length_pos_iff]
        rintro rfl
        rw [List.append_nil] at hborder
        exact h (hborder ▸ (List.suffix_append front start).isInfix)
  · refine not_isInfix_dropLast hne ⟨skipped, behind, ?_⟩
    rw [heq, List.append_assoc]

/-! ### Parts without blanks -/

section Ink

variable (hink : ∀ c ∈ part, isBlank c = false) {blanks : Text}

include hink

theorem startsInk_of_forall : part.StartsInk := fun c hc => hink c (List.mem_of_mem_head? hc)

theorem isInfix_of_blanks_append (hpart : part ≠ []) (hblanks : ∀ c ∈ blanks, isBlank c = true)
    (h : part <:+: blanks ++ t) : part <:+: t := by
  induction blanks with
  | nil => exact h
  | cons c cs ih =>
    obtain ⟨hc, hcs⟩ := List.forall_mem_cons.1 hblanks
    rw [List.cons_append, List.infix_cons_iff] at h
    rcases h with ⟨behind, hstarts⟩ | h
    · have hnone := (startsInk_of_forall hink).after?_eq_none hpart hc (cs ++ t)
      exact absurd hstarts.symm (after?_eq_none_iff.1 hnone behind)
    · exact ih hcs h

theorem LeadsTo.blanks_append (hpart : part ≠ []) (hblanks : ∀ c ∈ blanks, isBlank c = true)
    (h : t.LeadsTo part) : (blanks ++ t).LeadsTo part := by
  rw [LeadsTo, List.append_assoc]
  exact fun hfound => h (isInfix_of_blanks_append hink hpart hblanks hfound)

/-- A part without blanks does not start in front of a blank and end behind it. -/
theorem LeadsTo.append_blanks (hpart : part ≠ []) (h : ¬ part <:+: t) (hne : blanks ≠ [])
    (hblanks : ∀ c ∈ blanks, isBlank c = true) : (t ++ blanks).LeadsTo part := by
  induction t with
  | nil =>
    rw [List.nil_append]
    have hnil := (LeadsTo.nil hpart).blanks_append hink hpart hblanks
    rwa [List.append_nil] at hnil
  | cons c cs ih =>
    have hrest := ih fun hfound => h (hfound.trans (List.suffix_cons c cs).isInfix)
    have hnone : after? part (c :: cs) = none :=
      after?_eq_none_iff.2 fun behind heq => h (heq ▸ (List.prefix_append part behind).isInfix)
    obtain ⟨blank, more, rfl⟩ := List.exists_cons_of_ne_nil hne
    have hblank : blank ∉ part := by
      intro hmem
      exact Bool.false_ne_true ((hink blank hmem).symm.trans (hblanks blank List.mem_cons_self))
    intro hfound
    rw [List.cons_append, List.cons_append, List.infix_cons_iff] at hfound
    rcases hfound with ⟨behind, hstarts⟩ | hfound
    · have hlater := after?_append_cons_of_none hnone hblank (more ++ part.dropLast)
      refine after?_eq_none_iff.1 hlater behind ?_
      rw [hstarts]
      simp
    · exact hrest hfound

end Ink

end Stencil.Text
