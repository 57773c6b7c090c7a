import Mathlib.Data.List.Chain
import Mathlib.Data.List.DropRight
import Stencil.Proofs.Lua.Position.Token
import Stencil.Proofs.Lua.Significance
import Stencil.Proofs.Text.Words

/-! Code as it reads without strings and comments.

`visible` is the code up to its last significant character, with a blank for every character of a
string or comment. What is hidden ends in a quotation mark or a bracket (`isChain_marked`), so a run
of other characters before a significant one is significant throughout (`significant_of_behind`): a
word that the code ends in is never read out of a string (`visible_of_endsWithWord`). -/
namespace Stencil.Lua

/-! ### Where strings and comments end -/

/-- A character that a string or comment with an end ends in. -/
def isHiddenEnd (c : Char) : Bool := ['\'', '"', ']'].contains c

theorem afterShort?_eq_some {quote : Char} {t rest : Text} (h : afterShort? quote t = some rest) :
    ∃ inside, t = inside ++ quote :: rest := by
  induction t using afterShort?.induct quote with
  | case1 => cases h
  | case2 =>
    rw [afterShort?, if_pos rfl] at h
    cases h
    exact ⟨[], rfl⟩
  | case3 c hquote =>
    rw [afterShort?, if_neg hquote] at h
    cases h
  | case4 e cs ih =>
    rw [afterShort?, if_pos rfl] at h
    obtain ⟨inside, rfl⟩ := ih h
    exact ⟨'\\' :: e :: inside, rfl⟩
  | case5 e cs hescape =>
    rw [afterShort?, if_neg hescape, if_pos rfl] at h
    cases h
    exact ⟨[], rfl⟩
  | case6 c e cs hescape hquote ih =>
    rw [afterShort?, if_neg hescape, if_neg hquote] at h
    obtain ⟨inside, heq⟩ := ih h
    exact ⟨c :: inside, by rw [heq]; rfl⟩

theorem afterLong?_eq_some {level : Nat} {t rest : Text} (h : afterLong? level t = some rest) :
    ∃ inside, t = inside ++ ']' :: rest := by
  obtain ⟨⟨before, after⟩, hcut, rfl⟩ := Option.map_eq_some_iff.1 h
  refine ⟨before ++ ']' :: Text.repeated '=' level, ?_⟩
  rw [Text.cut?_eq_some hcut, longClosing]
  simp

theorem isWordChar_of_isHiddenEnd {c : Char} (h : isHiddenEnd c = true) : isWordChar c = false := by
  simp only [isHiddenEnd, List.contains_iff_mem, List.mem_cons, List.not_mem_nil, or_false] at h
  rcases h with rfl | rfl | rfl
  all_goals decide

/-- The text before what is left ends as a string or comment does. -/
def EndsHidden (t rest : Text) : Prop := ∃ before c, t = before ++ c :: rest ∧ isHiddenEnd c = true

theorem EndsHidden.of_suffix {t u rest : Text} (h : EndsHidden u rest) (hu : u <:+ t) :
    EndsHidden t rest := by
  obtain ⟨before, c, rfl, hc⟩ := h
  obtain ⟨first, rfl⟩ := hu
  exact ⟨first ++ before, c, by simp, hc⟩

/-- What follows a string or comment follows its end. -/
theorem endsHidden_of_afterHidden? {t rest : Text} (h : afterHidden? t = some rest)
    (hrest : rest ≠ []) : EndsHidden t rest := by
  -- it is closed, or nothing would be left
  have hclosed : ∀ {after : Option Text}, some (after.getD []) = some rest → after = some rest := by
    intro after h
    cases after with
    | none => exact absurd (Option.some.inj h).symm hrest
    | some found => exact h
  have hshort : ∀ {quote cs}, isHiddenEnd quote = true →
      some ((afterShort? quote cs).getD []) = some rest → EndsHidden cs rest := by
    intro quote cs hquote h
    obtain ⟨inside, heq⟩ := afterShort?_eq_some (hclosed h)
    exact ⟨inside, quote, heq, hquote⟩
  have hlong : ∀ {level inside}, some ((afterLong? level inside).getD []) = some rest →
      EndsHidden inside rest := by
    intro level inside h
    obtain ⟨inner, heq⟩ := afterLong?_eq_some (hclosed h)
    exact ⟨inner, ']', heq, by decide⟩
  unfold afterHidden? at h
  split at h
  · exact (hshort (by decide) h).of_suffix (List.suffix_cons _ _)
  · exact (hshort (by decide) h).of_suffix (List.suffix_cons _ _)
  · split at h
    · next cs level inside hopening =>
      exact (hlong h).of_suffix (((longOpening?_suffix hopening).trans (List.tail_suffix _)).trans
        ((List.suffix_cons _ _).trans (List.suffix_cons _ _)))
    · exact absurd (Option.some.inj h).symm hrest
  · obtain ⟨⟨level, inside⟩, hopening, hinside⟩ := Option.map_eq_some_iff.1 h
    exact (hlong (congrArg some hinside)).of_suffix
      ((longOpening?_suffix hopening).trans (List.tail_suffix _))

theorem getElem?_hiddenLength {t : Text} {n : Nat} (h : hiddenLength t = n + 1)
    (hn : n + 1 < t.length) : ∃ c, t[n]? = some c ∧ isHiddenEnd c = true := by
  unfold hiddenLength at h
  split at h
  · next rest hafter =>
    have hrest : rest ≠ [] := by
      rintro rfl
      rw [List.length_nil] at h
      omega
    obtain ⟨before, c, rfl, hc⟩ := endsHidden_of_afterHidden? hafter hrest
    refine ⟨c, ?_, hc⟩
    rw [List.length_append, List.length_cons] at h
    rw [show n = before.length by omega, List.getElem?_append_right (Nat.le_refl _), Nat.sub_self]
    rfl
  · cases h

/-! ### Marks side by side -/

/-- A hidden character right before a significant one is the end of a string or comment. -/
def Follows (p q : Char × Bool) : Prop := p.2 = false → q.2 = true → isHiddenEnd p.1 = true

theorem isChain_zip_marks (t : Text) (hidden : Nat)
    (h : ∀ n, hidden = n + 1 → n + 1 < t.length → ∃ c, t[n]? = some c ∧ isHiddenEnd c = true) :
    (t.zip (marks hidden t)).IsChain Follows := by
  induction t generalizing hidden with
  | nil => exact .nil
  | cons c cs ih =>
    have hstep : ∀ n, (∀ m, n + 1 = m + 1 → m + 1 < (c :: cs).length →
        ∃ d, (c :: cs)[m]? = some d ∧ isHiddenEnd d = true) →
        ((c, false) :: cs.zip (marks n cs)).IsChain Follows := by
      intro n hn
      have hcs := ih n fun m hm hlt => by
        subst hm
        exact hn (m + 1) rfl (Nat.succ_lt_succ hlt)
      cases cs with
      | nil => exact .singleton _
      | cons d ds =>
        cases n with
        | zero =>
          obtain ⟨e, he, hend⟩ := hn 0 rfl (by simp)
          cases he
          cases hmarks : marks 0 (d :: ds) with
          | nil => exact .singleton _
          | cons mark rest =>
            rw [hmarks] at hcs
            exact .cons_cons (fun _ _ => hend) hcs
        | succ n => exact .cons_cons (fun _ hq => absurd hq Bool.false_ne_true) hcs
    cases hidden with
    | succ n => exact hstep n h
    | zero =>
      unfold marks
      split
      · have hcs := ih 0 nofun
        cases hzip : cs.zip (marks 0 cs) with
        | nil =>
          rw [List.zip_cons_cons, hzip]
          exact .singleton _
        | cons q rest =>
          rw [List.zip_cons_cons, hzip]
          rw [hzip] at hcs
          exact .cons_cons (fun hp => absurd hp.symm Bool.false_ne_true) hcs
      · next n hlength =>
        exact hstep n fun m hm hlt => getElem?_hiddenLength (hlength.trans hm) hlt

theorem isChain_marked (code : Text) : (marked code).IsChain Follows :=
  isChain_zip_marks code 0 nofun

variable {ms before run rest : List (Char × Bool)} {c : Char}

/-- What stands before a significant character and holds no end of a string or comment is
significant. -/
theorem significant_of_behind (h : (run ++ (c, true) :: rest).IsChain Follows)
    (hrun : ∀ m ∈ run, isHiddenEnd m.1 = false) : ∀ m ∈ run, m.2 = true := by
  induction run with
  | nil => exact fun m hm => nomatch hm
  | cons m ms ih =>
    obtain ⟨hnext, hchain⟩ := List.isChain_cons.1 h
    obtain ⟨hm, hms⟩ := List.forall_mem_cons.1 hrun
    have hsignificant := ih hchain hms
    have hbehind : ∃ q ∈ (ms ++ (c, true) :: rest).head?, q.2 = true := by
      cases ms with
      | nil => exact ⟨(c, true), rfl, rfl⟩
      | cons q qs => exact ⟨q, rfl, hsignificant q List.mem_cons_self⟩
    obtain ⟨q, hq, hqmark⟩ := hbehind
    have hmark : m.2 = true := by
      cases hmark : m.2 with
      | true => rfl
      | false => exact absurd (hnext q hq hmark hqmark) (by simp [hm])
    exact List.forall_mem_cons.2 ⟨hmark, hsignificant⟩

/-! ### The code without what is hidden -/

/-- How a marked character reads. -/
def shown : Char × Bool → Char
  | (c, significant) => if significant then c else ' '

/-- The code up to its last significant character that is not an ASCII blank, with its marks. -/
def ending (code : Text) : List (Char × Bool) :=
  (marked code).rdropWhile fun (c, significant) => !significant || isAsciiBlank c

/-- The code up to the same character, with a blank for every hidden one. -/
def visible (code : Text) : Text := (ending code).map shown

theorem map_fst_ending (code : Text) : (ending code).map Prod.fst = significantPrefix code := rfl

theorem isChain_ending (code : Text) : (ending code).IsChain Follows := by
  obtain ⟨trailing, hmarked⟩ : ending code <+: marked code := List.rdropWhile_prefix _ _
  have hchain := isChain_marked code
  rw [← hmarked] at hchain
  exact hchain.left_of_append

theorem significant_of_mem_getLast?_ending {code : Text} {m : Char × Bool}
    (h : m ∈ (ending code).getLast?) : m.2 = true := by
  obtain ⟨hne, hlast⟩ := List.mem_getLast?_eq_getLast h
  have hnot := List.rdropWhile_last_not _ (marked code) hne
  change ¬((!((ending code).getLast hne).2 || isAsciiBlank ((ending code).getLast hne).1) = true)
    at hnot
  rw [← hlast] at hnot
  cases hmark : m.2 with
  | true => rfl
  | false => simp [hmark] at hnot

theorem map_shown_of_significant (h : ∀ m ∈ ms, m.2 = true) :
    ms.map shown = ms.map Prod.fst := by
  refine List.map_congr_left fun m hm => ?_
  obtain ⟨c, significant⟩ := m
  cases h _ hm
  rfl

/-- A word ends before a significant character as it does without what is hidden. -/
theorem endsOutsideWord_iff (h : (before ++ (c, true) :: rest).IsChain Follows) :
    Text.EndsOutsideWord (before.map shown) ↔ Text.EndsOutsideWord (before.map Prod.fst) := by
  unfold Text.EndsOutsideWord
  rcases List.eq_nil_or_concat before with rfl | ⟨first, m, rfl⟩
  · rfl
  · rw [List.concat_eq_append] at h ⊢
    obtain ⟨d, significant⟩ := m
    have hlast : Follows (d, significant) (c, true) := by
      rw [List.append_assoc] at h
      exact (List.isChain_cons.1 (List.IsChain.right_of_append h)).1 _ rfl
    simp only [List.map_append, List.map_singleton, List.getLast?_concat]
    cases significant with
    | true => rfl
    | false =>
      have hend : isWordChar d = false := isWordChar_of_isHiddenEnd (hlast rfl rfl)
      exact iff_of_true (by rintro _ ⟨⟩; rfl) (by rintro _ ⟨⟩; exact hend)

/-- A word that the code ends in is seen. -/
theorem visible_of_endsWithWord {code word : Text}
    (h : (significantPrefix code).endsWithWord word = true) (hne : word ≠ [])
    (hword : ∀ c ∈ word, isHiddenEnd c = false) :
    ∃ before, visible code = before ++ word ∧ before.EndsOutsideWord := by
  obtain ⟨_, heq, hbefore⟩ := Text.endsWithWord_iff.1 h
  rw [← map_fst_ending] at heq
  obtain ⟨before, run, hending, rfl, rfl⟩ := List.map_eq_append_iff.1 heq
  have hchain := isChain_ending code
  rw [hending] at hchain
  have hsignificant : ∀ m ∈ run, m.2 = true := by
    rcases List.eq_nil_or_concat run with rfl | ⟨first, last, rfl⟩
    · exact absurd rfl hne
    · rw [List.concat_eq_append] at hending hword hchain ⊢
      have hmem : last ∈ (ending code).getLast? := by
        rw [hending, ← List.append_assoc, List.getLast?_concat]
        rfl
      have hlast := significant_of_mem_getLast?_ending hmem
      obtain ⟨c, _⟩ := last
      cases hlast
      have hfirst : ∀ m ∈ first, isHiddenEnd m.1 = false := fun m hm =>
        hword _ (List.mem_map_of_mem (List.mem_append_left _ hm))
      intro m hm
      rcases List.mem_append.1 hm with hm | hm
      · exact significant_of_behind hchain.right_of_append hfirst m hm
      · rw [List.mem_singleton.1 hm]
  refine ⟨before.map shown, ?_, ?_⟩
  · rw [visible, hending, List.map_append, map_shown_of_significant hsignificant]
  · cases run with
    | nil => exact absurd rfl hne
    | cons m rest =>
      obtain ⟨c, _⟩ := m
      cases hsignificant _ List.mem_cons_self
      exact (endsOutsideWord_iff hchain).2 hbefore

end Stencil.Lua
