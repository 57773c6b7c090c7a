import Stencil.Proofs.Lua.Segments

/-! Text that is complete, and text that ends what stands in front of it.

Text is complete if every string and comment in it is closed, so that none reaches into what follows
(`IsComplete`). What stands in front of a parenthesis in code that is no part of a string or comment
is of this kind (`IsCode.isComplete`). Such a parenthesis also ends every token in front of it, and
so does a blank (`Ends`). -/
namespace Stencil.Lua

/-! ### Complete text -/

/-- Every string and comment of the text is closed. -/
inductive IsComplete : Text → Prop
  | nil : IsComplete []
  | char {c : Char} {t : Text} : ¬ BeginsHidden (c :: t) → IsComplete t → IsComplete (c :: t)
  | hidden {opening inside closing t : Text} : Encloses opening inside closing → IsComplete t →
    IsComplete (opening ++ (inside ++ (closing ++ t)))

section Complete

variable {c : Char} {t u first : Text}

theorem Encloses.beginsHidden {opening inside closing : Text}
    (h : Encloses opening inside closing) (t : Text) :
    BeginsHidden (opening ++ (inside ++ (closing ++ t))) := by
  by_contra hnot
  rw [← afterHidden?_eq_none_iff, h.afterHidden?] at hnot
  cases hnot

theorem IsComplete.of_not_beginsHidden (h : IsComplete (c :: t)) (hc : ¬ BeginsHidden (c :: t)) :
    IsComplete t := by
  generalize hwhole : c :: t = whole at h hc
  cases h with
  | nil => cases hwhole
  | char _ h =>
    cases hwhole
    exact h
  | hidden hencloses => exact absurd (hencloses.beginsHidden _) hc

theorem not_beginsHidden_of_isPlain (hc : isPlain c = true) (t : Text) : ¬ BeginsHidden (c :: t) :=
  afterHidden?_eq_none_iff.1 (afterHidden?_of_isPlain hc t)

theorem isPlain_of_isGap {c : Char} (h : Scans.isGap c = true) : isPlain c = true := by
  have hall : [' ', '\t', '\x0B', '\x0C', '\n', '\r'].all isPlain = true := by decide
  exact List.all_eq_true.1 hall c (List.contains_iff_mem.1 h)

theorem IsComplete.of_isPlain_append (h : IsComplete (first ++ t))
    (hplain : ∀ c ∈ first, isPlain c = true) : IsComplete t := by
  induction first with
  | nil => exact h
  | cons c cs ih =>
    have hc := not_beginsHidden_of_isPlain (hplain c List.mem_cons_self) (cs ++ t)
    exact ih (h.of_not_beginsHidden hc) fun d hd => hplain d (List.mem_cons_of_mem _ hd)

theorem IsComplete.isPlain_append (first : Text) (hplain : ∀ c ∈ first, isPlain c = true)
    (h : IsComplete t) : IsComplete (first ++ t) := by
  induction first with
  | nil => exact h
  | cons c cs ih =>
    have hc := not_beginsHidden_of_isPlain (hplain c List.mem_cons_self) (cs ++ t)
    exact .char hc (ih (fun d hd => hplain d (List.mem_cons_of_mem _ hd)))

/-- What can close a string or a comment. -/
def isCloser (c : Char) : Bool := ['\'', '"', ']'].contains c

theorem Encloses.exists_closer {opening inside closing : Text}
    (h : Encloses opening inside closing) :
    ∃ before c, closing = before ++ [c] ∧ isCloser c = true := by
  cases h with
  | short hquote => exact ⟨[], _, rfl, by rcases hquote with rfl | rfl <;> rfl⟩
  | long => exact ⟨']' :: Text.repeated '=' _, ']', rfl, rfl⟩
  | comment => exact ⟨']' :: Text.repeated '=' _, ']', rfl, rfl⟩

/-- Text stays complete without an end in which nothing is closed. -/
theorem IsComplete.of_append (h : IsComplete (t ++ u)) (hu : ∀ c ∈ u, isCloser c = false) :
    IsComplete t := by
  generalize hwhole : t ++ u = whole at h
  induction h generalizing t with
  | nil =>
    rw [(List.append_eq_nil_iff.1 hwhole).1]
    exact .nil
  | @char c rest hc _ ih =>
    cases t with
    | nil => exact .nil
    | cons d t =>
      obtain ⟨rfl, hrest⟩ := List.cons.inj hwhole
      refine .char (fun hbegins => hc ?_) (ih hrest)
      rw [← hrest]
      exact hbegins.append u
  | @hidden opening inside closing rest hencloses _ ih =>
    obtain ⟨before, c, rfl, hc⟩ := hencloses.exists_closer
    have hsplit : t ++ u = (opening ++ (inside ++ (before ++ [c]))) ++ rest := by
      rw [hwhole]
      simp only [List.append_assoc]
    rcases List.append_eq_append_iff.1 hsplit with ⟨more, hmore, hrest⟩ | ⟨more, rfl, hrest⟩
    · rcases List.eq_nil_or_concat more with rfl | ⟨more, d, rfl⟩
      · have hcomplete := IsComplete.hidden hencloses IsComplete.nil
        rw [List.append_nil] at hmore
        rw [← hmore]
        simpa only [List.append_assoc, List.append_nil] using hcomplete
      · -- the end would begin in the string or comment, and hold what closes it
        have hlast := congrArg List.getLast? hmore
        simp only [List.concat_eq_append, ← List.append_assoc, List.getLast?_concat] at hlast
        obtain rfl := Option.some.inj hlast
        rw [hu c (by rw [hrest]; simp)] at hc
        cases hc
    · have hcomplete := IsComplete.hidden hencloses (ih hrest.symm)
      simpa only [List.append_assoc] using hcomplete

theorem IsCode.isComplete {before after : List Segment}
    (h : IsCode (before ++ .char c :: after)) : IsComplete (segmentsText before) := by
  induction before with
  | nil => exact .nil
  | cons segment before ih =>
    generalize hlater : before ++ .char c :: after = later at h ih
    rw [List.cons_append, hlater] at h
    cases h with
    | char hc hbefore =>
      refine .char (fun hbegins => hc ?_) (ih hbefore)
      rw [← hlater, segmentsText_append]
      exact hbegins.append _
    | hidden hfirst hbefore =>
      have hcomplete := IsComplete.hidden hfirst (ih hbefore)
      rw [segmentsText_cons, Segment.text]
      simpa only [List.append_assoc] using hcomplete
    | unclosed => exact absurd hlater (List.append_ne_nil_of_right_ne_nil _ (List.cons_ne_nil _ _))

end Complete

/-! ### What ends every token -/

/-- The closing parenthesis and the blanks. -/
def enders : List Char := [')', ' ', '\t', '\x0B', '\x0C', '\n', '\r']

theorem mem_enders_of_isGap {c : Char} (h : Scans.isGap c = true) : c ∈ enders :=
  List.mem_cons_of_mem ')' (List.contains_iff_mem.1 h)

/-- The text is empty, or starts with a closing parenthesis or a blank. -/
def Ends (u : Text) : Prop := ∀ c ∈ u.head?, c ∈ enders

namespace Ends

variable {u : Text}

theorem nil : Ends [] := nofun

theorem closeParen (rest : Text) : Ends (')' :: rest) := by
  rintro c ⟨⟩
  exact List.mem_cons_self

/-- A class that holds neither the parenthesis nor a blank does not hold what the text starts
with. -/
theorem not_mem (hu : Ends u) {p : Char → Bool} (hp : enders.any p = false) :
    ∀ c ∈ u.head?, p c = false := fun c hc =>
  Bool.eq_false_of_not_eq_true (List.any_eq_false.1 hp c (hu c hc))

theorem endsNumeral (hu : Ends u) : ∀ c ∈ u.head?, endsNumeral c = true := by
  intro c hc
  have := hu.not_mem (p := fun c => !Lua.endsNumeral c) (by decide) c hc
  simpa using this

/-- A part whose other characters are neither the parenthesis nor blanks does not go on in the
text. -/
theorem isPrefix (hu : Ends u) {part cs : Text} {c : Char}
    (hpart : ∀ d ∈ part.tail, d ∉ enders) (h : part <+: c :: cs ++ u) : part <+: c :: cs := by
  refine (Text.isPrefix_or_reaches h).resolve_right ?_
  rintro ⟨d, hd, hmem⟩
  rw [List.length_cons, ← List.drop_tail] at hmem
  exact hpart d (List.mem_of_mem_drop hmem) (hu d hd)

/-- The text does not say what a character in front of it is not in. -/
theorem any_head? (hu : Ends u) {p : Char → Bool} (hp : enders.any p = false) (t : Text) :
    (t ++ u).head?.any p = t.head?.any p := by
  cases t with
  | cons c cs => rfl
  | nil =>
    cases u with
    | nil => rfl
    | cons c cs => exact hu.not_mem hp c rfl

theorem beginsHidden (hu : Ends u) {cs : Text} {c : Char} (h : BeginsHidden (c :: cs ++ u)) :
    BeginsHidden (c :: cs) := by
  rw [beginsHidden_iff] at h ⊢
  refine h.imp id (Or.imp ?_ (hu.isPrefix ?_))
  · rintro ⟨level, hlevel⟩
    refine ⟨level, hu.isPrefix (fun d hd => ?_) hlevel⟩
    rcases List.mem_append.1 hd with hsign | hbracket
    · rw [List.eq_of_mem_replicate hsign]
      decide
    · rw [List.mem_singleton.1 hbracket]
      decide
  · intro d hd
    rw [List.mem_singleton.1 hd]
    decide

end Ends

end Stencil.Lua
