import Stencil.Text.Basic

/-! Where a part stands in a text.

What is found in a text is found there whatever follows it (`after?_append_of_some`,
`cut?_append`). The pieces of a text are known from its first separator on (`splitOn_append`), and
are the text when they are put together again (`join_splitOn`). -/
namespace Stencil.Text

variable {part t before rest : Text}

/-! ### Parts -/

@[simp] theorem after?_nil (t : Text) : after? [] t = some t := rfl

theorem after?_cons_self (p : Char) (ps cs : Text) : after? (p :: ps) (p :: cs) = after? ps cs := by
  rw [after?, if_pos rfl]

theorem after?_cons_of_ne {p c : Char} (h : p ≠ c) (ps cs : Text) :
    after? (p :: ps) (c :: cs) = none := by
  rw [after?, if_neg h]

theorem after?_eq_none_iff : after? part t = none ↔ ∀ rest, t ≠ part ++ rest := by
  rw [Option.eq_none_iff_forall_ne_some]
  exact forall_congr' fun rest => not_congr after?_eq_some_iff

/-- Two parts, one after the other. -/
theorem after?_append_part (first second t : Text) :
    after? (first ++ second) t = (after? first t).bind (after? second) := by
  induction first generalizing t with
  | nil => rfl
  | cons p ps ih =>
    cases t with
    | nil => rfl
    | cons c cs =>
      by_cases h : p = c
      · rw [List.cons_append, h, after?_cons_self, after?_cons_self, ih]
      · rw [List.cons_append, after?_cons_of_ne h, after?_cons_of_ne h]
        rfl

theorem after?_append_of_some (h : after? part t = some rest) (more : Text) :
    after? part (t ++ more) = some (rest ++ more) := by
  rw [after?_eq_some_iff] at h ⊢
  rw [h, List.append_assoc]

/-- A text that is long enough decides by itself whether it starts with a part. -/
theorem after?_append_of_none (h : after? part t = none) (hlength : part.length ≤ t.length)
    (more : Text) : after? part (t ++ more) = none := by
  rw [after?_eq_none_iff] at h ⊢
  intro rest heq
  obtain ⟨inside, hinside⟩ : part <+: t :=
    List.prefix_of_prefix_length_le ⟨rest, heq.symm⟩ (List.prefix_append t more) hlength
  exact h inside hinside.symm

/-- A part that a text starts with only together with what follows has the first character of that
in it. -/
theorem isPrefix_or_reaches {more : Text} (h : part <+: t ++ more) :
    part <+: t ∨ ∃ c ∈ more.head?, c ∈ part.drop t.length := by
  rcases List.prefix_or_prefix_of_prefix h (List.prefix_append t more) with hin | ⟨inside, rfl⟩
  · exact .inl hin
  · cases inside with
    | nil => exact .inl (by simp)
    | cons c cs =>
      obtain ⟨behind, rfl⟩ := (List.prefix_append_right_inj _).1 h
      exact .inr ⟨c, rfl, by rw [List.drop_left]; exact List.mem_cons_self⟩

/-- What is cut out of a text is cut out of it whatever follows. -/
theorem cut?_append (h : cut? part t = some (before, rest)) (more : Text) :
    cut? part (t ++ more) = some (before, rest ++ more) := by
  induction t generalizing before with
  | nil =>
    unfold cut? at h
    split at h
    · next hpart =>
      obtain ⟨rfl, rfl⟩ : [] = before ∧ [] = rest := by simpa using h
      rw [hpart]
      cases more <;> rfl
    · cases h
  | cons c cs ih =>
    have hlength := congrArg List.length (cut?_eq_some h)
    rw [List.length_append, List.length_append] at hlength
    unfold cut? at h
    rw [List.cons_append, cut?, ← List.cons_append]
    cases hafter : after? part (c :: cs) with
    | some found =>
      rw [hafter] at h
      obtain ⟨rfl, rfl⟩ : [] = before ∧ found = rest := by simpa using h
      rw [after?_append_of_some hafter]
    | none =>
      rw [hafter] at h
      rw [after?_append_of_none hafter (by omega)]
      obtain ⟨⟨inside, found⟩, hcut, heq⟩ := Option.map_eq_some_iff.1 h
      obtain ⟨rfl, rfl⟩ : c :: inside = before ∧ found = rest := by simpa using heq
      dsimp only
      rw [ih hcut]
      rfl

theorem cut?_cons_of_some (c : Char) (cs : Text) (h : after? part (c :: cs) = some rest) :
    cut? part (c :: cs) = some ([], rest) := by
  rw [cut?, h]

theorem cut?_cons_of_none (c : Char) (cs : Text) (h : after? part (c :: cs) = none) :
    cut? part (c :: cs) = (cut? part cs).map fun (before, rest) => (c :: before, rest) := by
  rw [cut?, h]

/-- A part is not found across a character that is not in it. -/
theorem after?_append_cons_of_none {c : Char} (h : after? part t = none) (hc : c ∉ part)
    (more : Text) : after? part (t ++ c :: more) = none := by
  rw [after?_eq_none_iff] at h ⊢
  intro rest heq
  have hprefix : part <+: t ++ c :: more := ⟨rest, heq.symm⟩
  by_cases hlength : part.length ≤ t.length
  · obtain ⟨inside, hinside⟩ :=
      List.prefix_of_prefix_length_le hprefix (List.prefix_append t _) hlength
    exact h inside hinside.symm
  · have hsplit : t ++ c :: more = (t ++ [c]) ++ more := by simp
    have hlong : t ++ [c] <+: part := by
      refine List.prefix_of_prefix_length_le ⟨more, hsplit.symm⟩ hprefix ?_
      rw [List.length_append, List.length_singleton]
      omega
    exact hc (hlong.subset (List.mem_append_right _ (List.mem_singleton_self c)))

theorem after?_of_head_ne {c : Char} (hpart : part ≠ []) (h : ∀ p ∈ part.head?, p ≠ c)
    (cs : Text) : after? part (c :: cs) = none := by
  cases part with
  | nil => exact absurd rfl hpart
  | cons p ps => exact after?_cons_of_ne (h p rfl) ps cs

/-- A text without the first character of a part stays in front of where the part is found. -/
theorem cut?_append_of_not_mem {c : Char} {part before : Text} (h : c ∉ before) (t : Text) :
    cut? (c :: part) (before ++ t) =
      (cut? (c :: part) t).map fun (inside, rest) => (before ++ inside, rest) := by
  induction before with
  | nil => exact Option.map_id'.symm
  | cons d ds ih =>
    obtain ⟨hd, hds⟩ := not_or.1 (mt List.mem_cons.2 h)
    have hafter : after? (c :: part) (d :: (ds ++ t)) = none :=
      after?_of_head_ne (List.cons_ne_nil _ _) (fun p hp => by cases hp; exact hd) _
    rw [List.cons_append, cut?_cons_of_none _ _ hafter, ih hds, Option.map_map]
    rfl

theorem cut?_of_after? (hpart : part ≠ []) (h : after? part t = some rest) :
    cut? part t = some ([], rest) := by
  cases t with
  | nil =>
    cases part with
    | nil => exact absurd rfl hpart
    | cons p ps => cases h
  | cons c cs => exact cut?_cons_of_some c cs h

/-- What is not found in a text is not found in what the text ends in. -/
theorem cut?_eq_none_of_append (hpart : part ≠ []) (before : Text) {t : Text}
    (h : cut? part (before ++ t) = none) : cut? part t = none := by
  induction before with
  | nil => exact h
  | cons c cs ih =>
    cases hafter : after? part (c :: (cs ++ t)) with
    | some rest =>
      rw [List.cons_append, cut?_of_after? hpart hafter] at h
      cases h
    | none =>
      rw [List.cons_append, cut?_cons_of_none _ _ hafter, Option.map_eq_none_iff] at h
      exact ih h

/-- What is not found in a text is not found in what stands in the text. -/
theorem cut?_eq_none_of_isInfix (hpart : part ≠ []) {inside : Text} (hinside : inside <:+: t)
    (h : cut? part t = none) : cut? part inside = none := by
  obtain ⟨before, more, rfl⟩ := hinside
  rw [List.append_assoc] at h
  have hmore := cut?_eq_none_of_append hpart _ h
  cases hcut : cut? part inside with
  | none => rfl
  | some found =>
    exact absurd ((cut?_append hcut more).symm.trans hmore) (Option.some_ne_none _)

/-- A part that has a character which is not in the text is not found. -/
theorem cut?_eq_none_of_not_mem {p : Char} (hp : p ∈ part) (h : p ∉ t) : cut? part t = none := by
  cases hcut : cut? part t with
  | none => rfl
  | some found =>
    obtain ⟨before, rest⟩ := found
    refine absurd ?_ h
    rw [cut?_eq_some hcut]
    exact List.mem_append_left _ (List.mem_append_right _ hp)

theorem before?_of_getLast?_ne (hpart : part ≠ []) (h : t.getLast? ≠ part.getLast?) :
    before? part t = none := by
  cases hbefore : before? part t with
  | none => rfl
  | some rest =>
    obtain ⟨c, hc⟩ := Option.ne_none_iff_exists'.1 (mt List.getLast?_eq_none_iff.1 hpart)
    rw [before?_eq_some_iff] at hbefore
    refine absurd ?_ h
    rw [hbefore, List.getLast?_append, hc]
    rfl

/-! ### Pieces -/

section Pieces

variable {sep : Char} {piece : Text}

theorem splitOn_of_not_mem (h : sep ∉ piece) : splitOn sep piece = [piece] := by
  induction piece with
  | nil => rfl
  | cons c cs ih =>
    rw [List.mem_cons, not_or] at h
    rw [splitOn, if_neg (Ne.symm h.1), ih h.2]

theorem splitOn_append (h : sep ∉ piece) (rest : Text) :
    splitOn sep (piece ++ sep :: rest) = piece :: splitOn sep rest := by
  induction piece with
  | nil => rw [List.nil_append, splitOn, if_pos rfl]
  | cons c cs ih =>
    rw [List.mem_cons, not_or] at h
    rw [List.cons_append, splitOn, if_neg (Ne.symm h.1), ih h.2]

theorem splitOn_ne_nil (sep : Char) (t : Text) : splitOn sep t ≠ [] := by
  cases t with
  | nil => exact List.cons_ne_nil _ _
  | cons c cs =>
    unfold splitOn
    split
    · exact List.cons_ne_nil _ _
    · split
      · exact List.cons_ne_nil _ _
      · exact List.cons_ne_nil _ _

theorem not_mem_of_mem_splitOn {t : Text} (h : piece ∈ splitOn sep t) :
    sep ∉ piece := by
  induction t generalizing piece with
  | nil =>
    rw [List.mem_singleton.1 h]
    exact List.not_mem_nil
  | cons c cs ih =>
    unfold splitOn at h
    split at h
    · rcases List.mem_cons.1 h with rfl | h
      · exact List.not_mem_nil
      · exact ih h
    · next hc =>
      split at h
      · next hnil => exact absurd hnil (splitOn_ne_nil sep cs)
      · next first rest hsplit =>
        rcases List.mem_cons.1 h with rfl | h
        · exact List.not_mem_cons_of_ne_of_not_mem (Ne.symm hc)
            (ih (hsplit ▸ List.mem_cons_self))
        · exact ih (hsplit ▸ List.mem_cons_of_mem _ h)

theorem splitOn_cons_of_ne {c : Char} (h : c ≠ sep) (cs : Text) :
    ∃ piece pieces, splitOn sep cs = piece :: pieces ∧
      splitOn sep (c :: cs) = (c :: piece) :: pieces := by
  obtain ⟨piece, pieces, hpieces⟩ := List.exists_cons_of_ne_nil (splitOn_ne_nil sep cs)
  refine ⟨piece, pieces, hpieces, ?_⟩
  rw [splitOn, if_neg h, hpieces]

theorem join_cons (sep t : Text) {rest : List Text} (h : rest ≠ []) :
    join sep (t :: rest) = t ++ (sep ++ join sep rest) := by
  rw [join, List.append_assoc]
  exact h

theorem join_cons_eq (sep t : Text) (rest : List Text) :
    join sep (t :: rest) = t ++ (rest.map (sep ++ ·)).flatten := by
  induction rest generalizing t with
  | nil => exact (List.append_nil t).symm
  | cons next others ih =>
    rw [join_cons _ _ (List.cons_ne_nil next others), ih, List.map_cons, List.flatten_cons,
      List.append_assoc]

/-- Where a text stands in what it is put together to. -/
theorem join_append_cons (sep : Text) (before : List Text) (t : Text) (after : List Text) :
    join sep (before ++ t :: after) =
      (before.map (· ++ sep)).flatten ++ (t ++ (after.map (sep ++ ·)).flatten) := by
  induction before with
  | nil => exact join_cons_eq sep t after
  | cons first rest ih =>
    rw [List.cons_append, join_cons _ _ (List.append_ne_nil_of_right_ne_nil _ (List.cons_ne_nil _ _)),
      ih, List.map_cons, List.flatten_cons, List.append_assoc, List.append_assoc]

/-- The pieces put together again. -/
theorem join_splitOn (sep : Char) (t : Text) : join [sep] (splitOn sep t) = t := by
  induction t with
  | nil => rfl
  | cons c cs ih =>
    by_cases h : c = sep
    · rw [splitOn, if_pos h, join_cons _ _ (splitOn_ne_nil sep cs), ih, h]
      rfl
    · obtain ⟨piece, pieces, hpieces, hcons⟩ := splitOn_cons_of_ne h cs
      rw [hpieces] at ih
      rw [hcons]
      cases pieces with
      | nil => exact congrArg (c :: ·) ih
      | cons next others =>
        rw [join_cons _ _ (List.cons_ne_nil next others)] at ih ⊢
        exact congrArg (c :: ·) ih

theorem mem_of_mem_splitOn {sep : Char} {t piece : Text} (h : piece ∈ splitOn sep t) {c : Char}
    (hc : c ∈ piece) : c ∈ t := by
  obtain ⟨before, after, hsplit⟩ := List.append_of_mem h
  rw [← join_splitOn sep t, hsplit, join_append_cons]
  simp [hc]

theorem splitOn_join {pieces : List Text} (hne : pieces ≠ [])
    (h : ∀ piece ∈ pieces, sep ∉ piece) : splitOn sep (join [sep] pieces) = pieces := by
  induction pieces with
  | nil => exact absurd rfl hne
  | cons piece rest ih =>
    obtain ⟨hpiece, hrest⟩ := List.forall_mem_cons.1 h
    cases rest with
    | nil => exact splitOn_of_not_mem hpiece
    | cons next others =>
      rw [join_cons _ _ (List.cons_ne_nil next others), List.singleton_append,
        splitOn_append hpiece, ih (List.cons_ne_nil _ _) hrest]

theorem isPrefix_join (sep t : Text) (rest : List Text) : t <+: join sep (t :: rest) := by
  cases rest with
  | nil => exact List.prefix_rfl
  | cons next others => exact ⟨sep ++ join sep (next :: others), (List.append_assoc ..).symm⟩

end Pieces

/-! ### Classes of characters -/

/-- What a class of characters takes off the front does not reach into a text that starts with
another character. -/
theorem span_append {p : Char → Bool} (t : Text) {rest : Text}
    (hrest : ∀ c ∈ rest.head?, p c = false) :
    (t ++ rest).takeWhile p = t.takeWhile p ∧ (t ++ rest).dropWhile p = t.dropWhile p ++ rest := by
  induction t with
  | nil =>
    cases rest with
    | nil => exact ⟨rfl, rfl⟩
    | cons c cs =>
      have hc : ¬ p c = true := by rw [hrest c rfl]; exact Bool.false_ne_true
      rw [List.nil_append, List.takeWhile_cons_of_neg hc, List.dropWhile_cons_of_neg hc]
      exact ⟨rfl, rfl⟩
  | cons d ds ih =>
    rw [List.cons_append]
    by_cases hd : p d = true
    · rw [List.takeWhile_cons_of_pos hd, List.takeWhile_cons_of_pos hd,
        List.dropWhile_cons_of_pos hd, List.dropWhile_cons_of_pos hd, ih.1, ih.2]
      exact ⟨rfl, rfl⟩
    · rw [List.takeWhile_cons_of_neg hd, List.takeWhile_cons_of_neg hd,
        List.dropWhile_cons_of_neg hd, List.dropWhile_cons_of_neg hd]
      exact ⟨rfl, rfl⟩

/-- What a class of characters takes off the front. -/
theorem span_of_all {p : Char → Bool} {t rest : Text} (ht : ∀ c ∈ t, p c = true)
    (hrest : ∀ c ∈ rest.head?, p c = false) :
    (t ++ rest).takeWhile p = t ∧ (t ++ rest).dropWhile p = rest := by
  obtain ⟨htake, hdrop⟩ := span_append [] hrest
  have hnone : rest.takeWhile p = [] := htake
  rw [List.takeWhile_append_of_pos ht, List.dropWhile_append_of_pos ht, hnone, List.append_nil]
  exact ⟨rfl, hdrop⟩

/-- What a class of characters takes off the end. -/
theorem dropEndWhile_append {p : Char → Bool} {t rest : Text}
    (ht : ∀ c ∈ t.getLast?, p c = false) (hrest : ∀ c ∈ rest, p c = true) :
    (t ++ rest).dropEndWhile p = t := by
  have hreverse : ∀ c ∈ rest.reverse, p c = true := fun c hc => hrest c (List.mem_reverse.1 hc)
  have hhead : ∀ c ∈ t.reverse.head?, p c = false := by
    rw [List.head?_reverse]
    exact ht
  rw [dropEndWhile, List.reverse_append, (span_of_all hreverse hhead).2, List.reverse_reverse]

theorem exists_dropEndWhile (p : Char → Bool) (t : Text) :
    ∃ rest, t = t.dropEndWhile p ++ rest ∧ (∀ c ∈ rest, p c = true) ∧
      ∀ c ∈ (t.dropEndWhile p).getLast?, p c = false := by
  refine ⟨(t.reverse.takeWhile p).reverse, ?_, fun c hc => ?_, fun c hc => ?_⟩
  · rw [dropEndWhile, ← List.reverse_append, List.takeWhile_append_dropWhile, List.reverse_reverse]
  · exact List.all_eq_true.1 List.all_takeWhile c (List.mem_reverse.1 hc)
  · rw [dropEndWhile, List.getLast?_reverse] at hc
    have hnot := List.head?_dropWhile_not p t.reverse
    rw [hc] at hnot
    simpa using hnot

end Stencil.Text
