import Stencil.Text.Lines
import Stencil.Proofs.Text.Parts

/-! Lines put together and taken apart.

A text is read into lines from its first line feed on (`rawLines_append`, `rawLines_line`), so that
what holds of a line and of the text behind it holds of all texts (`induction_lines`). -/
namespace Stencil.Text

/-! ### Reading lines -/

theorem rawLines_append {line : Text} (h : '\n' ∉ line) (rest : Text) :
    rawLines (line ++ '\n' :: rest) = (line, true) :: rawLines rest := by
  induction line with
  | nil => rw [List.nil_append, rawLines, if_pos rfl]
  | cons c cs ih =>
    rw [List.mem_cons, not_or] at h
    rw [List.cons_append, rawLines, if_neg (Ne.symm h.1), ih h.2]

theorem rawLines_line {line : Text} (h : '\n' ∉ line) (hne : line ≠ []) :
    rawLines line = [(line, false)] := by
  induction line with
  | nil => exact absurd rfl hne
  | cons c cs ih =>
    rw [List.mem_cons, not_or] at h
    rw [rawLines, if_neg (Ne.symm h.1)]
    cases cs with
    | nil => rfl
    | cons d ds => rw [ih h.2 (List.cons_ne_nil _ _)]

/-- Lines that are all ended are read as they are. -/
theorem rawLines_flatten {lines : List Text} (h : ∀ line ∈ lines, '\n' ∉ line) :
    rawLines (lines.map (· ++ ['\n'])).flatten = lines.map (·, true) := by
  induction lines with
  | nil => rfl
  | cons line rest ih =>
    rw [List.map_cons, List.flatten_cons, List.append_assoc, List.singleton_append,
      rawLines_append (h line (List.mem_cons_self ..)),
      ih fun l hl => h l (List.mem_cons_of_mem _ hl), List.map_cons]

/-- A text is empty, or a line that nothing ends, or a line with its end and another text. -/
theorem induction_lines {P : Text → Prop} (nil : P [])
    (line : ∀ t, '\n' ∉ t → t ≠ [] → P t)
    (append : ∀ t rest, '\n' ∉ t → P rest → P (t ++ '\n' :: rest)) (t : Text) : P t := by
  generalize hn : t.length = n
  induction n using Nat.strongRecOn generalizing t with
  | ind n ih =>
    by_cases hmem : '\n' ∈ t
    · obtain ⟨first, rest, rfl, hfirst⟩ := List.eq_append_cons_of_mem hmem
      refine append first rest hfirst (ih rest.length ?_ rest rfl)
      rw [← hn, List.length_append, List.length_cons]
      omega
    · by_cases hnil : t = []
      · exact hnil ▸ nil
      · exact line t hmem hnil

theorem lineFeed_not_mem_rawLines (t : Text) : ∀ l ∈ rawLines t, '\n' ∉ l.1 := by
  induction t using induction_lines with
  | nil => exact nofun
  | line t ht hne =>
    rw [rawLines_line ht hne]
    exact fun l hl => List.mem_singleton.1 hl ▸ ht
  | append t rest ht ih =>
    rw [rawLines_append ht]
    intro l hl
    rcases List.mem_cons.1 hl with rfl | hl
    · exact ht
    · exact ih l hl

theorem mem_of_mem_rawLines {t : Text} {l : Text × Bool} (h : l ∈ rawLines t) {c : Char}
    (hc : c ∈ l.1) : c ∈ t := by
  rw [← unlines_rawLines t]
  exact List.mem_flatten_of_mem (List.mem_map_of_mem h) (List.mem_append_left _ hc)

theorem mapLines_line (f : Text → Text) {line : Text} (h : '\n' ∉ line) (hne : line ≠ []) :
    mapLines f line = f line := by
  rw [mapLines, rawLines_line h hne, List.map_singleton, List.flatten_singleton]
  exact congrArg f (List.append_nil line)

theorem mapLines_append (f : Text → Text) {line : Text} (h : '\n' ∉ line) (rest : Text) :
    mapLines f (line ++ '\n' :: rest) = f (line ++ ['\n']) ++ mapLines f rest := by
  rw [mapLines, rawLines_append h]
  rfl

/-! ### Ends of lines -/

theorem mem_of_mem_getD_before? {part t : Text} {c : Char} (h : c ∈ (before? part t).getD t) :
    c ∈ t := by
  cases hbefore : before? part t with
  | none => rwa [hbefore] at h
  | some rest =>
    rw [hbefore] at h
    rw [before?_eq_some_iff.1 hbefore]
    exact List.mem_append_left _ h

theorem dropReturn_isPrefix (t : Text) : dropReturn t <+: t := by
  unfold dropReturn
  cases hbefore : before? ['\r'] t with
  | none => exact List.prefix_rfl
  | some rest => exact ⟨_, (before?_eq_some_iff.1 hbefore).symm⟩

theorem mem_of_mem_dropReturn {t : Text} {c : Char} (h : c ∈ dropReturn t) : c ∈ t :=
  mem_of_mem_getD_before? h

theorem mem_of_mem_dropLineFeed {t : Text} {c : Char} (h : c ∈ dropLineFeed t) : c ∈ t :=
  mem_of_mem_getD_before? h

theorem dropReturn_append_return (t : Text) : dropReturn (t ++ ['\r']) = t := by
  unfold dropReturn
  rw [before?_eq_some_iff.2 rfl]
  rfl

theorem dropReturn_of_ne {t : Text} (h : t.getLast? ≠ some '\r') : dropReturn t = t := by
  unfold dropReturn
  cases hbefore : before? ['\r'] t with
  | none => rfl
  | some rest =>
    rw [before?_eq_some_iff] at hbefore
    exact absurd (by rw [hbefore, List.getLast?_concat]) h

/-- A text with every carriage return before a line feed left out. -/
def normalizeLineEnds : Text → Text
  | '\r' :: '\n' :: t => '\n' :: normalizeLineEnds t
  | c :: t => c :: normalizeLineEnds t
  | [] => []

theorem normalizeLineEnds_cons {c : Char} {t : Text} (h : c = '\r' → t.head? ≠ some '\n') :
    normalizeLineEnds (c :: t) = c :: normalizeLineEnds t := by
  rw [normalizeLineEnds]
  rintro rest rfl rfl
  exact h rfl rfl

theorem dropReturn_cons {c : Char} {t : Text} (h : t ≠ []) :
    dropReturn (c :: t) = c :: dropReturn t := by
  by_cases hlast : t.getLast? = some '\r'
  · obtain ⟨rest, rfl⟩ := List.getLast?_eq_some_iff.1 hlast
    rw [← List.cons_append, dropReturn_append_return, dropReturn_append_return]
  · have hcons : (c :: t).getLast? ≠ some '\r' := by
      rwa [List.getLast?_cons_of_ne_nil h]
    rw [dropReturn_of_ne hlast, dropReturn_of_ne hcons]

/-- A carriage return at the end of a text is one of what it ends in. -/
theorem dropReturn_append {t : Text} (h : t.getLast? ≠ some '\r') (more : Text) :
    dropReturn (t ++ more) = t ++ dropReturn more := by
  by_cases hlast : more.getLast? = some '\r'
  · obtain ⟨rest, rfl⟩ := List.getLast?_eq_some_iff.1 hlast
    rw [← List.append_assoc, dropReturn_append_return, dropReturn_append_return]
  · rw [dropReturn_of_ne hlast, dropReturn_of_ne]
    rw [List.getLast?_append]
    cases hmore : more.getLast? with
    | none => rwa [Option.none_or]
    | some c => rwa [Option.some_or, ← hmore]

theorem normalizeLineEnds_line {line : Text} (h : '\n' ∉ line) : normalizeLineEnds line = line := by
  induction line with
  | nil => rfl
  | cons c cs ih =>
    rw [List.mem_cons, not_or] at h
    rw [normalizeLineEnds_cons fun _ heq => h.2 (List.mem_of_mem_head? heq), ih h.2]

theorem normalizeLineEnds_append {line : Text} (h : '\n' ∉ line) (rest : Text) :
    normalizeLineEnds (line ++ '\n' :: rest) = dropReturn line ++ '\n' :: normalizeLineEnds rest := by
  induction line with
  | nil => rfl
  | cons c cs ih =>
    rw [List.mem_cons, not_or] at h
    cases cs with
    | nil =>
      by_cases hc : c = '\r'
      · rw [hc]
        rfl
      · have hlast : [c].getLast? ≠ some '\r' := fun heq => hc (Option.some.inj heq)
        rw [List.singleton_append, normalizeLineEnds_cons fun heq => absurd heq hc,
          dropReturn_of_ne hlast]
        rfl
    | cons d ds =>
      have hhead : (d :: ds ++ '\n' :: rest).head? ≠ some '\n' :=
        fun heq => h.2 (Option.some.inj heq ▸ List.mem_cons_self ..)
      rw [List.cons_append, normalizeLineEnds_cons fun _ => hhead, ih h.2,
        dropReturn_cons (List.cons_ne_nil _ _), List.cons_append]

/-- The carriage return at the end of a text, if there is one. -/
def lastReturn (t : Text) : Text := if t.getLast? = some '\r' then ['\r'] else []

theorem dropReturn_append_lastReturn (t : Text) : dropReturn t ++ lastReturn t = t := by
  by_cases h : t.getLast? = some '\r'
  · rw [lastReturn, if_pos h]
    obtain ⟨rest, rfl⟩ := List.getLast?_eq_some_iff.1 h
    rw [dropReturn_append_return]
  · rw [lastReturn, if_neg h, dropReturn_of_ne h, List.append_nil]

theorem lastReturn_append (t rest : Text) : lastReturn (t ++ '\n' :: rest) = lastReturn rest := by
  have hlast : (t ++ '\n' :: rest).getLast? = some '\r' ↔ rest.getLast? = some '\r' := by
    rw [List.getLast?_append, List.getLast?_cons]
    cases rest.getLast? <;> simp
  simp only [lastReturn, hlast]

/-- The contents of the lines are the text, with the ends of its lines normalized, but for a
carriage return at its end. -/
theorem unlines_contents_append (t : Text) :
    unlines ((rawLines t).map fun l => (dropReturn l.1, l.2)) ++ lastReturn t =
      normalizeLineEnds t := by
  induction t using induction_lines with
  | nil => rfl
  | line t ht hne =>
    rw [rawLines_line ht hne, normalizeLineEnds_line ht]
    have hline : unlines ([(t, false)].map fun l => (dropReturn l.1, l.2)) = dropReturn t := by
      simp [unlines]
    rw [hline, dropReturn_append_lastReturn]
  | append t rest ht ih =>
    rw [rawLines_append ht, normalizeLineEnds_append ht, ← ih, lastReturn_append]
    simp [unlines]

/-- Only the last line can be without a line feed. -/
theorem snd_getElem_rawLines (t : Text) {i : Nat} (hi : i + 1 < (rawLines t).length) :
    (rawLines t)[i].2 = true := by
  induction t using induction_lines generalizing i with
  | nil => exact absurd hi (Nat.not_lt_zero _)
  | line t ht hne =>
    rw [rawLines_line ht hne, List.length_singleton] at hi
    omega
  | append t rest ht ih =>
    have hlines := rawLines_append ht rest
    rw [hlines, List.length_cons] at hi
    cases i with
    | zero => simp [hlines]
    | succ j => simpa [hlines] using ih (Nat.lt_of_succ_lt_succ hi)

/-! ### Lines for display -/

theorem displayLines_line {line : Text} (h : '\n' ∉ line) (hne : line ≠ []) :
    displayLines line = [line] := by
  rw [displayLines, rawLines_line h hne]
  rfl

theorem displayLines_append {line : Text} (h : '\n' ∉ line) (rest : Text) :
    displayLines (line ++ '\n' :: rest) = dropReturn line :: displayLines rest := by
  rw [displayLines, rawLines_append h]
  rfl

/-- The lines of a text without carriage returns are its pieces, where no line feed ends it. -/
theorem displayLines_eq_splitOn {t : Text} (hreturn : '\r' ∉ t) (hne : t ≠ [])
    (hlast : t.getLast? ≠ some '\n') : displayLines t = splitOn '\n' t := by
  induction t using induction_lines with
  | nil => exact absurd rfl hne
  | line t ht _ => rw [displayLines_line ht hne, splitOn_of_not_mem ht]
  | append t rest ht ih =>
    rw [List.mem_append, List.mem_cons, not_or, not_or] at hreturn
    have hdrop : dropReturn t = t :=
      dropReturn_of_ne fun h => hreturn.1 (List.mem_of_getLast? h)
    have hrest : rest ≠ [] := by
      rintro rfl
      exact hlast List.getLast?_concat
    have hlastRest : rest.getLast? ≠ some '\n' := by
      intro h
      apply hlast
      rw [List.getLast?_append, List.getLast?_cons_of_ne_nil hrest, h]
      rfl
    rw [displayLines_append ht, splitOn_append ht, hdrop, ih hreturn.2.2 hrest hlastRest]

theorem lineFeed_not_mem_displayLines (t : Text) : ∀ line ∈ displayLines t, '\n' ∉ line := by
  intro line hline
  obtain ⟨⟨raw, ended⟩, hraw, rfl⟩ := List.mem_map.1 hline
  have hfeed := lineFeed_not_mem_rawLines t _ hraw
  dsimp only
  split
  · exact fun h => hfeed (mem_of_mem_dropReturn h)
  · exact hfeed

theorem mem_of_mem_displayLines {t line : Text} (h : line ∈ displayLines t) {c : Char}
    (hc : c ∈ line) : c ∈ t := by
  obtain ⟨⟨raw, ended⟩, hraw, rfl⟩ := List.mem_map.1 h
  apply mem_of_mem_rawLines hraw
  dsimp only at hc
  split at hc
  · exact mem_of_mem_dropReturn hc
  · exact hc

theorem join_displayLines {t : Text} (hreturn : '\r' ∉ t) (hlast : t.getLast? ≠ some '\n') :
    join "\n" (displayLines t) = t := by
  by_cases hne : t = []
  · rw [hne]
    rfl
  · rw [displayLines_eq_splitOn hreturn hne hlast]
    exact join_splitOn '\n' t

/-- Lines without terminators, put together, are the lines of what they make up. -/
theorem displayLines_join {lines : List Text}
    (h : ∀ line ∈ lines, line ≠ [] ∧ '\n' ∉ line ∧ '\r' ∉ line) :
    displayLines (join "\n" lines) = lines := by
  induction lines with
  | nil => rfl
  | cons line rest ih =>
    obtain ⟨⟨hne, hfeed, hreturn⟩, hrest⟩ := List.forall_mem_cons.1 h
    cases rest with
    | nil => exact displayLines_line hfeed hne
    | cons next others =>
      have hdrop : dropReturn line = line :=
        dropReturn_of_ne fun hlast => hreturn (List.mem_of_getLast? hlast)
      rw [join_cons _ _ (List.cons_ne_nil next others)]
      refine (displayLines_append hfeed _).trans ?_
      rw [hdrop]
      exact congrArg (line :: ·) (ih hrest)

/-! ### Places between lines -/

/-- The text is some lines that are all ended. -/
def EndsLines (t : Text) : Prop := ∀ c ∈ t.getLast?, c = '\n'

/-- The text begins where a line ends. -/
def StartsAtLineEnd (t : Text) : Prop := ∀ c ∈ t.head?, c = '\n'

theorem EndsLines.of_append_lineFeed {t rest : Text} (h : EndsLines (t ++ '\n' :: rest)) :
    EndsLines rest := by
  intro c hc
  apply h
  rw [List.getLast?_append, List.getLast?_cons, Option.mem_def.1 hc]
  rfl

theorem EndsLines.eq_nil {t : Text} (h : EndsLines t) (hfeed : '\n' ∉ t) : t = [] := by
  refine Decidable.byContradiction fun hne => ?_
  obtain ⟨c, hc⟩ := Option.ne_none_iff_exists'.1 (mt List.getLast?_eq_none_iff.1 hne)
  exact hfeed (h c hc ▸ List.mem_of_getLast? hc)

theorem EndsLines.rawLines_append {t : Text} (h : EndsLines t) (rest : Text) :
    rawLines (t ++ rest) = rawLines t ++ rawLines rest := by
  induction t using induction_lines with
  | nil => rfl
  | line t ht hne => exact absurd (h.eq_nil ht) hne
  | append t more ht ih =>
    rw [List.append_assoc, List.cons_append, Text.rawLines_append ht, Text.rawLines_append ht,
      ih h.of_append_lineFeed, List.cons_append]

theorem EndsLines.length_rawLines {t : Text} (h : EndsLines t) :
    (rawLines t).length = t.count '\n' := by
  induction t using induction_lines with
  | nil => rfl
  | line t ht hne => exact absurd (h.eq_nil ht) hne
  | append t more ht ih =>
    rw [Text.rawLines_append ht, List.length_cons, ih h.of_append_lineFeed, List.count_append,
      List.count_cons_self, List.count_eq_zero.2 ht, Nat.zero_add]

/-- Where a raw line stands in its text. -/
theorem exists_eq_append_rawLines {t : Text} {i : Nat} (hi : i < t.rawLines.length) :
    ∃ before after, t = before ++ (t.rawLines[i].1 ++ after) ∧ EndsLines before ∧
      before.count '\n' = i ∧ StartsAtLineEnd after := by
  induction t using induction_lines generalizing i with
  | nil => exact absurd hi (Nat.not_lt_zero _)
  | line t ht hne =>
    have hlines := rawLines_line ht hne
    rw [hlines, List.length_singleton] at hi
    obtain rfl : i = 0 := by omega
    exact ⟨[], [], by simp [hlines], nofun, rfl, nofun⟩
  | append t rest ht ih =>
    have hlines := rawLines_append ht rest
    rw [hlines, List.length_cons] at hi
    cases i with
    | zero =>
      refine ⟨[], '\n' :: rest, by simp [hlines], nofun, rfl, ?_⟩
      rintro c ⟨⟩
      rfl
    | succ j =>
      obtain ⟨before, after, hsplit, hbefore, hcount, hafter⟩ := ih (Nat.lt_of_succ_lt_succ hi)
      refine ⟨t ++ '\n' :: before, after, ?_, ?_, ?_, hafter⟩
      · simp only [hlines, List.getElem_cons_succ]
        rw [List.append_assoc, List.cons_append, ← hsplit]
      · intro c hc
        cases hlast : before.getLast? with
        | none =>
          rw [List.getLast?_eq_none_iff.1 hlast, List.getLast?_concat] at hc
          exact (Option.some.inj hc).symm
        | some d =>
          rw [List.getLast?_append, List.getLast?_cons, hlast] at hc
          exact Option.some.inj hc ▸ hbefore d hlast
      · rw [List.count_append, List.count_cons_self, List.count_eq_zero.2 ht, hcount, Nat.zero_add]

end Stencil.Text
