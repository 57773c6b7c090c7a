import Stencil.Proofs.Lua.Inclusion

/-! Indentation of what is indented.

A line is indented by itself (`indentLines_append`), so a text that ends with a line is indented
apart from what is behind it (`indentLines_of_endsLines`), the lines of a text stay the lines that
they are (`rawLines_indentLines`), and one indentation behind another is one of both
(`indentLines_indentLines`). That is what an include does to what an include in the included text
has written (`indentLines_compose`). -/
namespace Stencil.Lua

variable {t line p q : Text}

/-! ### One line -/

theorem indentLine_of_returns (p : Text) (h : line.all (· == '\r') = true) :
    indentLine p line = line := if_pos h

theorem indentLine_of_not_returns (p : Text) (h : line.all (· == '\r') ≠ true) :
    indentLine p line = p ++ line := if_neg h

/-- What is put in front of a line does not empty it. -/
theorem all_append_ne (p : Text) (h : line.all (· == '\r') ≠ true) :
    (p ++ line).all (· == '\r') ≠ true := by
  rw [List.all_append, Ne, Bool.and_eq_true]
  exact fun hall => h hall.2

theorem indentLine_indentLine (p q line : Text) :
    indentLine q (indentLine p line) = indentLine (q ++ p) line := by
  by_cases h : line.all (· == '\r') = true
  · rw [indentLine_of_returns p h, indentLine_of_returns q h, indentLine_of_returns (q ++ p) h]
  · rw [indentLine_of_not_returns p h, indentLine_of_not_returns q (all_append_ne p h),
      indentLine_of_not_returns (q ++ p) h, List.append_assoc]

theorem lineFeed_not_mem_indentLine (hp : '\n' ∉ p) (h : '\n' ∉ line) :
    '\n' ∉ indentLine p line := by
  unfold indentLine
  split
  · exact h
  · exact fun hmem => (List.mem_append.1 hmem).elim hp h

theorem indentLine_ne_nil (p : Text) (h : line ≠ []) : indentLine p line ≠ [] := by
  unfold indentLine
  split
  · exact h
  · exact List.append_ne_nil_of_right_ne_nil p h

/-! ### Line by line -/

theorem indentLines_line (p : Text) (h : '\n' ∉ line) : indentLines p line = indentLine p line := by
  by_cases hnil : line = []
  · rw [hnil]
    rfl
  · have hline := indentLine_eq p h [] rfl
    rw [List.append_nil, List.append_nil] at hline
    rw [indentLines, Text.mapLines_line _ h hnil, hline]

theorem indentLines_append (p : Text) (h : '\n' ∉ line) (rest : Text) :
    indentLines p (line ++ '\n' :: rest) = indentLine p line ++ '\n' :: indentLines p rest := by
  rw [indentLines, Text.mapLines_append _ h, indentLine_eq p h ['\n'] rfl, List.append_assoc]
  rfl

/-- **One indentation behind another is one of both.** -/
theorem indentLines_indentLines (hp : '\n' ∉ p) (q t : Text) :
    indentLines q (indentLines p t) = indentLines (q ++ p) t := by
  induction t using Text.induction_lines with
  | nil => rfl
  | line t ht _ =>
    rw [indentLines_line p ht, indentLines_line (q ++ p) ht, ← indentLine_indentLine,
      indentLines_line q (lineFeed_not_mem_indentLine hp ht)]
  | append t rest ht ih =>
    rw [indentLines_append p ht, indentLines_append (q ++ p) ht, ← indentLine_indentLine, ← ih,
      indentLines_append q (lineFeed_not_mem_indentLine hp ht)]

/-- A text that is empty or ends with a line is indented apart from what is behind it. -/
theorem indentLines_of_endsLines (p : Text) (h : t.EndsLines) (rest : Text) :
    indentLines p (t ++ rest) = indentLines p t ++ indentLines p rest := by
  induction t using Text.induction_lines with
  | nil => rfl
  | line t ht hne => exact absurd (h.eq_nil ht) hne
  | append t more ht ih =>
    rw [List.append_assoc, List.cons_append, indentLines_append p ht, indentLines_append p ht,
      ih h.of_append_lineFeed, List.append_assoc, List.cons_append]

/-- A line feed ends the last line of a text, or a line of its own. -/
theorem indentLines_lineFeed (p t rest : Text) :
    indentLines p (t ++ '\n' :: rest) = indentLines p t ++ '\n' :: indentLines p rest := by
  induction t using Text.induction_lines with
  | nil =>
    show indentLines p ([] ++ '\n' :: rest) = indentLine p [] ++ '\n' :: indentLines p rest
    exact indentLines_append p List.not_mem_nil rest
  | line t ht _ => rw [indentLines_append p ht, indentLines_line p ht]
  | append t more ht ih =>
    rw [List.append_assoc, List.cons_append, indentLines_append p ht, indentLines_append p ht, ih,
      List.append_assoc, List.cons_append]

/-- The lines of a text stay its lines, each with its end. -/
theorem rawLines_indentLines (hp : '\n' ∉ p) (t : Text) :
    (indentLines p t).rawLines = t.rawLines.map fun l => (indentLine p l.1, l.2) := by
  induction t using Text.induction_lines with
  | nil => rfl
  | line t ht hne =>
    rw [indentLines_line p ht, Text.rawLines_line ht hne,
      Text.rawLines_line (lineFeed_not_mem_indentLine hp ht) (indentLine_ne_nil p hne)]
    rfl
  | append t rest ht ih =>
    rw [indentLines_append p ht, Text.rawLines_append ht,
      Text.rawLines_append (lineFeed_not_mem_indentLine hp ht), ih]
    rfl

/-! ### Back -/

/-- The line without the indentation that it starts with, unless it has only its end. -/
def unindentLine (p line : Text) : Text :=
  if line.all isLineEnd then line else (Text.after? p line).getD line

def unindentLines (p t : Text) : Text := Text.mapLines (unindentLine p) t

theorem unindentLine_indentLine (p : Text) (h : '\n' ∉ line) {behind : Text}
    (hbehind : behind.all isLineEnd = true) :
    unindentLine p (indentLine p line ++ behind) = line ++ behind := by
  rw [← indentLine_eq p h behind hbehind]
  by_cases hall : (line ++ behind).all isLineEnd = true
  · rw [if_pos hall, unindentLine, if_pos hall]
  · have hafter : Text.after? p (p ++ (line ++ behind)) = some (line ++ behind) :=
      Text.after?_eq_some_iff.2 rfl
    have hnot : ¬ (p ++ (line ++ behind)).all isLineEnd = true := by
      rw [List.all_append, Bool.and_eq_true]
      exact fun hwhole => hall hwhole.2
    rw [if_neg hall, unindentLine, if_neg hnot, hafter]
    rfl

/-- **No indentation is lost.** -/
theorem unindentLines_indentLines (hp : '\n' ∉ p) (t : Text) :
    unindentLines p (indentLines p t) = t := by
  induction t using Text.induction_lines with
  | nil => rfl
  | line t ht hne =>
    have hline : unindentLine p (indentLine p t ++ []) = t ++ [] :=
      unindentLine_indentLine p ht rfl
    rw [List.append_nil, List.append_nil] at hline
    rw [indentLines_line p ht, unindentLines,
      Text.mapLines_line _ (lineFeed_not_mem_indentLine hp ht) (indentLine_ne_nil p hne), hline]
  | append t rest ht ih =>
    rw [indentLines_append p ht, unindentLines,
      Text.mapLines_append _ (lineFeed_not_mem_indentLine hp ht), unindentLine_indentLine p ht rfl]
    exact (congrArg ((t ++ ['\n']) ++ ·) ih).trans (List.append_assoc t ['\n'] rest)

/-! ### Includes in included text -/

/-- What an include writes of the text that the host has. -/
def included (indent t : Text) : Text := indentLines indent (chomp t) ++ ['\n']

theorem dropLineFeed_append (t : Text) {rest : Text} (h : rest ≠ []) :
    (t ++ rest).dropLineFeed = t ++ rest.dropLineFeed := by
  by_cases hlast : rest.getLast? = some '\n'
  · obtain ⟨more, rfl⟩ := List.getLast?_eq_some_iff.1 hlast
    rw [← List.append_assoc, dropLineFeed_append_lineFeed, dropLineFeed_append_lineFeed]
  · have hwhole : (t ++ rest).getLast? ≠ some '\n' := by
      rwa [List.getLast?_append_of_ne_nil t h]
    rw [dropLineFeed_of_ne hlast, dropLineFeed_of_ne hwhole]

theorem getLast?_ne_of_endsLines (h : t.EndsLines) : t.getLast? ≠ some '\r' :=
  fun hlast => absurd (h _ hlast) (by decide)

theorem chomp_append (h : t.EndsLines) {rest : Text} (hne : rest ≠ []) :
    chomp (t ++ rest) = t ++ chomp rest := by
  rw [chomp, dropLineFeed_append t hne, Text.dropReturn_append (getLast?_ne_of_endsLines h)]
  rfl

theorem indentLine_append_return (p line : Text) :
    indentLine p (line ++ ['\r']) = indentLine p line ++ ['\r'] := by
  have hall : (line ++ ['\r']).all (· == '\r') = line.all (· == '\r') := by
    rw [List.all_append]
    exact Bool.and_true _
  unfold indentLine
  rw [hall]
  split
  · rfl
  · rw [List.append_assoc]

theorem getLast?_indentLine (p : Text) (h : line ≠ []) :
    (indentLine p line).getLast? = line.getLast? := by
  unfold indentLine
  split
  · rfl
  · exact List.getLast?_append_of_ne_nil p h

/-- Whether a text ends in a carriage return makes no difference to its indentation. -/
theorem dropReturn_indentLines (p t : Text) :
    (indentLines p t).dropReturn = indentLines p t.dropReturn := by
  have hfeed : ∀ line rest : Text,
      (line ++ '\n' :: rest).dropReturn = line ++ '\n' :: rest.dropReturn := by
    intro line rest
    have hends : (line ++ ['\n']).getLast? ≠ some '\r' := by
      rw [List.getLast?_concat]
      decide
    have hdrop := Text.dropReturn_append hends rest
    rwa [List.append_assoc, List.append_assoc] at hdrop
  induction t using Text.induction_lines with
  | nil => rfl
  | line t ht hne =>
    rw [indentLines_line p ht]
    by_cases hlast : t.getLast? = some '\r'
    · obtain ⟨first, rfl⟩ := List.getLast?_eq_some_iff.1 hlast
      rw [indentLine_append_return, Text.dropReturn_append_return, Text.dropReturn_append_return,
        indentLines_line p fun hmem => ht (List.mem_append_left _ hmem)]
    · have hlast' : (indentLine p t).getLast? ≠ some '\r' := by
        rwa [getLast?_indentLine p hne]
      rw [Text.dropReturn_of_ne hlast, Text.dropReturn_of_ne hlast', indentLines_line p ht]
  | append t rest ht ih => rw [indentLines_append p ht, hfeed, hfeed, indentLines_append p ht, ih]

theorem endsLines_append_included (t indent u : Text) :
    Text.EndsLines (t ++ included indent u) := by
  intro c hc
  rw [included, ← List.append_assoc, List.getLast?_concat] at hc
  exact (Option.some.inj hc).symm

/-- What an include has written, in a text that is indented. -/
theorem indentLines_included (hp : '\n' ∉ p) (q t rest : Text) :
    indentLines q (included p t ++ rest) = included (q ++ p) t ++ indentLines q rest := by
  have hends : (included p t).EndsLines := endsLines_append_included [] p t
  rw [indentLines_of_endsLines q hends, included, indentLines_lineFeed, indentLines_indentLines hp]
  rfl

/-- What an include has written is indented by both indentations when it is included itself, and so
is what stands behind it by the outer one. -/
theorem included_of_included (hp : '\n' ∉ p) (q t : Text) {before after : Text}
    (hbefore : before.EndsLines) (hafter : after ≠ []) :
    included q (before ++ (included p t ++ after)) =
      indentLines q before ++ (included (q ++ p) t ++ included q after) := by
  have hends := endsLines_append_included before p t
  rw [included, ← List.append_assoc, chomp_append hends hafter, List.append_assoc,
    indentLines_of_endsLines q hbefore, indentLines_included hp, List.append_assoc,
    List.append_assoc]
  rfl

/-- At the end of the text that is included, it loses a carriage return that it ends in. -/
theorem included_of_included_last (hp : '\n' ∉ p) (q t : Text) {before : Text}
    (hbefore : before.EndsLines) :
    included q (before ++ included p t) =
      indentLines q before ++ (indentLines (q ++ p) (chomp t).dropReturn ++ ['\n']) := by
  have hdrop : chomp (before ++ included p t) = before ++ indentLines p (chomp t).dropReturn := by
    rw [included, ← List.append_assoc, chomp_append_lineFeed,
      Text.dropReturn_append (getLast?_ne_of_endsLines hbefore), dropReturn_indentLines]
  rw [included, hdrop, indentLines_of_endsLines q hbefore, indentLines_indentLines hp,
    List.append_assoc]

/-- How the lines of a text are indented. -/
structure IndentsLines (p t : Text) : Prop where
  adds : ∀ q, indentLines q (indentLines p t) = indentLines (q ++ p) t
  apart : ∀ a b : Text, a.EndsLines → indentLines p (a ++ b) = indentLines p a ++ indentLines p b
  lines : (indentLines p t).rawLines = t.rawLines.map (fun l => (indentLine p l.1, l.2))
  count : (indentLines p t).rawLines.length = t.rawLines.length
  /-- A line that is empty or has only carriage returns on it stays as it is. -/
  bare : ∀ (i : Nat) (l : Text × Bool), t.rawLines[i]? = some l → l.1.all (· == '\r') = true →
    (indentLines p t).rawLines[i]? = some l
  undone : unindentLines p (indentLines p t) = t

/-- How an included text is indented by the include that it is in. -/
structure IndentsIncludes (p t : Text) : Prop where
  nested : ∀ q before after : Text, before.EndsLines → after ≠ [] →
    included q (before ++ (included p t ++ after)) =
      indentLines q before ++ (included (q ++ p) t ++ included q after)
  last : ∀ q before : Text, before.EndsLines →
    included q (before ++ included p t) =
      indentLines q before ++ (indentLines (q ++ p) (chomp t).dropReturn ++ ['\n'])
  written : ∀ (σ : Type) (world : σ) (context : Context σ) (invoke : Invoke σ) (m : Machine)
    (path : Text), (context.host path .empty).run.run world = (.ok t, world) →
      Writes world (includeWith invoke context p path .nil .nil) m () (included p t)

/-- **Indentations add up.** The lines of a text and their ends stay, with nothing in front of those
that are empty or have only carriage returns on them; a text that ends with a line is indented apart
from what is behind it; and nothing is lost. So what an include writes in a text that is included
itself is indented by both, one behind the other; at the end of the text it loses a carriage return
that it ends in. -/
theorem indentLines_compose (hp : '\n' ∉ p) (t : Text) : IndentsLines p t ∧ IndentsIncludes p t := by
  have hlines := rawLines_indentLines hp t
  constructor
  · refine ⟨fun q => indentLines_indentLines hp q t, fun a b ha => indentLines_of_endsLines p ha b,
      hlines, ?_, fun i l hl hreturns => ?_, unindentLines_indentLines hp t⟩
    · rw [hlines, List.length_map]
    · rw [hlines, List.getElem?_map, hl, Option.map_some, indentLine_of_returns p hreturns]
  · exact ⟨fun q _ _ hbefore hafter => included_of_included hp q t hbefore hafter,
      fun q _ hbefore => included_of_included_last hp q t hbefore,
      fun _ _ _ _ _ _ hhost => .includeWith hhost⟩

/-- A text is included by a text that is included itself: the second line stays as it is. -/
theorem indentLines_compose_marks :
    '\n' ∉ ("  " : Text) ∧
      indentLines "> " (indentLines "  " "a\r\n\r\nb") = ">   a\r\n\r\n>   b" ∧
      included "> " ("x\n" ++ (included "  " "a\r\n\r\nb" ++ "y")) =
        "> x\n>   a\r\n\r\n>   b\n> y\n" := by
  have hp : '\n' ∉ ("  " : Text) := by decide
  have hbefore : Text.EndsLines "x\n" := by
    rintro c ⟨⟩
    rfl
  obtain ⟨hlines, hincludes⟩ := indentLines_compose hp "a\r\n\r\nb"
  refine ⟨hp, ?_, ?_⟩
  · rw [hlines.adds "> "]
    decide
  · rw [hincludes.nested "> " "x\n" "y" hbefore (by decide)]
    decide

end Stencil.Lua
