import Stencil.Proofs.Lua.Juncture
import Stencil.Proofs.Script.Faults

/-! The tokens of a rewritten call.

A line of code that begins with a call of a writer is rewritten by its characters: the callee is
replaced, and the indentation is put in front of the arguments as they are trimmed. The tokens are
those that this is meant to have (`indented?_tokenSequence`): what is trimmed stands between tokens,
the arguments are complete, and the parenthesis behind them ends their last token. -/
namespace Stencil

namespace CodeLine

/-- The statement that code is compiled to at an indentation; none for a call that is not closed. -/
def indented? (code leftover : Text) : Option Text := (ofCode? code).map (statement leftover)

end CodeLine

namespace Lua

/-! ### Calls in code -/

/-- What stands between the parentheses of a call is complete. -/
theorem isComplete_of_closes {name inside rest : Text} (hname : ∀ c ∈ name, isPlain c = true)
    (h : Closes (name ++ '(' :: (inside ++ ')' :: rest)) name.length
      (name.length + 1 + inside.length)) : IsComplete inside := by
  obtain ⟨before, inner, after, hmarked, hbefore, hinner, _⟩ := h
  obtain ⟨segments, hcode, htext⟩ := exists_isCode (name ++ '(' :: (inside ++ ')' :: rest))
  have hsplit : segmentsMarked segments =
      (before ++ ('(', true) :: inner) ++ (')', true) :: after := by
    rw [← hcode.marked_eq, htext, hmarked, List.append_assoc, List.cons_append]
  obtain ⟨first, behind, rfl, hfirst⟩ := exists_char_of_segmentsMarked hsplit
  have hcomplete := hcode.isComplete
  have hlength : (segmentsText first).length = (name ++ '(' :: inside).length := by
    rw [← map_fst_segmentsMarked, hfirst]
    simp only [List.length_map, List.length_append, List.length_cons]
    omega
  have hwhole : segmentsText first ++ segmentsText (.char ')' :: behind) =
      (name ++ '(' :: inside) ++ ')' :: rest := by
    rw [← segmentsText_append, htext, List.append_assoc, List.cons_append]
  rw [List.append_inj_left hwhole hlength, List.append_cons] at hcomplete
  refine hcomplete.of_isPlain_append fun c hc => ?_
  rcases List.mem_append.1 hc with hc | hc
  · exact hname c hc
  · rw [List.mem_singleton.1 hc]
    rfl

/-! ### Trimmed arguments -/

/-- A blank is none of the others if none of them is a blank. -/
theorem contains_of_isBlank {c : Char} {others : List Char} (h : isBlank c = true)
    (hothers : others.any isBlank = false) : others.contains c = false := by
  rw [← Bool.not_eq_true, List.contains_iff_mem]
  exact fun hmem => List.any_eq_false.1 hothers c hmem h

theorem isPlain_of_isBlank {c : Char} (h : isBlank c = true) : isPlain c = true := by
  rw [isPlain, contains_of_isBlank h (by decide)]
  rfl

theorem isComplete_trim {t : Text} (h : IsComplete t) : IsComplete t.trim := by
  obtain ⟨before, behind, hsplit, hbefore, hbehind, _⟩ := t.exists_trim
  rw [hsplit] at h
  have hinner := h.of_isPlain_append fun c hc => isPlain_of_isBlank (hbefore c hc)
  exact hinner.of_append fun c hc => contains_of_isBlank (hbehind c hc) (by decide)

/-- What is trimmed of the text is white space that stands between tokens. -/
def TrimsGaps (t : Text) : Prop :=
  ∃ before behind, t = before ++ (t.trim ++ behind) ∧
    ∀ c ∈ before ++ behind, Scans.isGap c = true

theorem tokenSequence_gaps_append {gaps : Text} (hgaps : ∀ c ∈ gaps, Scans.isGap c = true)
    (t : Text) : tokenSequence (gaps ++ t) = tokenSequence t := by
  rw [← tokenSequence_dropWhile, List.dropWhile_append_of_pos hgaps, tokenSequence_dropWhile]

theorem tokenSequence_trim {t : Text} (h : IsComplete t) (htrim : TrimsGaps t) :
    tokenSequence t.trim = tokenSequence t := by
  obtain ⟨before, behind, hsplit, hgaps⟩ := htrim
  obtain ⟨hbefore, hbehind⟩ := List.forall_mem_append.1 hgaps
  have hends : Ends behind := fun c hc =>
    mem_enders_of_isGap (hbehind c (List.mem_of_mem_head? hc))
  have hnone : tokenSequence behind = [.finish] := by
    have := tokenSequence_gaps_append hbehind []
    rwa [List.append_nil] at this
  conv => rhs; rw [hsplit]
  rw [tokenSequence_gaps_append hbefore, tokenSequence_append (isComplete_trim h) hends, hnone,
    joined_finish_right]

end Lua

namespace CodeLine

open Lua

/-! ### Statements -/

theorem tokenSequence_call {name : Text} (hname : IsWord name)
    (hword : words.contains name = false) (rest : Text) :
    tokenSequence (name ++ '(' :: rest) = .name name :: .symbol ['('] :: tokenSequence rest := by
  have hparen : ∀ c ∈ ('(' :: rest).head?, isNameChar c = false := by
    rintro _ ⟨⟩
    rfl
  rw [((Scans.word 1 hname hparen).trans (Scans.openParen 1 rest)).tokenSequence_eq, wordLexeme,
    hword]
  rfl

theorem tokenSequence_closeParen (rest : Text) :
    tokenSequence (')' :: rest) = .symbol [')'] :: tokenSequence rest :=
  (Scans.closeParen 1 rest).tokenSequence_eq

theorem tokenSequence_quote (leftover rest : Text) :
    tokenSequence (quote leftover ++ rest) = .string leftover.bytes :: tokenSequence rest :=
  (Scans.quote 1 leftover rest).tokenSequence_eq

theorem tokenSequence_comma (rest : Text) :
    tokenSequence (',' :: ' ' :: rest) = .symbol [','] :: tokenSequence rest :=
  ((Scans.comma 1 (' ' :: rest)).trans (Scans.space 1 rest)).tokenSequence_eq

theorem tokenSequence_statement {callee arguments : Text} (hcallee : IsWord callee)
    (hname : words.contains callee = false) (harguments : IsComplete arguments)
    (rest leftover : Text) :
    tokenSequence ((call callee arguments rest).statement leftover) =
      .name callee :: .symbol ['('] :: .string leftover.bytes ::
        ((if arguments = [] then [] else [.symbol [',']]) ++
          joined (tokenSequence arguments) (.symbol [')'] :: tokenSequence rest)) := by
  by_cases hnone : arguments = []
  · subst hnone
    have htext : (call callee [] rest).statement leftover =
        callee ++ '(' :: (quote leftover ++ ')' :: rest) := by
      simp [statement]
    rw [htext, tokenSequence_call hcallee hname, tokenSequence_quote, tokenSequence_closeParen,
      if_pos rfl, tokenSequence_nil, joined_finish]
    rfl
  · have htext : (call callee arguments rest).statement leftover =
        callee ++ '(' :: (quote leftover ++ ',' :: ' ' :: (arguments ++ ')' :: rest)) := by
      simp [statement, hnone]
    rw [htext, tokenSequence_call hcallee hname, tokenSequence_quote, tokenSequence_comma,
      tokenSequence_append harguments (.closeParen rest), tokenSequence_closeParen, if_neg hnone]
    rfl

/-! ### Rewriting -/

theorem asCall?_of_closes {name inside rest : Text} (hname : ∀ c ∈ name, isPlain c = true)
    (counterpart : Text) (h : Closes (name ++ '(' :: (inside ++ ')' :: rest)) name.length
      (name.length + 1 + inside.length)) :
    asCall? (name ++ '(' :: (inside ++ ')' :: rest)) name counterpart =
      some (some (.call counterpart inside.trim rest)) := by
  have hprefix : name ++ ['('] <+: name ++ '(' :: (inside ++ ')' :: rest) :=
    ⟨inside ++ ')' :: rest, by simp⟩
  have hclosing := (closingParen?_eq_some_iff (marked_callee hname hprefix)).2 h
  have hopened : (name ++ ['(']).length = name.length + 1 := by simp
  have hbefore : ((name ++ ['(']) ++ inside).length = name.length + 1 + inside.length := by
    rw [List.length_append, hopened]
  have hsplit : name ++ '(' :: (inside ++ ')' :: rest) =
      ((name ++ ['(']) ++ inside) ++ ([')'] ++ rest) := by simp
  have hrest : (name ++ '(' :: (inside ++ ')' :: rest)).drop (name.length + 1 + inside.length + 1) =
      rest := by
    rw [hsplit, ← List.append_assoc]
    exact List.drop_left' (by rw [List.length_append, hbefore]; rfl)
  rw [asCall?, Text.after?_append]
  dsimp only
  rw [hclosing, Option.map_some, hrest, hsplit, List.take_left' hbefore, List.drop_left' hopened]
  rfl

theorem ofCode?_of_asCall? {code : Text} {writer : Text × Text} (hwriter : writer ∈ writers)
    {line : Option CodeLine} (h : asCall? code writer.1 writer.2 = some line) :
    ofCode? code = line := by
  rw [ofCode?_eq]
  simp only [writers, List.mem_cons, List.not_mem_nil, or_false] at hwriter
  rcases hwriter with rfl | rfl
  · rw [h]
    rfl
  · have hprint := (asCall?_print_or_include code).resolve_right (by rw [h]; exact Option.some_ne_none line)
    rw [hprint, h]
    rfl

theorem ofCode?_plain {code : Text} (h : ∀ writer ∈ writers, ¬ writer.1 ++ ['('] <+: code) :
    ofCode? code = some (plain code) := by
  have hnone : ∀ writer ∈ writers, asCall? code writer.1 writer.2 = none := fun writer hwriter =>
    Option.eq_none_iff_forall_ne_some.2 fun _ hcall => h writer hwriter (isPrefix_of_asCall? hcall)
  rw [ofCode?_eq, hnone ("print", "__print") (by decide),
    hnone ("include", "__include") (by decide)]
  rfl

theorem isWord_of_mem_writers : ∀ writer ∈ writers,
    (IsWord writer.1 ∧ words.contains writer.1 = false) ∧
      IsWord writer.2 ∧ words.contains writer.2 = false := by
  decide

/-- **A rewritten call keeps its tokens**, but for the callee and the indentation in front of the
arguments. A call that is not closed is refused, and all other code is left as it is. Nothing is
said here of arguments that are comments and nothing else, nor of white space around the arguments
that is none in a script. -/
theorem indented?_tokenSequence (code leftover : Text) :
    (∀ writer ∈ writers, ∀ inside rest : Text, code = writer.1 ++ '(' :: (inside ++ ')' :: rest) →
      Closes code writer.1.length (writer.1.length + 1 + inside.length) →
      tokenSequence code = .name writer.1 :: .symbol ['('] ::
        joined (tokenSequence inside) (.symbol [')'] :: tokenSequence rest) ∧
      ∃ statement, indented? code leftover = some statement ∧
        (TrimsGaps inside → (tokenSequence inside = [.finish] → inside.trim = []) →
          tokenSequence statement = .name writer.2 :: .symbol ['('] :: .string leftover.bytes ::
            ((if tokenSequence inside = [.finish] then [] else [.symbol [',']]) ++
              joined (tokenSequence inside) (.symbol [')'] :: tokenSequence rest)))) ∧
    (IsOpenCall code → indented? code leftover = none) ∧
    ((∀ writer ∈ writers, ¬ writer.1 ++ ['('] <+: code) → indented? code leftover = some code) := by
  refine ⟨?_, fun h => by rw [indented?, ofCode?_eq_none_iff.2 h]; rfl,
    fun h => by rw [indented?, ofCode?_plain h]; rfl⟩
  rintro writer hwriter inside rest rfl hcloses
  obtain ⟨⟨hname, hnameWord⟩, hcallee, hcalleeWord⟩ := isWord_of_mem_writers writer hwriter
  have hplain : ∀ c ∈ writer.1, isPlain c = true :=
    fun c hc => isPlain_of_isNameChar (hname.chars c hc)
  have hinside := isComplete_of_closes hplain hcloses
  refine ⟨?_, (call writer.2 inside.trim rest).statement leftover, ?_, fun htrim hnone => ?_⟩
  · rw [tokenSequence_call hname hnameWord, tokenSequence_append hinside (.closeParen rest),
      tokenSequence_closeParen]
  · rw [indented?, ofCode?_of_asCall? hwriter (asCall?_of_closes hplain writer.2 hcloses)]
    rfl
  · have hempty : inside.trim = [] ↔ tokenSequence inside = [.finish] := by
      refine ⟨fun h => ?_, hnone⟩
      rw [← tokenSequence_trim hinside htrim, h, tokenSequence_nil]
    rw [tokenSequence_statement hcallee hcalleeWord (isComplete_trim hinside),
      tokenSequence_trim hinside htrim]
    simp only [hempty]

/-- A parenthesis in a string closes nothing, and one in a comment opens nothing. -/
theorem indented?_tokenSequence_string :
    ∃ statement, indented? "print( ')' ) -- (" "  " = some statement ∧
      tokenSequence statement = [.name "__print", .symbol ['('], .string [32, 32], .symbol [','],
        .string [41], .symbol [')'], .finish] := by
  have hcloses : Closes "print( ')' ) -- (" 5 11 :=
    (closingParen?_eq_some_iff (by decide)).1 (by decide)
  obtain ⟨hcall, _⟩ := indented?_tokenSequence "print( ')' ) -- (" "  "
  obtain ⟨_, statement, hstatement, htokens⟩ :=
    hcall ("print", "__print") (by decide) " ')' " " -- (" rfl hcloses
  have harguments : tokenSequence " ')' " = [.string [41], .finish] := by decide +kernel
  have hrest : tokenSequence " -- (" = [.finish] := by decide +kernel
  have htrims : TrimsGaps " ')' " := ⟨" ", " ", by decide, List.all_eq_true.1 (by decide)⟩
  refine ⟨statement, hstatement, ?_⟩
  rw [htokens htrims (by rw [harguments]; exact nofun), harguments, hrest]
  decide

/-- A call that is not closed is refused. A comment for all arguments is taken for one, so that a
comma stands behind the indentation and nothing behind the comma; and a character that is white
space elsewhere than in a script is trimmed although it is a token. -/
theorem indented?_refused :
    indented? "print(a" "" = none ∧
    (tokenSequence "--[[c]]" = [.finish] ∧
      indented? "print(--[[c]])" "" = some "__print('', --[[c]])" ∧
      tokenSequence "__print('', --[[c]])" =
        [.name "__print", .symbol ['('], .string [], .symbol [','], .symbol [')'], .finish]) ∧
    (tokenSequence "\u00A0" = [.symbol ['\u00A0'], .finish] ∧
      indented? "print(\u00A0)" "" = some "__print('')" ∧
      tokenSequence "__print('')" =
        [.name "__print", .symbol ['('], .string [], .symbol [')'], .finish]) := by
  refine ⟨?_, ⟨?_, ?_, ?_⟩, ?_, ?_, ?_⟩
  all_goals decide +kernel

end CodeLine

end Stencil
