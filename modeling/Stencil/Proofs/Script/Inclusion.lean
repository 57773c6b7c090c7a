import Stencil.Proofs.Line.Source
import Stencil.Proofs.Lua.Parens
import Stencil.Proofs.Lua.Sentence.Calls
import Stencil.Proofs.Script.Directive
import Stencil.Proofs.Script.Flat

/-! Lines that include a template.

A line `<% include('path')` may stand at any indentation, and its path is written as it is, between
single quotes. It is compiled to the call that is told the indentation (`Line.contributes_inclusion`),
unless what the path holds makes the line look like a function header: blocks are recognized by the
last parenthesis of a line, be it in a string or not. -/
namespace Stencil

/-! ### Text between single quotes -/

namespace Lua

/-- The character stands for itself between single quotes. -/
def isBare (c : Char) : Bool := c != '\'' && c != '\\' && !needsEscape c

def singleQuoted (t : Text) : Text := '\'' :: (t ++ ['\''])

section Bare

variable {t : Text} (h : ∀ c ∈ t, isBare c = true)
include h

theorem quote_of_isBare : quote t = singleQuoted t := by
  have hbare : ∀ c ∈ t, c ≠ '\'' ∧ c ≠ '\\' ∧ needsEscape c = false := by
    intro c hc
    simpa [isBare, and_assoc] using h c hc
  have hescape : t.any needsEscape = false :=
    List.any_eq_false.2 fun c hc => Bool.not_eq_true _ ▸ (hbare c hc).2.2
  have hplain : '\\' ∉ t ∧ '\'' ∉ t :=
    ⟨fun hmem => (hbare _ hmem).2.1 rfl, fun hmem => (hbare _ hmem).1 rfl⟩
  rw [quote, hescape, if_neg Bool.false_ne_true, if_pos hplain]
  rfl

theorem afterShort?_of_isBare (rest : Text) :
    afterShort? '\'' (t ++ '\'' :: rest) = some rest := by
  induction t with
  | nil => cases rest <;> rfl
  | cons c cs ih =>
    have hc : c ≠ '\'' ∧ c ≠ '\\' := by
      have hbare := h c (List.mem_cons_self ..)
      simp only [isBare, Bool.and_eq_true, bne_iff_ne] at hbare
      exact hbare.1
    obtain ⟨d, behind, hbehind⟩ : ∃ d behind, cs ++ '\'' :: rest = d :: behind :=
      List.exists_cons_of_ne_nil (List.append_ne_nil_of_right_ne_nil _ (List.cons_ne_nil _ _))
    rw [List.cons_append, hbehind, afterShort?, if_neg hc.2, if_neg hc.1, ← hbehind]
    exact ih fun d hd => h d (List.mem_cons_of_mem _ hd)

end Bare

/-- A string is hidden, and what follows it is not. -/
theorem marks_singleQuoted {t : Text} (h : ∀ c ∈ t, isBare c = true) (rest : Text) :
    marks 0 (singleQuoted t ++ rest) =
      List.replicate (singleQuoted t).length false ++ marks 0 rest := by
  have htext : singleQuoted t ++ rest = '\'' :: (t ++ '\'' :: rest) := by simp [singleQuoted]
  have hafter : afterHidden? (singleQuoted t ++ rest) = some rest := by
    rw [htext]
    show some ((afterShort? '\'' (t ++ '\'' :: rest)).getD []) = _
    rw [afterShort?_of_isBare h rest]
    rfl
  exact marks_of_afterHidden? (List.cons_ne_nil _ _) hafter

end Lua

open Lua

/-! ### The call -/

/-- A call of `include` with a path. -/
def includeCall (path : Path) : Text := "include".toList ++ '(' :: (singleQuoted path ++ [')'])

section Call

variable {path : Path}

theorem marked_includeCall (h : ∀ c ∈ path, isBare c = true) : marked (includeCall path) =
    "include(".toList.map (·, true) ++ ((singleQuoted path).map (·, false) ++ [(')', true)]) := by
  have htext : includeCall path = "include(".toList ++ (singleQuoted path ++ [')']) := rfl
  have hcallee : Outside "include(".toList := .of_isPlain (List.all_eq_true.1 rfl)
  rw [marked, significance, htext, hcallee, marks_singleQuoted h, zip_append_mark,
    zip_append_mark]
  rfl

theorem closingParen?_includeCall (h : ∀ c ∈ path, isBare c = true) :
    closingParen? (includeCall path) 7 = some ((singleQuoted path).length + 8) := by
  have hopening : (includeCall path)[7]? = some '(' := rfl
  have hbehind : closingIndex? 1 [(')', true)] = some 0 := rfl
  have hindex : closingIndex? 0 (('(', true) ::
      ((singleQuoted path).map (·, false) ++ [(')', true)])) =
        some ((singleQuoted path).length + 1) := by
    show (closingIndex? 1 ((singleQuoted path).map (·, false) ++ [(')', true)])).map (· + 1) = _
    rw [closingIndex?_hidden, hbehind, Option.map_some, Option.map_some, Nat.zero_add]
  have hdrop : (marked (includeCall path)).drop 7 =
      ('(', true) :: ((singleQuoted path).map (·, false) ++ [(')', true)]) := by
    rw [marked_includeCall h]
    rfl
  rw [closingParen?, if_pos hopening, hdrop, hindex, Option.map_some, Nat.add_comm]

/-- The call is taken apart into its callee and its path. -/
theorem CodeLine.ofCode?_includeCall (h : ∀ c ∈ path, isBare c = true) :
    ofCode? (includeCall path) = some (.call "__include" (singleQuoted path) []) := by
  have hprint : asCall? (includeCall path) "print" "__print" = none := rfl
  have hafter : Text.after? "include" (includeCall path) =
      some ('(' :: (singleQuoted path ++ [')'])) := rfl
  have htext : includeCall path = ("include(".toList ++ singleQuoted path) ++ [')'] := rfl
  have hlength : ("include(".toList ++ singleQuoted path).length =
      (singleQuoted path).length + 8 := by
    rw [List.length_append, Nat.add_comm]
    rfl
  have harguments : ((includeCall path).take ((singleQuoted path).length + 8)).drop 8 =
      singleQuoted path := by
    rw [htext, List.take_left' hlength]
    rfl
  have hbehind : (includeCall path).drop ((singleQuoted path).length + 8 + 1) = [] := by
    refine List.drop_eq_nil_of_le (Nat.le_of_eq ?_)
    rw [htext, List.length_append, hlength, List.length_singleton]
  have htrim : Text.trim (singleQuoted path) = singleQuoted path := by
    have hend : Text.EndsInk (singleQuoted path) := by
      show Text.EndsInk (('\'' :: path) ++ ['\''])
      exact Text.EndsInk.append (by decide) (List.cons_ne_nil _ _) _
    have hstart : Text.StartsInk (singleQuoted path) := by
      rintro c ⟨⟩
      rfl
    rw [Text.trim, hstart.trimStart_eq, Text.trimEnd_of_endsInk hend]
  have hinclude : asCall? (includeCall path) "include" "__include" =
      some (some (.call "__include" (singleQuoted path) [])) := by
    unfold asCall?
    rw [hafter]
    show some ((closingParen? (includeCall path) 7).map _) = _
    rw [closingParen?_includeCall h, Option.map_some]
    dsimp only
    rw [show "include".toList.length + 1 = 8 from rfl, harguments, htrim, hbehind]
  unfold ofCode? writers
  rw [List.findSome?_cons]
  dsimp only
  rw [hprint, List.findSome?_cons]
  dsimp only
  rw [hinclude]
  rfl

/-- The call opens no block unless it ends like a function header. -/
theorem BlockKind.opening?_includeCall (h : ∀ c ∈ path, isBare c = true)
    (hheader : endsInFunctionHeader (includeCall path) = false) :
    opening? (includeCall path) = none := by
  have hlast : (includeCall path).getLast? = some ')' := by
    show (("include(".toList ++ singleQuoted path) ++ [')']).getLast? = _
    rw [List.getLast?_concat]
  have hmark : (marked (includeCall path)).getLast? = some (')', true) := by
    rw [marked_includeCall h, ← List.append_assoc, List.getLast?_concat]
  have hread : significantPrefix (includeCall path) = includeCall path :=
    significantPrefix_of_getLast? hmark rfl
  have hword : ∀ word : Text, word.getLast? ≠ some ')' → word ≠ [] →
      Text.endsWithWord (includeCall path) word = false := fun word hword hne =>
    Text.endsWithWord_of_getLast?_ne hne (by rw [hlast]; exact hword.symm)
  unfold opening?
  dsimp only
  rw [hread, hword "then" (by decide) (by decide), hword "else" (by decide) (by decide),
    hword "do" (by decide) (by decide), hword "repeat" (by decide) (by decide), hheader]
  rfl

/-- The call that is told the indentation of its line. -/
theorem CodeLine.statement_includeCall (h : ∀ c ∈ path, isBare c = true) (indent : Text) :
    statement indent (.call "__include" (singleQuoted path) []) = includeText indent path := by
  have hne : singleQuoted path ≠ [] := List.cons_ne_nil _ _
  unfold statement includeText
  dsimp only
  rw [if_neg hne, quote_of_isBare h, List.append_nil, ← List.append_assoc]
  rfl

end Call

/-! ### The line -/

/-- The path in a line `<% include('path')`, at any indentation. -/
def includedPath? (content : Text) : Option Path := do
  let argument ← Text.after? "<% include('" content.trimStart
  let path ← Text.before? "')" argument
  if path.all isBare then some path else none

section Line

variable {content : Text} {path : Path} (h : includedPath? content = some path)
include h

theorem argument_of_includedPath? :
    Text.after? "<% include('" content.trimStart = some (path ++ ['\'', ')']) ∧
      ∀ c ∈ path, isBare c = true := by
  obtain ⟨argument, hargument, h⟩ := Option.bind_eq_some_iff.1 h
  obtain ⟨found, hfound, h⟩ := Option.bind_eq_some_iff.1 h
  split at h
  · next hbare =>
    obtain rfl := Option.some.inj h
    rw [hargument, Text.before?_eq_some_iff.1 hfound]
    exact ⟨rfl, List.all_eq_true.1 hbare⟩
  · cases h

theorem trimStart_of_includedPath? :
    content.trimStart = Delimiters.standard.left ++ ' ' :: includeCall path := by
  have hend : path ++ ['\'', ')'] = (path ++ ['\'']) ++ [')'] :=
    (List.append_assoc path ['\''] [')']).symm
  rw [Text.after?_eq_some_iff.1 (argument_of_includedPath? h).1, hend]
  rfl

theorem ofLine_of_includedPath? :
    Form.ofLine .standard content = .ok (.code content.indentation (includeCall path)) := by
  have hblanks : ∀ c ∈ content.indentation, isBlank c = true :=
    fun c hc => Text.isBlank_of_mem_indentation hc
  have hend : Text.EndsInk (includeCall path) := by
    show Text.EndsInk (("include(".toList ++ singleQuoted path) ++ [')'])
    exact Text.EndsInk.append (by decide) (List.cons_ne_nil _ _) _
  have hstart : Text.StartsInk (includeCall path) := by
    rintro c ⟨⟩
    rfl
  have hlast : Text.EndsInk (' ' :: includeCall path) :=
    Text.EndsInk.append hend (List.cons_ne_nil _ _) [' ']
  have hright : Text.before? Delimiters.standard.right (Text.trimEnd (' ' :: includeCall path)) =
      none := by
    rw [Text.trimEnd_of_endsInk hlast]
    refine Text.before?_of_getLast?_ne Delimiters.standard.right_ne ?_
    show (([' '] ++ "include(".toList ++ singleQuoted path) ++ [')']).getLast? ≠ _
    rw [List.getLast?_concat]
    decide
  have htrim : Text.trim (' ' :: includeCall path) = includeCall path := by
    have hspace : ∀ c ∈ [' '], isBlank c = true := List.forall_mem_singleton.2 rfl
    have hbody : Text.trimStart (' ' :: includeCall path) = includeCall path :=
      Text.trimStart_append hspace hstart
    rw [Text.trim, hbody, Text.trimEnd_of_endsInk hend]
  have hform := Form.ofLine_code (d := .standard) hblanks (by decide) rfl hright
  rw [htrim, ← trimStart_of_includedPath? h, content.indentation_append_trimStart] at hform
  exact hform

omit h

theorem includedPath?_of_cut?_eq_none (hcut : Text.cut? Delimiters.standard.left content = none) :
    includedPath? content = none := by
  cases hpath : includedPath? content with
  | none => rfl
  | some path =>
    have hafter := Text.after?_trimStart_of_cut?_eq_none Delimiters.standard.left_ne hcut
    rw [trimStart_of_includedPath? hpath, Text.after?_append] at hafter
    cases hafter

end Line

/-! ### No directive -/

/-- The line has no left delimiter, or it includes a template. -/
def IsLiteralOrInclusion (content : Text) : Prop :=
  Text.cut? Delimiters.standard.left content = none ∨ (includedPath? content).isSome

/-- A line like that does not begin with a directive, whatever ends it. -/
theorem IsLiteralOrInclusion.digitsHere?_eq_none {content behind : Text}
    (h : IsLiteralOrInclusion content) (hbehind : ∀ c ∈ behind.head?, c = '\n') :
    Directive.digitsHere? .standard (content.trimStart ++ behind) = none := by
  rcases h with hcut | hincluded
  · have hafter := Text.after?_trimStart_of_cut?_eq_none Delimiters.standard.left_ne hcut
    refine Directive.digitsHere?_of_after? ?_
    cases behind with
    | nil => rwa [List.append_nil]
    | cons c rest =>
      obtain rfl := hbehind c rfl
      exact Text.after?_append_cons_of_none hafter (by decide) rest
  · obtain ⟨path, hpath⟩ := Option.isSome_iff_exists.1 hincluded
    have hcode : Text.after? Delimiters.standard.left (content.trimStart ++ behind) =
        some (' ' :: (includeCall path ++ behind)) := by
      rw [trimStart_of_includedPath? hpath, List.append_assoc]
      exact Text.after?_append _ _
    exact Directive.digitsHere?_of_code hcode rfl

/-- A source of lines like that has no directive. -/
theorem digits?_of_lines {source : Text} (h : ∀ l ∈ source.rawLines, IsLiteralOrInclusion l.1) :
    Directive.digits? .standard source = none := by
  have hhere : Directive.digitsHere? .standard source.trimStart = none := by
    induction source using Text.induction_lines with
    | nil => rfl
    | line t ht hne =>
      rw [Text.rawLines_line ht hne, List.forall_mem_singleton] at h
      rw [← List.append_nil (Text.trimStart t)]
      exact h.digitsHere?_eq_none nofun
    | append t rest ht ih =>
      rw [Text.rawLines_append ht, List.forall_mem_cons] at h
      cases hblank : t.isBlankLine with
      | true =>
        have hskip : Text.trimStart (t ++ '\n' :: rest) = Text.trimStart rest :=
          List.dropWhile_append_of_pos (List.all_eq_true.1 hblank)
        rw [hskip]
        exact ih h.2
      | false =>
        have hink := (Text.startsInk_trimStart t).append (Text.isBlankLine_eq_false_iff.1 hblank)
          ('\n' :: rest)
        have hstart := Text.trimStart_append
          (fun c hc => Text.isBlank_of_mem_indentation (t := t) hc) hink
        rw [← List.append_assoc, Text.indentation_append_trimStart t] at hstart
        rw [hstart]
        exact h.1.digitsHere?_eq_none fun c hc => (Option.some.inj hc).symm
  rw [← source.indentation_append_trimStart]
  exact Directive.digits?_append (by decide) (fun c hc => Text.isBlank_of_mem_indentation hc)
    (Text.startsInk_trimStart source) hhere

/-! ### What lines contribute -/

namespace Line

variable {σ : Type} {d : Delimiters} {template : Text} {world : σ} {context : Context σ}
  {line : Line} {path : Path} {included : Text}

/-- A line without left delimiters contributes itself. -/
theorem contributes_literal (hcut : Text.cut? d.left line.content = none) :
    line.Contributes d template world context line.text := by
  have hsaid : List.Forall₂ (Sentence.Says world context)
      [.print line.content line.terminated] [line.text] := .cons (Sentence.says_print _ _) .nil
  cases hblank : line.content.isBlankLine with
  | true =>
    refine ⟨.blank (printLiteral line.content line.terminated), _, _, ?_, rfl, rfl, hsaid,
      List.flatten_singleton⟩
    rw [Item.ofLine, Form.ofLine_blank hblank]
    rfl
  | false =>
    refine ⟨.output line.content.indentation [printLiteral line.content line.terminated], _, _, ?_,
      rfl, rfl, hsaid, List.flatten_singleton⟩
    rw [Item.ofLine, Form.ofLine_literal hblank hcut]
    rfl

/-- A line that includes a template contributes what the host has for it, indented as the line. -/
theorem contributes_inclusion (h : includedPath? line.content = some path)
    (hheader : BlockKind.endsInFunctionHeader (includeCall path) = false)
    (hhost : (context.host path .empty).run.run world = (.ok included, world)) :
    line.Contributes .standard template world context
      (indentLines line.content.indentation (chomp included) ++ ['\n']) := by
  obtain ⟨_, hbare⟩ := argument_of_includedPath? h
  have hopens := BlockKind.opening?_includeCall hbare hheader
  refine ⟨.code line.content.indentation (includeCall path)
    (.call "__include" (singleQuoted path) []),
    [.inclusion line.content.indentation path], [_], ?_, ?_, ?_,
    .cons (Sentence.says_inclusion _ hhost) .nil, List.flatten_singleton⟩
  · rw [Item.ofLine, ofLine_of_includedPath? h]
    dsimp only
    rw [Item.ofForm, CodeLine.ofCode?_includeCall hbare]
  · rw [Item.opens?, hopens]
    rfl
  · exact congrArg (fun t => [t]) (CodeLine.statement_includeCall hbare _)

end Line
end Stencil
