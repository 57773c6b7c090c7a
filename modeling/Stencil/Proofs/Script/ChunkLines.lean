import Stencil.Lua.Token
import Stencil.Proofs.Line.Source
import Stencil.Proofs.Lua.Quote
import Stencil.Proofs.Script.Accounting

/-! The lines of a script and the lines of a chunk.

A script is written one statement a line, but the script language has line ends of its own: a
carriage return ends a line there as a line feed does. What a template writes into a statement
without quoting, code and expressions, is the `verbatim` part of its lines. A line feed never gets
into it, and a carriage return gets into a statement only from there
(`Template.lineBreak_mem_statement_iff`); so the two ways to count lines agree exactly when no
verbatim part holds a carriage return (`Template.compile_chunkLines`). -/
namespace Stencil

/-! ### Lines of a chunk -/

namespace Lua

theorem length_lt_of_afterLineEnd? {t rest : Text} (h : afterLineEnd? t = some rest) :
    rest.length < t.length := by
  unfold afterLineEnd? at h
  split at h <;> cases h <;> simp only [List.length_cons] <;> omega

/-- The lines of a chunk, as the reader of tokens counts them. -/
def chunkLines (t : Text) : List Text :=
  match _h : afterLineEnd? t with
  | some rest => [] :: chunkLines rest
  | none =>
    match t with
    | [] => [[]]
    | c :: rest =>
      match chunkLines rest with
      | [] => [[c]]
      | line :: lines => (c :: line) :: lines
termination_by t.length
decreasing_by
  · exact length_lt_of_afterLineEnd? _h
  · exact Nat.lt_succ_self _

/-- A character that ends a line, alone or together with the other one. -/
def IsLineBreak (c : Char) : Prop := c = '\n' ∨ c = '\r'

@[simp] theorem isLineBreak_lineFeed : IsLineBreak '\n' := .inl rfl

@[simp] theorem isLineBreak_return : IsLineBreak '\r' := .inr rfl

instance (c : Char) : Decidable (IsLineBreak c) := inferInstanceAs (Decidable (_ ∨ _))

theorem IsLineBreak.not_mem {b : Char} (hb : IsLineBreak b) {t : Text}
    (ht : t.all (¬IsLineBreak ·)) : b ∉ t :=
  fun hmem => of_decide_eq_true (List.all_eq_true.1 ht b hmem) hb

theorem not_isLineBreak_of_afterLineEnd? {c : Char} {t : Text}
    (h : afterLineEnd? (c :: t) = none) : ¬IsLineBreak c := by
  rintro (rfl | rfl)
  · unfold afterLineEnd? at h
    split at h <;> simp_all
  · unfold afterLineEnd? at h
    split at h <;> simp_all

theorem chunkLines_of_afterLineEnd? {t rest : Text} (h : afterLineEnd? t = some rest) :
    chunkLines t = [] :: chunkLines rest := by
  rw [chunkLines]
  split
  · next hfound => rw [h] at hfound; cases hfound; rfl
  · next hnone => rw [h] at hnone; cases hnone

theorem chunkLines_nil : chunkLines [] = [[]] := by
  rw [chunkLines]
  rfl

theorem chunkLines_cons {c : Char} {t line : Text} {lines : List Text} (hc : ¬IsLineBreak c)
    (ht : chunkLines t = line :: lines) : chunkLines (c :: t) = (c :: line) :: lines := by
  have hnone := afterLineEnd?_cons (not_or.1 hc) t
  rw [chunkLines]
  split
  · next hsome => rw [hnone] at hsome; cases hsome
  · show (match chunkLines t with | [] => [[c]] | line :: lines => (c :: line) :: lines) = _
    rw [ht]

theorem chunkLines_of_plain {line : Text} (h : ∀ c ∈ line, ¬IsLineBreak c) :
    chunkLines line = [line] := by
  induction line with
  | nil => exact chunkLines_nil
  | cons c cs ih =>
    exact chunkLines_cons (h c List.mem_cons_self) (ih fun x hx => h x (List.mem_cons_of_mem _ hx))

/-- A line feed ends a line; it would take a carriage return behind it along. -/
theorem chunkLines_append {line rest : Text} (h : ∀ c ∈ line, ¬IsLineBreak c)
    (hrest : rest.head? ≠ some '\r') :
    chunkLines (line ++ '\n' :: rest) = line :: chunkLines rest := by
  induction line with
  | nil =>
    refine chunkLines_of_afterLineEnd? ?_
    cases rest with
    | nil => rfl
    | cons c cs =>
      unfold afterLineEnd?
      split
      · next heq => cases (List.cons.inj heq).1
      · next heq =>
        rw [← (List.cons.inj (List.cons.inj heq).2).1] at hrest
        exact absurd rfl hrest
      · next heq => cases (List.cons.inj heq).1
      · next heq => rw [(List.cons.inj heq).2]
      · next hother => exact absurd rfl (hother _)
  | cons c cs ih =>
    exact chunkLines_cons (h c List.mem_cons_self) (ih fun x hx => h x (List.mem_cons_of_mem _ hx))

theorem head?_join_ne_return {lines : List Text} (h : ∀ line ∈ lines, ∀ c ∈ line, ¬IsLineBreak c) :
    (Text.join "\n" lines).head? ≠ some '\r' := by
  have hhead : ∀ {line : Text}, line ∈ lines → line.head? ≠ some '\r' := by
    intro line hline hreturn
    exact h line hline '\r' (List.mem_of_mem_head? hreturn) isLineBreak_return
  match lines with
  | [] => exact nofun
  | [line] => exact hhead List.mem_cons_self
  | [] :: next :: rest => exact nofun
  | (c :: cs) :: next :: rest =>
    have hfirst := hhead (List.mem_cons_self : c :: cs ∈ (c :: cs) :: next :: rest)
    exact hfirst

/-- Lines that hold no line break are found again in a chunk that is made of them. -/
theorem chunkLines_join {lines : List Text} (hne : lines ≠ [])
    (h : ∀ line ∈ lines, ∀ c ∈ line, ¬IsLineBreak c) : chunkLines (Text.join "\n" lines) = lines := by
  induction lines with
  | nil => exact absurd rfl hne
  | cons line rest ih =>
    have hline := h line List.mem_cons_self
    have hrest : ∀ l ∈ rest, ∀ c ∈ l, ¬IsLineBreak c := fun l hl => h l (List.mem_cons_of_mem _ hl)
    cases rest with
    | nil => exact chunkLines_of_plain hline
    | cons next others =>
      show chunkLines (line ++ ['\n'] ++ Text.join "\n" (next :: others)) = _
      rw [List.append_assoc, List.singleton_append,
        chunkLines_append hline (head?_join_ne_return hrest), ih (List.cons_ne_nil _ _) hrest]

/-- No line of a chunk holds a line break. -/
theorem not_isLineBreak_of_mem_chunkLines (t : Text) :
    ∀ line ∈ chunkLines t, ∀ c ∈ line, ¬IsLineBreak c := by
  fun_induction chunkLines t with
  | case1 t rest hend ih =>
    intro line hline
    rcases List.mem_cons.1 hline with rfl | hrest
    · exact nofun
    · exact ih line hrest
  | case2 hend =>
    intro line hline
    rw [List.mem_singleton.1 hline]
    exact nofun
  | case3 c rest hend hnil ih =>
    intro line hline x hx
    rw [List.mem_singleton.1 hline] at hx
    exact List.mem_singleton.1 hx ▸ not_isLineBreak_of_afterLineEnd? hend
  | case4 c rest hend first lines hrest ih =>
    rw [hrest] at ih
    intro line hline x hx
    rcases List.mem_cons.1 hline with rfl | hlater
    · rcases List.mem_cons.1 hx with rfl | hx
      · exact not_isLineBreak_of_afterLineEnd? hend
      · exact ih first List.mem_cons_self x hx
    · exact ih line (List.mem_cons_of_mem _ hlater) x hx

end Lua

open Lua

/-! ### What is not quoted -/

def Fragment.verbatim : Fragment → Text
  | literal _ | escaped _ => []
  | placeholder expr => expr

def CodeLine.verbatim : CodeLine → Text
  | plain code => code
  | call _ arguments rest => arguments ++ rest

def Form.verbatim : Form → Text
  | blank _ => []
  | code _ script => ((CodeLine.ofCode? script).map CodeLine.verbatim).getD []
  | placeholder _ expr => expr
  | text _ fs => fs.flatMap Fragment.verbatim

/-- What a script has of a line as it is: expressions, code, and of a call that writes at an
indentation its arguments and what follows it. -/
def Line.verbatim (d : Delimiters) (line : Line) : Text :=
  match Form.ofLine d line.content with
  | .ok form => form.verbatim
  | .error _ => []

/-! ### Verbatim text comes from the line -/

theorem Text.mem_of_mem_trimEnd {t : Text} {c : Char} (h : c ∈ t.trimEnd) : c ∈ t := by
  rw [trimEnd, dropEndWhile, List.mem_reverse] at h
  exact List.mem_reverse.1 ((List.dropWhile_sublist _).mem h)

theorem Text.mem_of_mem_trim {t : Text} {c : Char} (h : c ∈ t.trim) : c ∈ t :=
  (List.dropWhile_sublist _).mem (mem_of_mem_trimEnd h)

theorem Fragment.mem_of_mem_verbatim {d : Delimiters} {t : Text} {fs : List Fragment}
    (h : fragments d t = .ok fs) : ∀ c ∈ fs.flatMap verbatim, c ∈ t := by
  refine fragments_induction (P := fun t fs => ∀ c ∈ fs.flatMap verbatim, c ∈ t)
    ?nil ?literal ?escaped ?placeholder h
  case nil => exact nofun
  case literal => exact nofun
  case escaped =>
    intro before rest more ih c hc
    have hmem := ih c hc
    simp [hmem]
  case placeholder =>
    intro before between rest more ih c hc
    have hsplit : c ∈ between.trim ∨ c ∈ more.flatMap verbatim := by
      by_cases hbefore : before = [] <;> simpa [hbefore, verbatim] using hc
    rcases hsplit with hexpr | hmore
    · have hmem := Text.mem_of_mem_trim hexpr
      simp [hmem]
    · have hmem := ih c hmore
      simp [hmem]

theorem CodeLine.mem_of_mem_verbatim {code : Text} {line : CodeLine}
    (h : ofCode? code = some line) : ∀ c ∈ line.verbatim, c ∈ code := by
  intro c hc
  rcases ofCode?_cases h with rfl | ⟨writer, _, closing, rfl⟩
  · exact hc
  · rcases List.mem_append.1 hc with harguments | hrest
    · exact List.mem_of_mem_take (List.mem_of_mem_drop (Text.mem_of_mem_trim harguments))
    · exact List.mem_of_mem_drop hrest

theorem Line.mem_of_mem_verbatim {d : Delimiters} {line : Line} :
    ∀ c ∈ line.verbatim d, c ∈ line.content := by
  intro c hc
  unfold verbatim at hc
  cases hform : Form.ofLine d line.content with
  | error e => rw [hform] at hc; cases hc
  | ok form =>
    rw [hform] at hc
    dsimp only at hc
    rcases Form.ofLine_cases hform with rfl | ⟨fs, hfs, rfl⟩ | ⟨inside, hinside, hcases⟩
    · cases hc
    · exact Fragment.mem_of_mem_verbatim hfs c hc
    · have hcontent : ∀ x ∈ inside, x ∈ line.content := by
        intro x hx
        refine (List.dropWhile_sublist isBlank).mem ?_
        rw [show line.content.dropWhile isBlank = d.left ++ inside from hinside]
        exact List.mem_append_right _ hx
      rcases hcases with rfl | ⟨between, hbetween, rfl⟩
      · have hc : c ∈ ((CodeLine.ofCode? inside.trim).map CodeLine.verbatim).getD [] := hc
        cases hcode : CodeLine.ofCode? inside.trim with
        | none => rw [hcode] at hc; cases hc
        | some found =>
          rw [hcode] at hc
          exact hcontent c (Text.mem_of_mem_trim (CodeLine.mem_of_mem_verbatim hcode c hc))
      · refine hcontent c (Text.mem_of_mem_trimEnd ?_)
        rw [hbetween]
        exact List.mem_append_left _ (Text.mem_of_mem_trim hc)

/-! ### Line breaks in statements -/

section
variable {b : Char} (hb : IsLineBreak b)
include hb

theorem lineBreak_not_mem_printLiteral (content : Text) (endLine : Bool) :
    b ∉ printLiteral content endLine := by
  have hopen : b ∉ "print(".toList ++ quote content :=
    List.not_mem_append (hb.not_mem rfl) (lineBreak_not_mem_quote hb content)
  unfold printLiteral
  split
  · exact List.not_mem_append hopen (hb.not_mem rfl)
  · exact List.not_mem_append hopen (hb.not_mem rfl)

theorem lineBreak_mem_printExpr (expr : Text) (endLine : Bool) :
    b ∈ printExpr expr endLine ↔ b ∈ expr := by
  have hopen : b ∉ "print(str(".toList := hb.not_mem rfl
  have hclose : b ∉ ") .. \"\\n\", \"\")".toList ∧ b ∉ "), \"\")".toList :=
    ⟨hb.not_mem rfl, hb.not_mem rfl⟩
  unfold printExpr
  split
  · simp only [List.mem_append, hopen, hclose.1, false_or, or_false]
  · simp only [List.mem_append, hopen, hclose.2, false_or, or_false]

theorem lineBreak_mem_fragmentStatements (d : Delimiters) (terminated : Bool)
    (fs : List Fragment) :
    b ∈ (fragmentStatements d terminated fs).flatten ↔ b ∈ fs.flatMap Fragment.verbatim := by
  have hone : ∀ (f : Fragment) (endLine : Bool), b ∈ f.statement d endLine ↔ b ∈ f.verbatim := by
    intro f endLine
    cases f with
    | literal text =>
      exact iff_of_false (lineBreak_not_mem_printLiteral hb _ _) List.not_mem_nil
    | escaped before =>
      exact iff_of_false (lineBreak_not_mem_printLiteral hb _ _) List.not_mem_nil
    | placeholder expr => exact lineBreak_mem_printExpr hb expr endLine
  induction fs with
  | nil => rfl
  | cons f rest ih =>
    cases rest with
    | nil => simp [fragmentStatements, hone]
    | cons next others =>
      rw [fragmentStatements]
      · rw [List.flatten_cons, List.mem_append, List.flatMap_cons, List.mem_append]
        exact or_congr (hone f false) ih
      · exact List.cons_ne_nil _ _

theorem lineBreak_mem_codeLine {code : Text} {line : CodeLine}
    (h : CodeLine.ofCode? code = some line) (leftover : Text) :
    b ∈ line.statement leftover ↔ b ∈ line.verbatim := by
  rcases CodeLine.ofCode?_cases h with rfl | ⟨writer, hwriter, closing, rfl⟩
  · rfl
  · have hcallee : b ∉ writer.2 :=
      hb.not_mem (List.all_eq_true.1 (by decide : CodeLine.writers.all fun w =>
        w.2.all (¬IsLineBreak ·)) writer hwriter)
    have hquote := lineBreak_not_mem_quote hb leftover
    have hmarks : b ∉ "(".toList ∧ b ∉ ")".toList ∧ b ∉ ", ".toList :=
      ⟨hb.not_mem rfl, hb.not_mem rfl, hb.not_mem rfl⟩
    generalize Text.trim _ = arguments
    have hfirst : b ∉ if arguments = [] then quote leftover else quote leftover ++ ", " := by
      split
      · exact hquote
      · exact List.not_mem_append hquote hmarks.2.2
    simp only [CodeLine.statement, CodeLine.verbatim, List.mem_append, hcallee, hmarks, hfirst,
      false_or, or_false]

/-- What a line generates has the line breaks of its verbatim text and no others. -/
theorem Item.lineBreak_mem_texts {d : Delimiters} {template : Text} {line : Line} {item : Item}
    (h : ofLine d template line = .ok item) (leftover : Text) :
    b ∈ (item.texts leftover).flatten ↔ b ∈ line.verbatim d := by
  obtain ⟨form, hform, h⟩ := exists_form_of_ofLine h
  rw [Line.verbatim, hform]
  cases form with
  | blank content =>
    cases h
    rw [texts, List.flatten_singleton]
    exact iff_of_false (lineBreak_not_mem_printLiteral hb _ _) List.not_mem_nil
  | placeholder indent expr =>
    cases h
    rw [texts, List.flatten_singleton]
    exact lineBreak_mem_printExpr hb expr false
  | text indent fs =>
    cases h
    exact lineBreak_mem_fragmentStatements hb d line.terminated fs
  | code indent script =>
    obtain ⟨parsed, hcode, rfl⟩ := ofForm_code_eq_ok_iff.1 h
    simp only [texts, Form.verbatim, hcode, Option.map_some, Option.getD_some,
      List.flatten_singleton, lineBreak_mem_codeLine hb hcode leftover]

theorem lineBreak_not_mem_closer (kind : BlockKind) : b ∉ kind.closer := by
  cases kind <;> exact hb.not_mem rfl

theorem Item.Accounts.lineBreak_mem {d : Delimiters} {template : Text} {line : Line} {item : Item}
    {group : List Statement} (haccounts : item.Accounts group)
    (h : Item.ofLine d template line = .ok item) :
    (∃ s ∈ group, b ∈ s.text) ↔ b ∈ line.verbatim d := by
  obtain ⟨depth, leftover, closings, rfl, _, hclosings⟩ := haccounts.split
  have hown : (∃ s ∈ realThenPhantoms depth (item.texts leftover), b ∈ s.text) ↔
      b ∈ (item.texts leftover).flatten := by
    cases item.texts leftover with
    | nil => simp [realThenPhantoms]
    | cons first rest => simp [realThenPhantoms, realAt, List.mem_flatten]
  rw [← lineBreak_mem_texts hb h leftover, ← hown]
  constructor
  · rintro ⟨s, hs, hbreak⟩
    rcases List.mem_append.1 hs with hs | hs
    · exact ⟨s, hs, hbreak⟩
    · obtain ⟨_, kind, hkind⟩ := hclosings s hs
      exact absurd (hkind ▸ hbreak) (lineBreak_not_mem_closer hb kind)
  · rintro ⟨s, hs, hbreak⟩
    exact ⟨s, List.mem_append_left _ hs, hbreak⟩

/-- A script has a line break in a statement exactly when its template has one in verbatim text. -/
theorem Template.lineBreak_mem_statement_iff {d : Delimiters} {unit : Nat} {t : Template}
    {script : Script} (h : t.compile d unit = .ok script) :
    (∃ s ∈ script.statements, b ∈ s.text) ↔ ∃ line ∈ Line.ofSource t.source, b ∈ line.verbatim d := by
  obtain ⟨groups, hgroups, hgroup, hlines⟩ := groups_of_compile h
  rw [hgroups]
  clear hgroups hgroup h
  generalize Line.ofSource t.source = lines at hlines
  induction hlines with
  | nil => simp
  | @cons line group lines groups hhead _ ih =>
    obtain ⟨item, hitem, haccounts⟩ := hhead
    have hone := haccounts.lineBreak_mem hb hitem
    constructor
    · rintro ⟨s, hs, hbreak⟩
      rcases List.mem_append.1 hs with hs | hs
      · exact ⟨line, List.mem_cons_self, hone.1 ⟨s, hs, hbreak⟩⟩
      · obtain ⟨later, hlater, hmem⟩ := ih.1 ⟨s, hs, hbreak⟩
        exact ⟨later, List.mem_cons_of_mem _ hlater, hmem⟩
    · rintro ⟨l, hl, hbreak⟩
      rcases List.mem_cons.1 hl with rfl | hl
      · obtain ⟨s, hs, hmem⟩ := hone.2 hbreak
        exact ⟨s, List.mem_append_left _ hs, hmem⟩
      · obtain ⟨s, hs, hmem⟩ := ih.2 ⟨l, hl, hbreak⟩
        exact ⟨s, List.mem_append_right _ hs, hmem⟩

end

/-- **A line of a script is a line of the chunk, but for carriage returns in code.** No statement
holds a line feed; a statement holds a carriage return exactly when the verbatim text of some line
does; and when none does, the lines that the line map counts are those of the chunk, and otherwise
they are not. -/
theorem Template.compile_chunkLines {d : Delimiters} {unit : Nat} {t : Template} {script : Script}
    (h : t.compile d unit = .ok script) :
    (∀ s ∈ script.statements, '\n' ∉ s.text) ∧
    ((∃ s ∈ script.statements, '\r' ∈ s.text) ↔
      ∃ line ∈ Line.ofSource t.source, '\r' ∈ line.verbatim d) ∧
    script.lines.length = script.lineMap.total ∧
    (script.lines ≠ [] → (chunkLines (Text.join "\n" script.lines) = script.lines ↔
      ∀ line ∈ Line.ofSource t.source, '\r' ∉ line.verbatim d)) := by
  have hfeed : ∀ s ∈ script.statements, '\n' ∉ s.text := by
    intro s hs hmem
    obtain ⟨line, hline, hverbatim⟩ :=
      (lineBreak_mem_statement_iff isLineBreak_lineFeed h).1 ⟨s, hs, hmem⟩
    exact Line.lineFeed_not_mem_content hline (Line.mem_of_mem_verbatim _ hverbatim)
  have hreturn := lineBreak_mem_statement_iff isLineBreak_return h
  refine ⟨hfeed, hreturn, ?_, fun hne => ⟨?_, ?_⟩⟩
  · rw [Script.lines, Script.lineMap, LineMap.total_ofLines, List.length_map, List.length_map]
  · intro hlines line hline hmem
    obtain ⟨s, hs, hbreak⟩ := hreturn.2 ⟨line, hline, hmem⟩
    have hthere : s.line script.indentUnit ∈ chunkLines (Text.join "\n" script.lines) :=
      hlines.symm ▸ List.mem_map_of_mem hs
    exact not_isLineBreak_of_mem_chunkLines _ _ hthere '\r' (List.mem_append_right _ hbreak)
      isLineBreak_return
  · intro hnone
    refine chunkLines_join hne fun line hline c hc hbreak => ?_
    obtain ⟨s, hs, rfl⟩ := List.mem_map.1 hline
    have htext : c ∈ s.text := by
      rcases List.mem_append.1 hc with hindent | htext
      · rw [List.eq_of_mem_replicate hindent] at hbreak
        exact absurd hbreak (by decide)
      · exact htext
    rcases hbreak with rfl | rfl
    · exact hfeed s hs htext
    · obtain ⟨line, hline, hmem⟩ := hreturn.1 ⟨s, hs, htext⟩
      exact hnone line hline hmem

/-- A carriage return in the text of a line is escaped. -/
theorem Template.compile_chunkLines_text :
    ∃ script, (inline "a\rb<% x %>\r\n<% y = '\t'".toList).compile .standard 4 = .ok script ∧
      '\r' ∈ "a\rb<% x %>\r\n<% y = '\t'".toList ∧
      chunkLines (Text.join "\n" script.lines) = script.lines := by
  have hcompile : (inline "a\rb<% x %>\r\n<% y = '\t'".toList).compile .standard 4 =
      .ok ⟨4, [⟨0, "print(\"a\\rb\", \"\")", .real⟩,
        ⟨0, "print(str(x) .. \"\\n\", \"\")", .phantom⟩, ⟨0, "y = '\t'", .real⟩]⟩ :=
    compile_eq_of_toOption (by decide +kernel)
  exact ⟨_, hcompile, by decide,
    ((compile_chunkLines hcompile).2.2.2 (List.cons_ne_nil _ _)).2 (by decide +kernel)⟩

/-- A carriage return in a code line is a line end of the chunk that no line map knows of: the call
on the second line of the template is on the third line of the chunk. -/
theorem Template.chunkLines_return :
    ∃ script,
      (inline "<% x = 1\ry = 2\n<% error('boom')\n".toList).compile .standard 4 = .ok script ∧
      (∃ s ∈ script.statements, '\r' ∈ s.text) ∧
      script.lines.map String.ofList = ["x = 1\ry = 2", "error('boom')"] ∧
      (chunkLines script.code).map String.ofList = ["x = 1", "y = 2", "error('boom')"] := by
  have hcompile : (inline "<% x = 1\ry = 2\n<% error('boom')\n".toList).compile .standard 4 =
      .ok ⟨4, [⟨0, "x = 1\ry = 2", .real⟩, ⟨0, "error('boom')", .real⟩]⟩ :=
    compile_eq_of_toOption (by decide +kernel)
  refine ⟨_, hcompile, by decide, by decide, ?_⟩
  have hcode : Script.code ⟨4, [⟨0, "x = 1\ry = 2", .real⟩, ⟨0, "error('boom')", .real⟩]⟩ =
      "x = 1\ry = 2\nerror('boom')" := by
    decide +kernel
  rw [hcode]
  cbv

end Stencil
