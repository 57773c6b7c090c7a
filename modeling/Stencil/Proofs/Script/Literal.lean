import Stencil.Proofs.Line.Escape
import Stencil.Proofs.Line.Source
import Stencil.Proofs.Lua.Program.Script
import Stencil.Proofs.Script.Directive
import Stencil.Proofs.Script.Flat

/-! Escaped templates.

A source with its left delimiters made literal has no placeholders and no code: its script only
prints, piece by piece, what the source was. -/
namespace Stencil

open Lua

/-- A text and whether its line ends behind it. -/
abbrev Piece := Text × Bool

def Piece.statement (p : Piece) : Text := printLiteral p.1 p.2

/-! ### Programs that only print -/

namespace Lua.Program

def ofPieces : List Piece → Program
  | [] => done
  | (content, endLine) :: rest => print content endLine (ofPieces rest)

theorem lines_ofPieces (depth : Nat) (pieces : List Piece) :
    (ofPieces pieces).lines depth = pieces.map fun p => (depth, p.statement) := by
  induction pieces with
  | nil => rfl
  | cons p rest ih => rw [ofPieces, lines, ih, List.map_cons]; rfl

theorem eval_ofPieces (holds : Text → Bool) (values : Text → Int) (pieces : List Piece) :
    (ofPieces pieces).eval holds values = Text.unlines pieces := by
  induction pieces with
  | nil => rfl
  | cons p rest ih => rw [ofPieces, eval, ih]; rfl

theorem closed_ofPieces (pieces : List Piece) : (ofPieces pieces).Closed [] [] := by
  induction pieces with
  | nil => exact trivial
  | cons p rest ih => exact ih

theorem levels_ofPieces (pieces : List Piece) : (ofPieces pieces).levels ≤ 2 := by
  induction pieces with
  | nil => exact Nat.zero_le 2
  | cons p rest ih => exact Nat.max_le.2 ⟨Nat.le_refl 2, ih⟩

theorem loops_ofPieces (pieces : List Piece) : (ofPieces pieces).loops = 0 := by
  induction pieces with
  | nil => rfl
  | cons p rest ih => exact ih

/-- Programs that only print can always be run. -/
theorem runs_ofPieces (scope : Scope) (functions : Table HostFunction) (holds : Text → Bool)
    (pieces : List Piece) : (ofPieces pieces).Runs scope functions holds := by
  refine ⟨⟨[], closed_ofPieces pieces, nofun⟩,
    Nat.le_trans (levels_ofPieces pieces) (by decide), ?_⟩
  rw [loops_ofPieces]
  exact Nat.zero_le _

end Lua.Program

/-! ### Items that only print -/

/-- The item prints some pieces and opens no block. -/
def Item.Prints (pieces : List Piece) : Item → Prop
  | blank statement => [statement] = pieces.map Piece.statement
  | output _ statements => statements = pieces.map Piece.statement
  | code .. => False

theorem Item.Prints.opens?_eq_none {pieces : List Piece} {item : Item} (h : item.Prints pieces) :
    item.opens? = none := by
  cases item with
  | code indent text line => exact h.elim
  | blank statement => rfl
  | output indent statements => rfl

theorem Item.Prints.texts_eq {pieces : List Piece} {item : Item} (h : item.Prints pieces) :
    item.texts item.indent = pieces.map Piece.statement := by
  cases item with
  | code indent text line => exact h.elim
  | blank statement => exact h
  | output indent statements => exact h

/-- Items that only print are laid out in order, at no depth. -/
theorem Item.statementsFrom_prints {pieces : List (List Piece)} {items : List Item}
    (h : List.Forall₂ Item.Prints pieces items) (held : List Text) :
    (statementsFrom ⟨[], held⟩ items).map Statement.placed =
      (held ++ pieces.flatten.map Piece.statement).map fun t => (0, t) := by
  obtain ⟨hopens, htexts⟩ : (∀ item ∈ items, item.opens? = none) ∧
      (items.flatMap fun item => item.texts item.indent) =
        pieces.flatten.map Piece.statement := by
    induction h with
    | nil => exact ⟨nofun, rfl⟩
    | cons hitem _ ih =>
      refine ⟨List.forall_mem_cons.2 ⟨hitem.opens?_eq_none, ih.1⟩, ?_⟩
      rw [List.flatMap_cons, hitem.texts_eq, ih.2, List.flatten_cons, List.map_append]
  rw [statementsFrom_flat hopens, htexts]

/-! ### Lines -/

/-- Pieces of a line, of which the last one ends the line. -/
def endLast (terminated : Bool) : List Text → List Piece
  | [] => []
  | [last] => [(last, terminated)]
  | t :: rest => (t, false) :: endLast terminated rest

theorem unlines_endLast (terminated : Bool) {texts : List Text} (h : texts ≠ []) :
    Text.unlines (endLast terminated texts) =
      texts.flatten ++ if terminated then ['\n'] else [] := by
  induction texts with
  | nil => exact absurd rfl h
  | cons t rest ih =>
    cases rest with
    | nil => simp [endLast, Text.unlines]
    | cons next others =>
      have hrest := ih (List.cons_ne_nil _ _)
      rw [Text.unlines] at hrest
      rw [endLast, Text.unlines, List.map_cons, List.flatten_cons, hrest]
      · simp
      · exact List.cons_ne_nil _ _

theorem fragmentStatements_of_literal {d : Delimiters} (terminated : Bool) {fs : List Fragment}
    {texts : List Text} (h : fs.map (Fragment.literal? d) = texts.map some) :
    fragmentStatements d terminated fs = (endLast terminated texts).map Piece.statement := by
  have hone : ∀ {f : Fragment} {t : Text} (endLine : Bool), f.literal? d = some t →
      f.statement d endLine = printLiteral t endLine := by
    intro f t endLine hf
    cases f with
    | literal text => rw [← Option.some.inj hf]; rfl
    | escaped before => rw [← Option.some.inj hf]; rfl
    | placeholder expr => cases hf
  induction fs generalizing texts with
  | nil => rw [List.map_eq_nil_iff.1 h.symm]; rfl
  | cons f rest ih =>
    cases texts with
    | nil => cases h
    | cons t others =>
      obtain ⟨hf, hrest⟩ := List.cons.inj h
      cases rest with
      | nil =>
        rw [List.map_eq_nil_iff.1 hrest.symm, fragmentStatements, hone _ hf]
        rfl
      | cons next fs =>
        cases others with
        | nil => cases hrest
        | cons next' others =>
          rw [fragmentStatements, hone _ hf, ih hrest]
          · rfl
          · exact List.cons_ne_nil _ _

/-- An escaped line prints what the line was. -/
theorem Item.ofLine_escapeAll {d : Delimiters} (hleft : d.left.StartsInk) (template : Text)
    (line : Line) :
    ∃ item pieces, ofLine d template { line with content := d.escapeAll line.content } = .ok item ∧
      Prints pieces item ∧ Text.unlines pieces = line.text := by
  rcases d.ofLine_escapeAll hleft line.content with ⟨_, hform⟩ |
    ⟨indent, fs, texts, hform, hliteral, hne, hcontent⟩
  · refine ⟨.blank (printLiteral line.content line.terminated), [(line.content, line.terminated)],
      ?_, rfl, ?_⟩
    · rw [ofLine, hform]
      rfl
    · simp [Text.unlines, Line.text]
  · refine ⟨.output indent (fragmentStatements d line.terminated fs),
      endLast line.terminated texts, ?_, fragmentStatements_of_literal _ hliteral, ?_⟩
    · rw [ofLine, hform]
      rfl
    · rw [unlines_endLast _ hne, hcontent]
      rfl

theorem Text.unlines_append (first second : List (Text × Bool)) :
    Text.unlines (first ++ second) = Text.unlines first ++ Text.unlines second := by
  simp [Text.unlines]

/-- Escaped lines are read one by one. -/
theorem items_of_escapeAll {d : Delimiters} (hleft : d.left.StartsInk) (template : Text)
    (lines : List Line) :
    ∃ items pieces,
      List.Forall₂ (fun line item => Item.ofLine d template line = .ok item)
        (lines.map fun l => { l with content := d.escapeAll l.content }) items ∧
      List.Forall₂ Item.Prints pieces items ∧
      Text.unlines pieces.flatten = (lines.map Line.text).flatten := by
  induction lines with
  | nil => exact ⟨[], [], .nil, .nil, rfl⟩
  | cons line rest ih =>
    obtain ⟨items, pieces, hitems, hprints, htext⟩ := ih
    obtain ⟨item, here, hitem, hhere, hline⟩ := Item.ofLine_escapeAll hleft template line
    refine ⟨item :: items, here :: pieces, .cons hitem hitems, .cons hhere hprints, ?_⟩
    rw [List.flatten_cons, Text.unlines_append, hline, htext, List.map_cons, List.flatten_cons]

/-! ### Templates -/

theorem digits?_escapeAll {d : Delimiters} (hleft : d.left.StartsInk) (hescape : d.escape.StartsInk)
    (hmark : d.escape.head? ≠ some '_') (source : Text) :
    Directive.digits? d (d.escapeAll source) = none := by
  have hblanks : ∀ c ∈ source.indentation, isBlank c = true :=
    fun c hc => Text.isBlank_of_mem_indentation hc
  rw [← Text.indentation_append_trimStart source, d.escapeAll_blank_append hleft hblanks]
  refine Directive.digits?_append hleft hblanks
    (d.startsInk_escapeAll hleft (Text.startsInk_trimStart source)) ?_
  have hescaped := d.after?_escapeAll source.trimStart
  cases hafter : Text.after? d.left source.trimStart with
  | none =>
    rw [hafter, Option.map_none] at hescaped
    exact Directive.digitsHere?_of_after? hescaped
  | some rest =>
    rw [hafter, Option.map_some] at hescaped
    refine Directive.digitsHere?_of_code hescaped ?_
    rw [(hescape.append d.escape_ne _).trimStart_eq]
    obtain ⟨c, cs, hcs⟩ := List.exists_cons_of_ne_nil d.escape_ne
    have hc : '_' ≠ c := by
      rintro rfl
      exact hmark (by rw [hcs]; rfl)
    rw [hcs]
    exact Text.after?_cons_of_ne hc _ _

theorem lineFeed_not_mem_statement (p : Piece) : '\n' ∉ p.statement := by
  unfold Piece.statement printLiteral
  split
  · simp [lineFeed_not_mem_quote]
  · simp [lineFeed_not_mem_quote]

/-- **An escaped text is printed as it was.** Its script is one statement a line, each of which
prints a literal, and its output is the text with the ends of its lines normalized. A text without
left delimiters does not change when it is escaped. -/
theorem Template.compile_escapeAll {d : Delimiters} (hreturn : '\r' ∉ d.left ∧ '\r' ∉ d.escape)
    (hleft : d.left.StartsInk) (hescape : d.escape.StartsInk) (hmark : d.escape.head? ≠ some '_')
    (unit : Nat) (path : Option Path) {s : Text} (hs : s.getLast? ≠ some '\r') :
    ∃ (script : Script) (pieces : List Piece),
      Template.compile d unit ⟨d.escapeAll s, path⟩ = .ok script ∧
      script.code = Text.join "\n" (pieces.map Piece.statement) ∧
      (∀ p ∈ pieces, '\n' ∉ p.statement) ∧
      Text.unlines pieces = s.normalizeLineEnds ∧
      (∀ {σ : Type} {scope : Scope} {functions : Table HostFunction}, Unhidden scope functions →
        ∀ (host : Host σ) (state : σ), (execute ⟨script.code, scope, functions⟩ host).run state =
          (.ok s.normalizeLineEnds, state)) ∧
      (Text.cut? d.left s = none → d.escapeAll s = s) := by
  obtain ⟨items, pieces, hitems, hprints, htext⟩ :=
    items_of_escapeAll hleft (description ⟨d.escapeAll s, path⟩) (Line.ofSource s)
  rw [flatten_text_ofSource hs] at htext
  rw [← d.ofSource_escapeAll hreturn.1 hreturn.2] at hitems
  have hcompile : Template.compile d unit ⟨d.escapeAll s, path⟩ =
      .ok ⟨unit, Item.statements items⟩ := by
    unfold Template.compile Directive.unit?
    rw [digits?_escapeAll hleft hescape hmark, mapM_eq_ok hitems]
    rfl
  have hprogram : Script.IsProgram ⟨unit, Item.statements items⟩ (.ofPieces pieces.flatten) := by
    rw [Script.IsProgram, Program.lines_ofPieces]
    refine (Item.statementsFrom_prints hprints []).trans ?_
    rw [List.nil_append, List.map_map]
    rfl
  refine ⟨_, pieces.flatten, hcompile, ?_, fun p _ => lineFeed_not_mem_statement p, htext, ?_,
    d.escapeAll_of_cut?_eq_none⟩
  · rw [hprogram.code_eq, Program.code, Program.lines_ofPieces, List.map_map]
    rfl
  · intro σ scope functions hunhidden host state
    rw [hprogram.execute_code (Program.runs_ofPieces scope functions (fun _ => false) _) hunhidden
      (fun _ => 0) host state, Program.eval_ofPieces, htext]

/-- A line with a delimiter in it, with a quote and with a carriage return at its end. -/
theorem Template.compile_escapeAll_delimiter :
    ∃ (script : Script) (pieces : List Piece),
      Template.compile .standard 4 ⟨Delimiters.standard.escapeAll "don't <% x %>\r\n", none⟩ =
        .ok script ∧
      Text.unlines pieces = "don't <% x %>\n".toList ∧
      ∀ host : Host Unit, (execute ⟨script.code, .empty, .empty⟩ host).run () =
        (.ok "don't <% x %>\n".toList, ()) := by
  obtain ⟨script, pieces, hcompile, _, _, hpieces, hrun, _⟩ :=
    Template.compile_escapeAll (d := .standard) (by decide) (by decide) (by decide) (by decide) 4
      none (s := "don't <% x %>\r\n".toList) (by decide)
  have hunhidden : Unhidden .empty .empty := ⟨by decide, by decide⟩
  exact ⟨script, pieces, hcompile, hpieces, fun host => hrun hunhidden host ()⟩

end Stencil
