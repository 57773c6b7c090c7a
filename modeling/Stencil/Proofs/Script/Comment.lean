import Stencil.Proofs.Lua.Comment
import Stencil.Proofs.Script.Accounting
import Stencil.Proofs.Script.CodePlace
import Stencil.Proofs.Script.Rewriting
import Stencil.Proofs.Text.Words

/-! A comment behind the code of a line.

Three places of the compiler look into code. What decides whether a block is opened is the
significant code, which a comment is no part of (`BlockKind.opening?_comment`); what takes over a
block is a word in front, which a comment does not touch (`BlockKind.takenOverBy_comment`); and a
call of a writer is closed where it was (`CodeLine.ofCode?_comment`). So the layout takes the same
step at the line but for one statement (`Item.lay_comment`), and all others are as they were
(`Item.statementsFrom_comment`).
Templates that differ in a comment have the same items but for one, hence the same line map and the
same script but for the comment (`Template.compile_comment`). -/
namespace Stencil

open Lua

variable {code remark : Text}

/-! ### Words -/

/-- What has no blank in it is not begun by code and gone on with in a comment. -/
theorem isPrefix_append_comment_iff {part : Text} (hpart : ' ' ∉ part) :
    part <+: code ++ comment remark ↔ part <+: code := by
  refine ⟨fun h => ?_, fun h => h.trans (List.prefix_append _ _)⟩
  refine (Text.isPrefix_or_reaches h).resolve_right ?_
  rintro ⟨_, ⟨⟩, hmem⟩
  exact hpart (List.mem_of_mem_drop hmem)

theorem startsWithWord_comment {word : Text} (hword : ' ' ∉ word) :
    (code ++ comment remark).startsWithWord word = code.startsWithWord word := by
  unfold Text.startsWithWord
  cases hafter : Text.after? word code with
  | none =>
    have hnone : Text.after? word (code ++ comment remark) = none := by
      rw [← Text.not_isPrefix_iff, isPrefix_append_comment_iff hword, Text.not_isPrefix_iff]
      exact hafter
    rw [hnone]
  | some rest =>
    rw [Text.after?_append_of_some hafter]
    cases rest with
    | cons c cs => rfl
    | nil => rfl

namespace BlockKind

theorem opening?_comment (hcode : IsComplete code) (h : IsRemark remark) :
    opening? (code ++ comment remark) = opening? code := by
  rw [opening?, opening?, significantPrefix_comment hcode h]

theorem takenOverBy_comment (kind : BlockKind) :
    kind.takenOverBy (code ++ comment remark) = kind.takenOverBy code := by
  have hword : ∀ word ∈ ["else".toList, "elseif".toList, "until".toList, "end".toList],
      (code ++ comment remark).startsWithWord word = code.startsWithWord word := by
    intro word hmem
    apply startsWithWord_comment
    revert word
    decide
  unfold takenOverBy
  rw [hword "else" (by simp), hword "elseif" (by simp), hword "until" (by simp),
    hword "end" (by simp)]

end BlockKind

/-! ### Calls of writers -/

namespace CodeLine

/-- The line with more code behind it. -/
def append (more : Text) : CodeLine → CodeLine
  | plain code => plain (code ++ more)
  | call callee arguments rest => call callee arguments (rest ++ more)

theorem statement_append (leftover more : Text) (line : CodeLine) :
    (line.append more).statement leftover = line.statement leftover ++ more := by
  cases line with
  | plain code => rfl
  | call callee arguments rest => simp [append, statement]

theorem asCall?_comment {name counterpart : Text} {line : CodeLine}
    (hname : ∀ c ∈ name, isPlain c = true) (hcode : IsComplete code)
    (h : asCall? code name counterpart = some (some line)) :
    asCall? (code ++ comment remark) name counterpart =
      some (some (line.append (comment remark))) := by
  have hprefix := isPrefix_of_asCall? h
  have hprefix' := hprefix.trans (List.prefix_append code (comment remark))
  unfold asCall? at h ⊢
  split at h
  · next inside hafter =>
    obtain ⟨closing, hclosing, rfl⟩ := Option.map_eq_some_iff.1 (Option.some.inj h)
    have hcloses := (closingParen?_eq_some_iff (marked_callee hname hprefix)).1 hclosing
    have hcloses' := hcloses.append hcode (ends_comment remark)
    have hlength := hcloses.lt_length
    rw [Text.after?_append_of_some hafter]
    dsimp only [List.cons_append]
    rw [(closingParen?_eq_some_iff (marked_callee hname hprefix')).2 hcloses', Option.map_some,
      List.take_append_of_le_length (Nat.le_of_lt hlength),
      List.drop_append_of_le_length hlength]
    rfl
  · cases h

/-- **A comment stays behind the statement of its line.** -/
theorem ofCode?_comment {line : CodeLine} (hcode : IsComplete code) (h : ofCode? code = some line) :
    ofCode? (code ++ comment remark) = some (line.append (comment remark)) := by
  by_cases hcall : ∃ writer ∈ writers, writer.1 ++ ['('] <+: code
  · obtain ⟨writer, hwriter, hprefix⟩ := hcall
    obtain ⟨build, hbuild⟩ := asCall?_of_isPrefix writer.2 hprefix
    have hline := ofCode?_of_asCall? hwriter hbuild
    rw [hline] at h
    rw [h] at hbuild
    have hplain : ∀ c ∈ writer.1, isPlain c = true := fun c hc =>
      isPlain_of_isNameChar ((isWord_of_mem_writers writer hwriter).1.1.chars c hc)
    exact ofCode?_of_asCall? hwriter (asCall?_comment hplain hcode hbuild)
  · have hnot : ∀ writer ∈ writers, ¬ writer.1 ++ ['('] <+: code :=
      fun writer hwriter hprefix => hcall ⟨writer, hwriter, hprefix⟩
    rw [ofCode?_plain hnot] at h
    cases h
    refine ofCode?_plain fun writer hwriter => ?_
    have hblank : ∀ writer ∈ writers, ' ' ∉ writer.1 ++ ['('] := by decide
    rw [isPrefix_append_comment_iff (hblank writer hwriter)]
    exact hnot writer hwriter

/-- A statement ends as its code does. -/
theorem endsInk_statement {line : CodeLine} (hne : code ≠ []) (hend : code.EndsInk)
    (h : ofCode? code = some line) (leftover : Text) :
    line.statement leftover ≠ [] ∧ (line.statement leftover).EndsInk := by
  rcases ofCode?_cases h with rfl | ⟨writer, hwriter, closing, rfl⟩
  · exact ⟨hne, hend⟩
  · have hrest : Text.EndsInk (")".toList ++ code.drop (closing + 1)) := by
      by_cases hnil : code.drop (closing + 1) = []
      · rw [hnil]
        decide
      · refine Text.EndsInk.append (fun c hc => hend c ?_) hnil _
        rw [← List.take_append_drop (closing + 1) code]
        exact List.mem_getLast?_append_of_mem_getLast? hc
    have hnil : ")".toList ++ code.drop (closing + 1) ≠ [] :=
      List.append_ne_nil_of_left_ne_nil (by decide) _
    rw [statement, List.append_assoc]
    exact ⟨List.append_ne_nil_of_right_ne_nil _ hnil, hrest.append hnil _⟩

end CodeLine

/-! ### Layout -/

namespace Item

theorem count_real_map_closing (closed : List ClosedBlock) :
    ((closed.map closing).map Statement.kind).count .real = 0 := by
  rw [List.count_eq_zero]
  intro hmem
  obtain ⟨s, hs, hkind⟩ := List.mem_map.1 hmem
  rw [(isClosing_of_mem_map_closing hs).1] at hkind
  cases hkind

theorem count_real_map_realAt (depth : Nat) (held : List Text) :
    ((held.map (realAt depth)).map Statement.kind).count .real = held.length := by
  induction held with
  | nil => rfl
  | cons text held ih =>
    rw [List.map_cons, List.map_cons, realAt, List.count_cons_self, ih, List.length_cons]

theorem count_real_realThenPhantoms (depth : Nat) {texts : List Text} (h : texts ≠ []) :
    ((realThenPhantoms depth texts).map Statement.kind).count .real = 1 := by
  obtain ⟨first, rest, rfl⟩ := List.exists_cons_of_ne_nil h
  rw [realThenPhantoms, List.map_cons, realAt, List.count_cons_self, List.map_map,
    List.count_eq_zero.2]
  intro hmem
  obtain ⟨text, -, hkind⟩ := List.mem_map.1 hmem
  cases hkind

/-- Each item has one real statement, put down at once or held back. -/
theorem count_real_lay (s : State) {item : Item} (h : ∀ leftover, item.texts leftover ≠ []) :
    ((lay s item).1.map Statement.kind).count .real + (lay s item).2.held.length =
      s.held.length + 1 := by
  cases item with
  | blank statement => simp [lay]
  | output indent statements =>
    have hown := count_real_realThenPhantoms (s.nesting.placement indent).depth (h [])
    simp only [texts] at hown
    simp only [lay, List.map_append, List.count_append, count_real_map_closing,
      count_real_map_realAt, hown, List.length_nil]
    omega
  | code indent text line =>
    simp only [lay, List.map_append, List.count_append, count_real_map_closing,
      count_real_map_realAt, List.length_nil]
    simp [realAt]

/-- With a comment behind the code the layout puts the same statements before the one for the line,
and goes on from the same blocks. -/
theorem lay_comment (s : State) (margin : Text) {code : Text} (hcode : Lua.IsComplete code)
    (line : CodeLine) :
    ∃ before depth leftover next,
      leftover <:+ margin ∧ (before.map Statement.kind).count .real = s.held.length ∧
      lay s (.code margin code line) =
        (before ++ [realAt depth (line.statement leftover)], next) ∧
      ∀ remark, Lua.IsRemark remark →
        lay s (.code margin (code ++ Lua.comment remark) (line.append (Lua.comment remark))) =
          (before ++ [realAt depth (line.statement leftover ++ Lua.comment remark)], next) := by
  let place := s.nesting.placement margin
  refine ⟨(closedBefore place.closed margin code).map closing ++ s.held.map (realAt place.depth),
    place.depth, place.leftover, ⟨s.nesting.afterLine margin (BlockKind.opening? code), []⟩,
    leftover_suffix _ _, ?_, rfl, fun remark hremark => ?_⟩
  · simp only [List.map_append, List.count_append, count_real_map_closing, count_real_map_realAt,
      Nat.zero_add]
  · have hclosed : closedBefore place.closed margin (code ++ Lua.comment remark) =
        closedBefore place.closed margin code := by
      simp only [closedBefore, BlockKind.takenOverBy_comment]
    rw [lay, hclosed, BlockKind.opening?_comment hcode hremark, CodeLine.statement_append]

/-- The statement of a code line takes the comment that stands behind the code, and nothing else of
the script does. -/
theorem statementsFrom_comment (s : State) {front : List Item}
    (hfront : ∀ item ∈ front, ∀ leftover, item.texts leftover ≠ []) (margin : Text) {code : Text}
    (hcode : Lua.IsComplete code) (line : CodeLine) (rest : List Item) :
    ∃ before depth leftover after,
      leftover <:+ margin ∧
      (before.map Statement.kind).count .real = s.held.length + front.length ∧
      statementsFrom s (front ++ .code margin code line :: rest) =
        before ++ realAt depth (line.statement leftover) :: after ∧
      ∀ remark, Lua.IsRemark remark →
        statementsFrom s (front ++ .code margin (code ++ Lua.comment remark)
            (line.append (Lua.comment remark)) :: rest) =
          before ++ realAt depth (line.statement leftover ++ Lua.comment remark) :: after := by
  induction front generalizing s with
  | nil =>
    obtain ⟨before, depth, leftover, next, hleftover, hcount, hlay, hremark⟩ :=
      lay_comment s margin hcode line
    refine ⟨before, depth, leftover, statementsFrom next rest, hleftover, hcount, ?_,
      fun remark h => ?_⟩
    · rw [List.nil_append, statementsFrom_cons, hlay, List.append_assoc, List.singleton_append]
    · rw [List.nil_append, statementsFrom_cons, hremark remark h, List.append_assoc,
        List.singleton_append]
  | cons item front ih =>
    obtain ⟨hitem, hothers⟩ := List.forall_mem_cons.1 hfront
    obtain ⟨before, depth, leftover, after, hleftover, hcount, hcomment, hremark⟩ :=
      ih (lay s item).2 hothers
    refine ⟨(lay s item).1 ++ before, depth, leftover, after, hleftover, ?_, ?_,
      fun remark h => ?_⟩
    · have hlay := count_real_lay s hitem
      rw [List.map_append, List.count_append, hcount, List.length_cons]
      omega
    · rw [List.cons_append, statementsFrom_cons, hcomment, List.append_assoc]
    · rw [List.cons_append, statementsFrom_cons, hremark remark h, List.append_assoc]

end Item

/-! ### Code -/

/-- Where the text of a statement stands in the code of a script. -/
theorem Script.exists_code_eq (unit : Nat) (before after : List Statement) (s : Statement) :
    ∃ front back : Text, ∀ text : Text, text ≠ [] → text.EndsInk →
      (Script.mk unit (before ++ { s with text } :: after)).code = front ++ (text ++ back) := by
  let front := ((before.map (Statement.line unit)).map (· ++ "\n".toList)).flatten ++
    indentText unit s.depth
  let back : Text := ((after.map (Statement.line unit)).map ("\n".toList ++ ·)).flatten
  refine ⟨front, back.trimEnd, fun text hne hend => ?_⟩
  have htrim := (hend.append hne front).trimEnd_append back
  rw [code, lines, List.map_append, List.map_cons, Text.join_append_cons, Statement.line]
  simp only [front, List.append_assoc] at htrim ⊢
  exact htrim

/-- A real statement is for the line that has as many real ones before it. -/
theorem Script.sourceLine_real {unit : Nat} {before after : List Statement} {s : Statement}
    (hs : s.kind = .real) :
    (Script.mk unit (before ++ s :: after)).lineMap.sourceLine (before.length + 1) =
      (before.map Statement.kind).count .real + 1 := by
  have hlength : before.length + 1 ≤ ((before ++ s :: after).map Statement.kind).length := by
    rw [List.length_map, List.length_append, List.length_cons]
    omega
  have htake : ((before ++ s :: after).map Statement.kind).take (before.length + 1) =
      before.map Statement.kind ++ [s.kind] := by
    rw [List.map_append, List.map_cons, ← List.length_map (f := Statement.kind),
      List.take_length_add_append]
    rfl
  rw [lineMap, LineMap.sourceLine_ofLines _ _ hlength, htake, List.count_append, hs]
  rfl

/-! ### Remarks -/

theorem comment_ne_nil (remark : Text) : comment remark ≠ [] :=
  List.append_ne_nil_of_left_ne_nil (by decide) _

theorem startsBlank_comment (remark : Text) : (comment remark).StartsBlank := by
  rintro c ⟨⟩
  decide

/-- The remark can stand at the end of a line of code: it is of one line, and neither its start nor
its end is taken for something else. -/
structure FitsLine (remark : Text) : Prop where
  isRemark : IsRemark remark
  lineFeed_not_mem : '\n' ∉ remark
  endsInk : remark.EndsInk
  not_right_isSuffix : ¬ "%>".toList <:+ remark

namespace FitsLine

theorem endsInk_comment (h : FitsLine remark) : (comment remark).EndsInk := by
  by_cases hnil : remark = []
  · subst hnil
    decide
  · exact h.endsInk.append hnil _

theorem lineFeed_not_mem_comment (h : FitsLine remark) : '\n' ∉ comment remark :=
  List.not_mem_append (by decide) h.lineFeed_not_mem

/-- No right delimiter reaches from the code into a comment. -/
theorem not_right_isSuffix_comment (h : FitsLine remark) (before : Text) :
    ¬ "%>".toList <:+ before ++ comment remark := by
  intro hsuffix
  have hcomment : "%>".toList <:+ comment remark :=
    List.suffix_of_suffix_length_le hsuffix (List.suffix_append _ _) (by simp [comment])
  rcases List.suffix_or_suffix_of_suffix hcomment (List.suffix_append _ remark) with hin | hout
  · exact h.not_right_isSuffix hin
  · have hshort : remark = "%>" ∨ remark = ">" ∨ remark = [] := by
      simpa [List.suffix_cons_iff] using hout
    rcases hshort with rfl | rfl | rfl
    · exact h.not_right_isSuffix (List.suffix_refl _)
    · exact absurd hcomment (by decide)
    · exact absurd hcomment (by decide)

end FitsLine

/-- Where the code is, it can be with a comment behind it. -/
theorem CodePlace.Holds.append_comment {p : CodePlace} (h : p.Holds code)
    (hremark : FitsLine remark) :
    p.Holds (code ++ comment remark) where
  ne_nil := List.append_ne_nil_of_left_ne_nil h.ne_nil _
  startsInk := h.startsInk.append h.ne_nil _
  endsInk := hremark.endsInk_comment.append (comment_ne_nil remark) code
  lineFeed_not_mem := List.not_mem_append h.lineFeed_not_mem hremark.lineFeed_not_mem_comment
  not_escape_isPrefix hprefix := by
    rw [← List.append_assoc] at hprefix
    have hlength : "%".toList.length ≤ (p.gap ++ code).length := by
      have := List.length_pos_iff.2 h.ne_nil
      rw [List.length_append]
      show 1 ≤ _
      omega
    exact h.not_escape_isPrefix
      (List.prefix_of_prefix_length_le hprefix (List.prefix_append _ _) hlength)

/-- A line of code stays one with a comment behind the code. -/
theorem CodePlace.ofLine_comment {p : CodePlace} (h : p.Holds code) (hremark : FitsLine remark) :
    Form.ofLine .standard (p.content (code ++ comment remark)) =
      .ok (.code p.margin (code ++ comment remark)) := by
  refine ofLine_content (h.append_comment hremark) ?_
  rw [← List.append_assoc]
  exact hremark.not_right_isSuffix_comment _

/-! ### Templates -/

namespace Template

/-- **A comment behind the code of a line goes into the statement of that line and nowhere
else.** -/
theorem compile_comment {unit : Nat} {t : Template} {script : Script} {line : Line} {margin : Text}
    (h : t.compile .standard unit = .ok script) (hline : line ∈ Line.ofSource t.source)
    (hform : Form.ofLine .standard line.content = .ok (.code margin code)) (hne : code ≠ [])
    (hname : ¬ "__indent__".toList <+: code) (hcode : IsComplete code) :
    ∃ p : CodePlace, p.source code = t.source ∧ p.margin = margin ∧ p.number = line.number ∧
      ∃ before s after ahead behind,
        script.statements = before ++ s :: after ∧ s.kind = .real ∧
        script.lineMap.sourceLine (before.length + 1) = line.number ∧
        (∃ leftover, leftover <:+ margin ∧ CodeLine.indented? code leftover = some s.text) ∧
        script.code = ahead ++ (s.text ++ behind) ∧
        ∀ remark, FitsLine remark →
          (BlockKind.opening? (code ++ comment remark) = BlockKind.opening? code ∧
            (∀ kind : BlockKind,
              kind.takenOverBy (code ++ comment remark) = kind.takenOverBy code) ∧
            ∀ leftover, CodeLine.indented? (code ++ comment remark) leftover =
              (CodeLine.indented? code leftover).map (· ++ comment remark)) ∧
          ∃ script',
            (Template.mk (p.source (code ++ comment remark)) t.path).compile .standard unit =
              .ok script' ∧
            script'.indentUnit = script.indentUnit ∧ script'.lineMap = script.lineMap ∧
            script'.statements =
              before ++ { s with text := s.text ++ comment remark } :: after ∧
            script'.code = ahead ++ ((s.text ++ comment remark) ++ behind) := by
  obtain ⟨p, hholds, hsource, rfl, hnumber, hcontent⟩ := CodePlace.exists_codePlace hline hform hne
  obtain ⟨asked, items, hunit, hitems, rfl⟩ := compile_eq_ok_iff.1 h
  rw [← hsource] at hitems
  rw [← hcontent] at hform
  obtain ⟨front, parsed, rest, hparsed, rfl, hfront, hown, hothers⟩ :=
    CodePlace.exists_items hitems hholds hform
  obtain ⟨before, depth, leftover, after, hleftover, hcount, hstatements, hcomment⟩ :=
    Item.statementsFrom_comment .start hown p.margin hcode parsed rest
  obtain ⟨hstatement, hink⟩ := CodeLine.endsInk_statement hne hholds.endsInk hparsed leftover
  obtain ⟨ahead, behind, hscript⟩ := Script.exists_code_eq (asked.getD unit) before after
    (Item.realAt depth (parsed.statement leftover))
  refine ⟨p, hsource, rfl, hnumber, before, _, after, ahead, behind, hstatements, rfl, ?_,
    ⟨leftover, hleftover, ?_⟩, ?_, fun remark hremark => ⟨⟨?_, ?_, ?_⟩, ?_⟩⟩
  · show (Script.mk _ (Item.statements _)).lineMap.sourceLine _ = _
    rw [Item.statements, hstatements, Script.sourceLine_real rfl, hcount, ← hnumber, ← hfront]
    exact congrArg (· + 1) (Nat.zero_add _)
  · rw [CodeLine.indented?, hparsed]
    rfl
  · rw [Item.statements, hstatements]
    exact hscript _ hstatement hink
  · exact BlockKind.opening?_comment hcode hremark.isRemark
  · exact fun kind => kind.takenOverBy_comment
  · intro leftover
    rw [CodeLine.indented?, CodeLine.indented?, CodeLine.ofCode?_comment hcode hparsed, hparsed]
    simp only [Option.map_some, CodeLine.statement_append]
  · -- the lines of the other template are read into the same items but for one
    have hitems' := hothers _ _ (hholds.append_comment hremark)
      (CodePlace.ofLine_comment hholds hremark) (CodeLine.ofCode?_comment hcode hparsed)
    have hunit' : Directive.unit? .standard (p.source (code ++ comment remark)) = .ok asked := by
      rw [CodePlace.unit?_source_append hholds hname (startsBlank_comment remark), hsource, hunit]
    have hstatements' := hcomment remark hremark.isRemark
    refine ⟨_, compile_eq_ok_iff.2 ⟨asked, _, hunit', hitems', rfl⟩, rfl, ?_, hstatements', ?_⟩
    · simp only [Script.lineMap, Item.statements, hstatements, hstatements', List.map_append,
        List.map_cons]
      rfl
    · rw [Item.statements, hstatements']
      exact hscript _ (List.append_ne_nil_of_left_ne_nil hstatement _)
        (hremark.endsInk_comment.append (comment_ne_nil remark) _)

/-- A comment of keywords, parentheses and openings of strings behind a call in a block. -/
theorem compile_comment_call :
    let source : Text := "<% if x then\n  <% print('(' .. x)\n"
    let code : Text := "print('(' .. x)"
    let remark : Text := " end) else '[[ function("
    ∃ script, (inline source).compile .standard 4 = .ok script ∧
      ∃ p : CodePlace, p.source code = source ∧ p.number = 2 ∧
        ∃ before s after, script.statements = before ++ s :: after ∧ ∃ script',
          (inline (p.source (code ++ comment remark))).compile .standard 4 = .ok script' ∧
          script'.lineMap = script.lineMap ∧
          script'.statements = before ++ { s with text := s.text ++ comment remark } :: after := by
  have hcompile : (inline "<% if x then\n  <% print('(' .. x)\n".toList).compile .standard 4 =
      .ok ⟨4, [⟨0, "if x then", .real⟩, ⟨1, "__print('  ', '(' .. x)", .real⟩,
        ⟨0, "end", .phantom⟩]⟩ :=
    compile_eq_of_toOption (by decide +kernel)
  have hline : (⟨2, "  <% print('(' .. x)", true, true⟩ : Line) ∈
      Line.ofSource "<% if x then\n  <% print('(' .. x)\n".toList := by decide +kernel
  have hform : Form.ofLine .standard "  <% print('(' .. x)".toList =
      .ok (.code "  " "print('(' .. x)") := by decide +kernel
  have hcode : IsComplete "print('(' .. x)" :=
    .isPlain_append "print(" (List.all_eq_true.1 rfl)
      (.hidden (.short (.inl rfl) (.char (by decide) (by decide) .nil))
        (.isPlain_append " .. x)" (List.all_eq_true.1 rfl) .nil))
  have hremark : FitsLine " end) else '[[ function(" :=
    ⟨isRemark_of_head?_ne (by decide), by decide, by decide, by decide⟩
  obtain ⟨p, hsource, _, hnumber, before, s, after, _, _, hstatements, _, _, _, _, hcomment⟩ :=
    compile_comment hcompile hline hform (by decide) (by decide) hcode
  obtain ⟨_, script', hcompile', _, hmap, hstatements', _⟩ := hcomment _ hremark
  exact ⟨_, hcompile, p, hsource, hnumber, before, s, after, hstatements, script', hcompile', hmap,
    hstatements'⟩

end Template
end Stencil
