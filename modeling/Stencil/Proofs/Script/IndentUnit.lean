import Stencil.Proofs.Script.ChunkLines

/-! What the indent unit changes.

A template is read and laid out without regard to the unit: statements have a depth, and only the
lines of the script turn it into spaces. As no statement starts with a blank, the spaces in front of
a line are all from there (`compile_indentUnit`). -/
namespace Stencil

/-! ### Statements start with ink -/

theorem startsInk_printLiteral (content : Text) (endLine : Bool) :
    (printLiteral content endLine).StartsInk := by
  cases endLine <;> exact fun _ hc => Option.some.inj hc ▸ rfl

theorem startsInk_printExpr (expr : Text) (endLine : Bool) :
    (printExpr expr endLine).StartsInk := by
  cases endLine <;> exact fun _ hc => Option.some.inj hc ▸ rfl

theorem startsInk_fragmentStatements (d : Delimiters) (terminated : Bool) (fs : List Fragment) :
    ∀ text ∈ fragmentStatements d terminated fs, text.StartsInk := by
  have hone : ∀ (f : Fragment) (endLine : Bool), (f.statement d endLine).StartsInk := by
    intro f endLine
    cases f with
    | literal text => exact startsInk_printLiteral text endLine
    | escaped before => exact startsInk_printLiteral (before ++ d.left) endLine
    | placeholder expr => exact startsInk_printExpr expr endLine
  induction fs with
  | nil => exact nofun
  | cons f rest ih =>
    cases rest with
    | nil => exact List.forall_mem_singleton.2 (hone f terminated)
    | cons next others => exact List.forall_mem_cons.2 ⟨hone f false, ih⟩

theorem BlockKind.startsInk_closer (kind : BlockKind) : kind.closer.StartsInk := by
  cases kind <;> decide

theorem CodeLine.startsInk_statement {code : Text} {line : CodeLine} (hcode : code.StartsInk)
    (h : ofCode? code = some line) (leftover : Text) : (line.statement leftover).StartsInk := by
  rcases ofCode?_cases h with rfl | ⟨writer, hwriter, closing, rfl⟩
  · exact hcode
  · have hcallee : writer.2.StartsInk ∧ writer.2 ≠ [] :=
      (by decide : ∀ w ∈ writers, w.2.StartsInk ∧ w.2 ≠ []) writer hwriter
    simp only [statement, List.append_assoc]
    exact hcallee.1.append hcallee.2 _

theorem Item.startsInk_texts {d : Delimiters} {template : Text} {line : Line} {item : Item}
    (h : ofLine d template line = .ok item) (leftover : Text) :
    ∀ text ∈ item.texts leftover, text.StartsInk := by
  obtain ⟨form, hform, h⟩ := exists_form_of_ofLine h
  rcases Form.ofLine_cases hform with rfl | ⟨fs, _, rfl⟩ | ⟨inside, _, rfl | ⟨between, _, rfl⟩⟩
  · cases h
    exact List.forall_mem_singleton.2 (startsInk_printLiteral _ _)
  · cases h
    exact startsInk_fragmentStatements d line.terminated fs
  · obtain ⟨parsed, hcode, rfl⟩ := ofForm_code_eq_ok_iff.1 h
    exact List.forall_mem_singleton.2
      (CodeLine.startsInk_statement inside.startsInk_trim hcode leftover)
  · cases h
    exact List.forall_mem_singleton.2 (startsInk_printExpr _ _)

theorem Item.Accounts.startsInk {d : Delimiters} {template : Text} {line : Line} {item : Item}
    {group : List Statement} (haccounts : item.Accounts group)
    (h : Item.ofLine d template line = .ok item) : ∀ s ∈ group, s.text.StartsInk := by
  obtain ⟨depth, leftover, closings, rfl, _, hclosings⟩ := haccounts.split
  have htexts := Item.startsInk_texts h leftover
  intro s hs
  rcases List.mem_append.1 hs with hs | hs
  · refine htexts s.text ?_
    cases hitem : item.texts leftover with
    | nil => rw [hitem] at hs; cases hs
    | cons first rest =>
      rw [hitem] at hs
      rcases List.mem_cons.1 hs with rfl | hs
      · exact List.mem_cons_self
      · obtain ⟨text, htext, rfl⟩ := List.mem_map.1 hs
        exact List.mem_cons_of_mem _ htext
  · obtain ⟨_, kind, hkind⟩ := hclosings s hs
    exact hkind ▸ kind.startsInk_closer

namespace Template

variable {d : Delimiters} {t : Template}

/-- No statement of a script starts with a blank. -/
theorem startsInk_of_compile {unit : Nat} {script : Script} (h : t.compile d unit = .ok script) :
    ∀ s ∈ script.statements, s.text.StartsInk := by
  obtain ⟨groups, hstatements, _, hlines⟩ := groups_of_compile h
  intro s hs
  rw [hstatements] at hs
  obtain ⟨group, hgroup, hs⟩ := List.mem_flatten.1 hs
  obtain ⟨i, hi, rfl⟩ := List.getElem_of_mem hgroup
  obtain ⟨item, hitem, haccounts⟩ :=
    hlines.get (hlines.length_eq ▸ hi : i < (Line.ofSource t.source).length) hi
  exact haccounts.startsInk hitem s hs

/-! ### Two units -/

/-- Without a directive the unit is noted in the script, and used for nothing else. -/
theorem compile_of_digits?_eq_none (h : Directive.digits? d t.source = none) (unit : Nat) :
    t.compile d unit = ((Line.ofSource t.source).mapM (Item.ofLine d t.description)).map
      fun items => ⟨unit, Item.statements items⟩ := by
  have hasked : Directive.unit? d t.source = .ok none := by rw [Directive.unit?, h]
  exact compile_of_unit? hasked unit

/-- **The indent unit is cosmetic.** With any two units a template without a directive fails with
the same error, or is compiled to scripts of the same statements at the same depths, hence with one
line map; and line by line the scripts are one statement behind the spaces for one depth, in the one
unit and in the other. The spaces are those alone, as the statement does not start with a blank. -/
theorem compile_indentUnit (h : Directive.digits? d t.source = none) (unit unit' : Nat) :
    (∃ e, t.compile d unit = .error e ∧ t.compile d unit' = .error e) ∨
    ∃ script script', t.compile d unit = .ok script ∧ t.compile d unit' = .ok script' ∧
      script.lineMap = script'.lineMap ∧ script.lines.length = script'.lines.length ∧
      script.statements = script'.statements ∧
      List.Forall₂ (fun line line' => ∃ depth text, line = Text.spaces (depth * unit) ++ text ∧
        line' = Text.spaces (depth * unit') ++ text ∧ text.StartsInk) script.lines script'.lines := by
  cases hitems : (Line.ofSource t.source).mapM (Item.ofLine d t.description) with
  | error e =>
    refine .inl ⟨e, ?_, ?_⟩
    · rw [compile_of_digits?_eq_none h, hitems]
      rfl
    · rw [compile_of_digits?_eq_none h, hitems]
      rfl
  | ok items =>
    have hcompile : ∀ unit, t.compile d unit = .ok ⟨unit, Item.statements items⟩ := by
      intro unit
      rw [compile_of_digits?_eq_none h, hitems]
      rfl
    refine .inr ⟨_, _, hcompile unit, hcompile unit', rfl, ?_, rfl, ?_⟩
    · rw [Script.lines, Script.lines, List.length_map, List.length_map]
    · rw [Script.lines, Script.lines, List.forall₂_map_left_iff, List.forall₂_map_right_iff,
        List.forall₂_same]
      intro s hs
      refine ⟨s.depth, s.text, ?_, ?_, startsInk_of_compile (hcompile unit) s hs⟩
      · rw [Nat.mul_comm]
        rfl
      · rw [Nat.mul_comm]
        rfl

/-- Two blocks and a call with indentation of its own, with two and with three spaces a level. -/
theorem compile_indentUnit_call :
    let t := inline "<% for i = 1, 2 do\n <% if x then\n  a\n\n    <% print(i)\n"
    Directive.digits? .standard t.source = none ∧
    ∃ script script', t.compile .standard 2 = .ok script ∧ t.compile .standard 3 = .ok script' ∧
      script.lineMap = script'.lineMap ∧
      script.lines.map String.ofList = ["for i = 1, 2 do", "  if x then", "    print('  a')",
        "    print('')", "    __print('   ', i)", "  end", "end"] ∧
      script'.lines.map String.ofList = ["for i = 1, 2 do", "   if x then", "      print('  a')",
        "      print('')", "      __print('   ', i)", "   end", "end"] := by
  intro t
  have hdirective : Directive.digits? .standard t.source = none := by decide +kernel
  let statements : List Statement := [⟨0, "for i = 1, 2 do", .real⟩, ⟨1, "if x then", .real⟩,
    ⟨2, "print('  a')", .real⟩, ⟨2, "print('')", .real⟩, ⟨2, "__print('   ', i)", .real⟩,
    ⟨1, "end", .phantom⟩, ⟨0, "end", .phantom⟩]
  have htwo : t.compile .standard 2 = .ok ⟨2, statements⟩ :=
    compile_eq_of_toOption (by decide +kernel)
  have hthree : t.compile .standard 3 = .ok ⟨3, statements⟩ :=
    compile_eq_of_toOption (by decide +kernel)
  rcases compile_indentUnit hdirective 2 3 with ⟨e, he, _⟩ |
    ⟨script, script', hscript, hscript', hmap, _⟩
  · cases htwo.symm.trans he
  · cases htwo.symm.trans hscript
    cases hthree.symm.trans hscript'
    exact ⟨hdirective, _, _, htwo, hthree, hmap, by decide +kernel, by decide +kernel⟩

end Template
end Stencil
