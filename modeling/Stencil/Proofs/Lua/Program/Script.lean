import Stencil.Proofs.Lua.Program.Execute
import Stencil.Proofs.Text.Blank

/-! Scripts that are programs.

A script is a program when its statements are the lines of the program at their depths. Its code is
then that of the program, of which nothing is trimmed, and the runtime outputs what the program
means (`Script.execute_code`). -/
namespace Stencil

open Lua

/-- A statement as a line of a program. -/
def Statement.placed (s : Statement) : Nat × Text := (s.depth, s.text)

/-- The statements of a script are the lines of a program. -/
def Script.IsProgram (script : Script) (p : Program) : Prop :=
  script.statements.map Statement.placed = p.lines 0

/-! ### Ends of lines -/

/-- A line that can stand at the end of a script. -/
def EndsLine (t : Text) : Prop := t ≠ [] ∧ t.EndsInk

theorem EndsLine.append {t : Text} (h : EndsLine t) (before : Text) : EndsLine (before ++ t) :=
  ⟨List.append_ne_nil_of_right_ne_nil _ h.1, h.2.append h.1 before⟩

theorem endsLine_join {lines : List Text} (hne : lines ≠ []) (h : ∀ t ∈ lines, EndsLine t) :
    EndsLine (Text.join "\n" lines) := by
  induction lines with
  | nil => exact absurd rfl hne
  | cons t rest ih =>
    cases rest with
    | nil => exact h t (List.mem_singleton_self t)
    | cons next others =>
      exact (ih (List.cons_ne_nil _ _) fun t ht => h t (List.mem_cons_of_mem _ ht)).append _

namespace Lua.Program

theorem endsLine_printLiteral (content : Text) (endLine : Bool) :
    EndsLine (printLiteral content endLine) := by
  cases endLine with
  | true => exact EndsLine.append ⟨by decide, by decide⟩ _
  | false => exact EndsLine.append ⟨by decide, by decide⟩ _

theorem endsLine_of_mem_lines (p : Program) :
    ∀ {depth : Nat}, ∀ l ∈ p.lines depth, EndsLine l.2 := by
  have hword : ∀ {t : Text}, t ≠ [] → t.EndsInk → ∀ before, EndsLine (before ++ t) :=
    fun hne hink before => EndsLine.append ⟨hne, hink⟩ before
  have hend : EndsLine "end".toList := ⟨by decide, by decide⟩
  have helse : EndsLine "else".toList := ⟨by decide, by decide⟩
  induction p with
  | done => exact nofun
  | print content endLine rest ih =>
    exact List.forall_mem_cons.2 ⟨endsLine_printLiteral content endLine, ih⟩
  | write name rest ih => exact List.forall_mem_cons.2 ⟨hword (by decide) (by decide) _, ih⟩
  | count name start limit body rest ihBody ihRest =>
    exact List.forall_mem_cons.2 ⟨hword (by decide) (by decide) _,
      List.forall_mem_append.2 ⟨ihBody, List.forall_mem_cons.2 ⟨hend, ihRest⟩⟩⟩
  | when condition body rest ihBody ihRest =>
    exact List.forall_mem_cons.2 ⟨hword (by decide) (by decide) _,
      List.forall_mem_append.2 ⟨ihBody, List.forall_mem_cons.2 ⟨hend, ihRest⟩⟩⟩
  | choose condition body otherwise rest ihBody ihOtherwise ihRest =>
    exact List.forall_mem_cons.2 ⟨hword (by decide) (by decide) _,
      List.forall_mem_append.2 ⟨ihBody, List.forall_mem_cons.2 ⟨helse,
        List.forall_mem_append.2 ⟨ihOtherwise, List.forall_mem_cons.2 ⟨hend, ihRest⟩⟩⟩⟩⟩

theorem endsInk_code (p : Program) (unit : Nat) : (p.code unit).EndsInk := by
  by_cases hlines : p.lines 0 = []
  · rw [code, hlines]
    exact nofun
  · refine (endsLine_join (mt List.map_eq_nil_iff.1 hlines) fun t ht => ?_).2
    obtain ⟨l, hl, rfl⟩ := List.mem_map.1 ht
    exact (endsLine_of_mem_lines p l hl).append _

end Lua.Program

namespace Script

variable {script : Script} {p : Program}

theorem IsProgram.code_eq (h : script.IsProgram p) : script.code = p.code script.indentUnit := by
  have hlines : Text.join "\n" script.lines = p.code script.indentUnit := by
    rw [Program.code, ← h, List.map_map]
    rfl
  rw [code, hlines]
  exact Text.trimEnd_of_endsInk (p.endsInk_code script.indentUnit)

/-- **The output of a script that is a program** is what the program means. -/
theorem IsProgram.execute_code {σ : Type} {scope : Scope} {functions : Table HostFunction}
    {holds : Text → Bool} (h : script.IsProgram p) (hruns : p.Runs scope functions holds)
    (hunhidden : Unhidden scope functions) (values : Text → Int) (host : Host σ) (s : σ) :
    (execute ⟨script.code, scope, functions⟩ host).run s = (.ok (p.eval holds values), s) := by
  rw [h.code_eq]
  exact p.execute_code script.indentUnit values hruns hunhidden host s

end Script
end Stencil
