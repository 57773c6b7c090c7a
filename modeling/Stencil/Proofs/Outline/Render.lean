import Stencil.Proofs.Lua.Program.Depth
import Stencil.Proofs.Outline.Layout
import Stencil.Proofs.Render.Basic
import Stencil.Proofs.Script.Directive
import Stencil.Render.Memory

/-! Outlines, rendered.

The script of an outline that is laid out is the program of the outline, and its output is what the
outline means (`Renderer.render_outline`), as long as the runtime can be given that program. -/
namespace Stencil

open Lua

namespace Outline

variable {conditions : List Text} {o : Outline}

/-! ### Compiling -/

theorem source_eq {indent body : Text} {others : List Text}
    (h : o.lines = (indent ++ body) :: others) :
    o.source = indent ++ (body ++ '\n' :: (others.map (· ++ ['\n'])).flatten) := by
  rw [source, h, List.map_cons, List.flatten_cons]
  simp only [List.append_assoc, List.singleton_append]

/-- No outline begins with a directive. -/
theorem digits?_source (h : o.program.Closed conditions []) :
    Directive.digits? .standard o.source = none := by
  have hleft : Text.StartsInk Delimiters.standard.left := by decide
  have hcode : ∀ {indent : Indent} {code more : Text},
      (∀ rest, Text.after? "__indent__" (Text.trimStart (' ' :: (code ++ rest))) = none) →
      Directive.digits? .standard (indent.text ++ (("<% " ++ code) ++ '\n' :: more)) = none := by
    intro indent code more hname
    refine Directive.digits?_append hleft indent.blank (by rintro c ⟨⟩; rfl) ?_
    exact Directive.digitsHere?_of_code rfl (hname ('\n' :: more))
  cases o with
  | done => rfl
  | text indent content rest =>
    rw [source_eq rfl]
    refine Directive.digits?_append hleft indent.blank
      (content.startsInk.append content.ne_nil _) (Directive.digitsHere?_of_after? ?_)
    have hafter : Text.after? Delimiters.standard.left content.text = none := by
      rw [Option.eq_none_iff_forall_ne_some]
      intro inside hinside
      have hfound := Text.cut?_of_after? Delimiters.standard.left_ne hinside
      rw [content.noLeft] at hfound
      cases hfound
    exact Text.after?_append_cons_of_none hafter (by decide) _
  | placeholder indent name rest => exact absurd h.1 List.not_mem_nil
  | loop indent name start limit body rest =>
    rw [source_eq rfl]
    exact hcode fun _ => rfl
  | when indent condition body rest =>
    rw [source_eq rfl]
    exact hcode fun _ => rfl
  | choose indent condition body elseIndent otherwise rest =>
    rw [source_eq rfl]
    exact hcode fun _ => rfl

/-- The template of an outline compiles to the program of the outline. -/
theorem compile_source (hlaid : o.Laid) (hclosed : o.program.Closed conditions [])
    (hconditions : ∀ name ∈ conditions, isVariableName name = true) (unit : Nat)
    (path : Option Path) :
    ∃ script, Template.compile .standard unit ⟨o.source, path⟩ = .ok script ∧
      script.IsProgram o.program ∧ script.indentUnit = unit := by
  have hnone : ∀ name ∈ ([] : List Text), isVariableName name = true := nofun
  have hitems : List.Forall₂
      (fun line item => Item.ofLine .standard (Template.description ⟨o.source, path⟩) line = .ok item)
      (Line.ofSource o.source) o.items :=
    IsLine.ofLine_source (forall₂_items o hconditions hnone hclosed) _
  have hcompile : Template.compile .standard unit ⟨o.source, path⟩ =
      .ok ⟨unit, Item.statements o.items⟩ := by
    unfold Template.compile Directive.unit?
    dsimp only
    rw [digits?_source hclosed, mapM_eq_ok hitems]
    rfl
  have hfits : o.Fits [] [] := ⟨fun _ _ _ => nofun, fun _ _ _ => nofun⟩
  have hprogram := placedFrom_items o hconditions hlaid hclosed hfits
  rw [List.append_nil] at hprogram
  exact ⟨_, hcompile, hprogram.trans (List.append_nil _), rfl⟩

/-! ### Instances -/

def sample : Outline :=
  let one : Literal := ⟨false, "1", 1, .decimal (by decide) (List.all_eq_true.1 rfl), rfl⟩
  let minusOne : Literal := ⟨true, "1", 1, .decimal (by decide) (List.all_eq_true.1 rfl), rfl⟩
  let yes : PlainText := ⟨"yes", by decide, by decide, by decide, by decide, by decide⟩
  let no : PlainText := ⟨"no %> ", by decide, by decide, by decide, by decide, by decide⟩
  .loop (.spaces 1) "i" minusOne one
    (.placeholder (.spaces 4) "i"
      (.choose (.spaces 2) "x" (.text (.spaces 3) yes .done) (.spaces 2)
        (.text (.spaces 8) no .done) .done))
    (.text (.spaces 0) yes .done)

/-- Conditionals inside of each other, each indented by one more space. -/
def tower (condition : Text) (width : Nat) : Nat → Outline
  | 0 => done
  | n + 1 => when (.spaces width) condition (tower condition (width + 1) n) done

theorem program_tower (condition : Text) (width n : Nat) :
    (tower condition width n).program = .tower condition n := by
  induction n generalizing width with
  | zero => rfl
  | succ n ih => rw [tower, program, ih, program, Program.tower]

theorem laid_tower (condition : Text) (width n : Nat) : (tower condition width n).Laid := by
  induction n generalizing width with
  | zero => exact trivial
  | succ n ih =>
    refine ⟨?_, ih (width + 1), nofun, trivial⟩
    have hwidth : ∀ k, (Indent.spaces k).width = k := fun k => List.length_replicate ..
    cases n with
    | zero => exact nofun
    | succ n =>
      intro w hw
      rw [List.mem_singleton.1 hw, hwidth, hwidth]
      exact Nat.lt_succ_self width

end Outline

/-! ### Rendering -/

namespace Renderer

variable {σ : Type} {settings : Settings} {scope : Scope} {holds : Text → Bool} {o : Outline}

/-- **An outline is rendered to what it means**, with the code of its program, if it is laid out and
the engine can load the program. The levels and loops of the program are bounded by what every
reader of the language bounds; an engine that can load it may have further bounds. -/
theorem render_outline {E : Engine σ} (hE : E.RunsBasic)
    (hdelimiters : settings.delimiters = .standard) (hlaid : o.Laid)
    (hruns : o.program.Runs (settings.globals.merge scope) settings.functions holds)
    (hunhidden : Unhidden (settings.globals.merge scope) settings.functions)
    (hload : E.load (o.program.code settings.indentUnit) = .ok ())
    (loader : Loader σ) (path : Option Path) (values : Text → Int) (s : σ) :
    ((Renderer.mk settings loader E.runtime).render ⟨o.source, path⟩ scope).run.run s =
      (.ok ⟨o.eval holds values, o.program.code settings.indentUnit⟩, s) := by
  obtain ⟨conditions, hclosed, hconditions⟩ := hruns.conditions
  obtain ⟨script, hcompile, hprogram, hunit⟩ := Outline.compile_source hlaid hclosed
    (fun name hname => (hconditions name hname).isName) settings.indentUnit path
  rw [← hdelimiters] at hcompile
  have hcode : script.code = o.program.code settings.indentUnit := hunit ▸ hprogram.code_eq
  have hrun (host : Host σ) : (E.runtime.execute ⟨script.code, settings.globals.merge scope,
      settings.functions⟩ host).run s = (.ok (o.program.eval holds values), s) := by
    rw [hcode]
    exact Engine.execute_eq_ok_iff.2
      (o.program.run_code hE settings.indentUnit values hruns hunhidden hload host s)
  rw [render_eq hcompile hrun, hcode, o.eval_program]
  rfl

/-- A placeholder and a conditional in a loop, each line with another indentation. -/
theorem render_outline_sample :
    Outline.sample.source = (" <% for i = -1, 1 do\n    <% i %>\n  <% if x then\n   yes\n" ++
      "  <% else\n        no %> \nyes\n" : Text) ∧
    ((Renderer.mk {} Files.loader Lua.runtime).render (.inline Outline.sample.source)
      (Table.empty.insert "x" (.bool true))).run.run .empty =
        (.ok ⟨"-1   yes\n0   yes\n1   yes\nyes\n", Outline.sample.program.code 4⟩, .empty) := by
  have hclosed : Outline.sample.program.Closed ["x".toList] [] :=
    ⟨⟨by decide, by decide, by decide⟩,
      ⟨List.mem_singleton_self _, List.mem_singleton_self _, trivial, trivial, trivial⟩, trivial⟩
  have hruns : Outline.sample.program.Runs
      (Table.merge .empty (Table.empty.insert "x" (.bool true))) .empty fun _ => true := by
    refine ⟨⟨["x".toList], hclosed, ?_⟩, by decide, by decide⟩
    intro name hname
    rw [List.mem_singleton.1 hname]
    exact ⟨by decide, List.mem_singleton_self _, by decide, by decide, by decide⟩
  have hunhidden : Unhidden (Table.merge .empty (Table.empty.insert "x" (.bool true))) .empty :=
    ⟨by decide, by decide⟩
  have heval : Outline.sample.eval (fun _ => true) (fun _ => 0) =
      "-1   yes\n0   yes\n1   yes\nyes\n".toList := by decide +kernel
  have hlaid : Outline.sample.Laid := by decide
  refine ⟨by decide +kernel, ?_⟩
  have hload : (interpreter : Engine Files).load (Outline.sample.program.code 4) = .ok () :=
    Program.load_code 4 hruns
  have hdelimiters : ({} : Settings).delimiters = .standard := rfl
  have hrender := render_outline interpreter_runsBasic hdelimiters hlaid hruns hunhidden hload
    Files.loader none (fun _ => 0) .empty
  rw [heval] at hrender
  exact hrender

/-! ### Outlines that are too deep -/

/-- A tower of conditionals that is higher than the reader of scripts can go down is refused. -/
theorem render_tower {condition : Text} {n : Nat} (hdelimiters : settings.delimiters = .standard)
    (hcondition : isVariableName condition = true) (hn : Reader.maxNesting ≤ n)
    (hunhidden : Unhidden (settings.globals.merge scope) settings.functions)
    (loader : Loader σ) (path : Option Path) (width : Nat) (s : σ) :
    ∃ e, ((Renderer.mk settings loader Lua.runtime).render
      ⟨(Outline.tower condition width n).source, path⟩ scope).run.run s = (.error e, s) := by
  have hclosed := Program.closed_tower condition n
  rw [← Outline.program_tower condition width n] at hclosed
  obtain ⟨script, hcompile, hprogram, hunit⟩ :=
    Outline.compile_source (Outline.laid_tower condition width n) hclosed
      (fun name hname => List.mem_singleton.1 hname ▸ hcondition) settings.indentUnit path
  rw [← hdelimiters] at hcompile
  have hrun : ∀ host : Host σ, (Lua.execute ⟨script.code, settings.globals.merge scope,
      settings.functions⟩ host).run s =
        (.error ⟨none, .native "RuntimeError" "C stack overflow" []⟩, s) := by
    intro host
    rw [hprogram.code_eq, Outline.program_tower]
    exact Program.execute_tower _ hcondition hn hunhidden host s
  rw [render_eq hcompile hrun]
  exact ⟨_, rfl⟩

/-- A tower is laid out and has only names of variables, and yet it cannot be too high. -/
theorem render_tower_199 :
    (Outline.tower "x" 0 199).Laid ∧ (Outline.tower "x" 0 199).program.Closed ["x".toList] [] ∧
    IsCondition (Table.empty.insert "x" (.bool true)) .empty "x" true ∧
    ∃ e, ((Renderer.mk {} Files.loader Lua.runtime).render
      (.inline (Outline.tower "x" 0 199).source)
      (Table.empty.insert "x" (.bool true))).run.run .empty = (.error e, .empty) := by
  refine ⟨Outline.laid_tower "x" 0 199, ?_, ⟨by decide, List.mem_singleton_self _, by decide, by decide, by decide⟩, ?_⟩
  · rw [Outline.program_tower]
    exact Program.closed_tower "x" 199
  · have hunhidden : Unhidden (Table.merge .empty (Table.empty.insert "x" (.bool true))) .empty :=
      ⟨by decide, by decide⟩
    exact render_tower rfl (by decide) (Nat.le_refl 199) hunhidden Files.loader none 0 .empty

end Renderer
end Stencil
