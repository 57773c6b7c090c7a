import Stencil.Proofs.Render.Basic
import Stencil.Proofs.Script.Inclusion
import Stencil.Render.Memory

/-! Variables that a template does not mention.

A source without left delimiters is printed as it is, whatever variables there are and whatever
their values are, with an exception: every script needs `setmetatable`, and the table that it finds
under `_G`. A variable with the first name hides the function, and one with the second name hides
the table; unless that is an object, which is as good a table, no script can be run
(`Renderer.render_unmentioned`). -/
namespace Stencil

open Lua

/-- Lines without left delimiters contribute themselves. -/
theorem Template.contributes_source {σ : Type} {d : Delimiters} {source : Text}
    (hcut : Text.cut? d.left source = none) (template : Text) (world : σ) (context : Context σ) :
    List.Forall₂ (Line.Contributes d template world context) (Line.ofSource source)
      ((Line.ofSource source).map Line.text) := by
  rw [List.forall₂_map_right_iff, List.forall₂_same]
  exact fun line hline => Line.contributes_literal
    (Text.cut?_eq_none_of_isInfix d.left_ne (Line.content_isInfix hline) hcut)

namespace Renderer

variable {σ : Type} {settings : Settings} {loader : Loader σ} {t : Template} {scope : Scope}

/-- No template can be rendered where a variable hides what every script needs. -/
theorem render_hidden {script : Script}
    (hcompile : t.compile settings.delimiters settings.indentUnit = .ok script)
    (hscope : ¬Scope.Spares (settings.globals.merge scope))
    (hfunctions : ∀ name ∈ strictNames ++ Settings.reservedNames, name ∉ settings.functions.names)
    (s : σ) :
    ∃ e, (((Renderer.mk settings loader Lua.runtime).render t scope).run.run s).1 = .error e := by
  let r : Renderer σ := ⟨settings, loader, Lua.runtime⟩
  obtain ⟨f, hf⟩ := execute_fails hscope hfunctions script.code
    (r.host t.directory? settings.maxIncludeDepth) s
  exact ⟨r.failure t script f, congrArg Prod.fst (render_of_host (r := r) hcompile (Prod.ext hf rfl))⟩

/-- **Variables that a template does not mention change nothing**, as long as they spare what makes
the global variables strict: a source without left delimiters is rendered to itself, its line ends
normalized, by a script that does not depend on the variables. Where they do not, rendering
fails. -/
theorem render_unmentioned (settings : Settings) (loader : Loader σ) (path : Option Path)
    {source : Text} (hcut : Text.cut? settings.delimiters.left source = none)
    (hreturn : source.getLast? ≠ some '\r')
    (hfunctions : ∀ name ∈ strictNames ++ Settings.reservedNames,
      name ∉ settings.functions.names) :
    ∃ code, ∀ (scope : Scope) (s : σ),
      let run := ((Renderer.mk settings loader Lua.runtime).render ⟨source, path⟩ scope).run.run s
      (Scope.Spares (settings.globals.merge scope) →
        run = (.ok ⟨source.normalizeLineEnds, code⟩, s)) ∧
      (¬Scope.Spares (settings.globals.merge scope) → ∃ e, run.1 = .error e) := by
  let r : Renderer σ := ⟨settings, loader, Lua.runtime⟩
  let t : Template := ⟨source, path⟩
  have hdirective : Directive.digits? settings.delimiters t.source = none :=
    Directive.digits?_of_cut?_eq_none hcut
  obtain ⟨script, _, _, hcompile, _⟩ := Template.compile_contributions settings.indentUnit
    hdirective (Template.contributes_source hcut t.description ()
      (⟨fun _ _ => throw .filesUnavailable, .empty, .empty⟩ : Context Unit))
  refine ⟨script.code, fun scope s => ⟨fun hscope => ?_, fun hscope => ?_⟩⟩
  · let context : Context σ := ⟨r.host t.directory? settings.maxIncludeDepth,
      settings.globals.merge scope, settings.functions⟩
    obtain ⟨script', hcompile', hrun⟩ := Template.execute_lines settings.indentUnit hdirective
      ⟨hscope, hfunctions⟩ (Template.contributes_source hcut t.description s context)
    obtain rfl := Except.ok.inj (hcompile.symm.trans hcompile')
    rw [flatten_text_ofSource hreturn] at hrun
    exact render_of_host (r := r) hcompile hrun
  · exact render_hidden hcompile hscope hfunctions s

/-- A line of text, with a variable that has the name of the function which every script needs. -/
theorem render_setmetatable :
    isVariableName "setmetatable" = true ∧ Text.cut? "<%" "hello\n" = none ∧
      ∃ e, (((Renderer.mk {} Files.loader Lua.runtime).render (.inline "hello\n")
        (Table.empty.insert "setmetatable" (.int 1))).run.run .empty).1 = .error e := by
  refine ⟨by decide, by decide, ?_⟩
  obtain ⟨script, _, _, hcompile, _⟩ := Template.compile_contributions (d := .standard)
    (t := .inline "hello\n") 4 (by decide +kernel) (Template.contributes_source (by decide) _ ()
      (⟨fun _ _ => throw .filesUnavailable, .empty, .empty⟩ : Context Unit))
  exact render_hidden hcompile (by decide) (by decide) Files.empty

/-- A text with a carriage return, and variables with the names of functions of the language. -/
theorem render_unmentioned_print :
    let scope : Scope := ((Table.empty.insert "print" .null).insert "tostring" (.int 1)).insert "_G"
      (.members [])
    ∃ code, ((Renderer.mk {} Files.loader Lua.runtime).render (.inline "hello\r\nworld")
      scope).run.run .empty = (.ok ⟨"hello\nworld", code⟩, .empty) := by
  intro scope
  have hcut : Text.cut? Delimiters.standard.left "hello\r\nworld".toList = none := by decide
  obtain ⟨code, hcode⟩ := render_unmentioned {} Files.loader none hcut (by decide) (by decide)
  exact ⟨code, (hcode scope .empty).1 (by decide)⟩

end Renderer
end Stencil
