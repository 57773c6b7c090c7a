import Stencil.Proofs.Lua.Engine
import Stencil.Proofs.Lua.Position.Run
import Stencil.Proofs.Render.Basic
import Stencil.Proofs.Script.ChunkLines
import Stencil.Render.Memory

/-! Where a rendering is told to have failed.

The code of a template has as many lines as the line map counts, unless a carriage return stands in
it unquoted. So where an engine reports places on lines of the code, the line that a failure is told
at is one that the map knows, unless the report misleads (`Renderer.render_located`). It can: a
message is searched for a position, and a script may raise any message. -/
namespace Stencil

open Lua

/-! ### The lines of the code -/

theorem Lua.breaks_eq_zero {t : Text} (h : ∀ c ∈ t, ¬IsLineBreak c) : breaks t = 0 :=
  List.countP_eq_zero.2 fun c hc hend => h c hc (by simpa [isLineEnd, IsLineBreak] using hend)

/-- The code of a script has no more lines than the script. -/
theorem Script.breaks_code_le (script : Script) (h : ∀ line ∈ script.lines, breaks line = 0) :
    breaks script.code ≤ script.lines.length - 1 := by
  obtain ⟨blanks, _, hcode⟩ := Text.trimEnd_append_blanks (Text.join "\n" script.lines)
  rw [← breaks_join h, hcode, breaks_append]
  exact Nat.le_add_right _ _

/-- A line that the line map of a script counts. -/
def Script.HasLine (script : Script) (line : Nat) : Prop :=
  1 ≤ line ∧ line ≤ script.lineMap.total

/-- The map counts the lines of the code. -/
theorem Script.hasLine_of_isLineOf (script : Script) (h : ∀ line ∈ script.lines, breaks line = 0)
    {l : Nat} (hl : IsLineOf script.code l) : script.HasLine l := by
  have hbreaks := script.breaks_code_le h
  have hlast := hl.last
  have hlines : script.lines ≠ [] := fun hlines => hl.nonempty (by rw [code, hlines]; rfl)
  have hpos : 0 < script.lines.length := List.length_pos_iff.2 hlines
  rw [script.length_lines] at hbreaks hpos
  exact ⟨hl.first, by omega⟩

namespace Template

variable {d : Delimiters} {unit : Nat} {t : Template} {script : Script}

/-- A carriage return in code is all that can end a line inside a line of a script. -/
theorem breaks_line_of_compile (h : t.compile d unit = .ok script)
    (hreturn : ∀ line ∈ Line.ofSource t.source, '\r' ∉ line.verbatim d) :
    ∀ line ∈ script.lines, breaks line = 0 := by
  intro line hline
  obtain ⟨s, hs, rfl⟩ := List.mem_map.1 hline
  refine breaks_eq_zero fun c hc hbreak => ?_
  rcases List.mem_append.1 hc with hindent | htext
  · rw [List.eq_of_mem_replicate hindent] at hbreak
    exact absurd hbreak (by decide)
  · obtain ⟨line, hline, hmem⟩ := (lineBreak_mem_statement_iff hbreak h).1 ⟨s, hs, htext⟩
    rcases hbreak with rfl | rfl
    · exact Line.lineFeed_not_mem_content hline (Line.mem_of_mem_verbatim _ hmem)
    · exact hreturn line hline hmem

/-- A line that the map counts comes from a line of the template. -/
theorem sourceLine_bounds (h : t.compile d unit = .ok script) {i : Nat} (hi : script.HasLine i) :
    1 ≤ script.lineMap.sourceLine i ∧
      script.lineMap.sourceLine i ≤ (Line.ofSource t.source).length := by
  obtain ⟨groups, hstatements, hgroups, hlines⟩ := groups_of_compile h
  obtain ⟨hlow, hhigh⟩ := hi
  rw [← script.length_lines, Script.lines, List.length_map, hstatements] at hhigh
  rw [Script.lineMap, hstatements, LineMap.sourceLine_ofLines _ _ (by rwa [List.length_map]),
    hlines.length_eq, ← count_real_flatten groups hgroups]
  exact ⟨one_le_count_take hgroups hlow hhigh, (List.take_sublist i _).count_le _⟩

end Template

/-! ### The place of a failure -/

namespace Renderer

variable {σ : Type} {t : Template} {script : Script} {scope : Scope} {f : ExecutionFailure} {s : σ}

theorem location_of_failure {r : Renderer σ} {failure : ScriptFailure}
    (h : r.failure t script failure = .execution f) :
    f.location = ⟨t.description, failure.line.map script.lineMap.sourceLine, failure.line⟩ := by
  unfold Renderer.failure at h
  split at h
  · cases h
  · cases h
    rfl

/-- An execution error is told at the line of a failure of the runtime. -/
theorem location_of_render {r : Renderer σ}
    (hcompile : t.compile r.settings.delimiters r.settings.indentUnit = .ok script)
    (hrun : ((r.render t scope).run.run s).1 = .error (.execution f)) :
    ∃ failure, ((r.runtime.execute (r.request script scope)
        (r.host t.directory? r.settings.maxIncludeDepth)).run s).1 = .error failure ∧
      f.location = ⟨t.description, failure.line.map script.lineMap.sourceLine, failure.line⟩ := by
  obtain ⟨result, s', hresult⟩ : ∃ result s', (r.runtime.execute (r.request script scope)
      (r.host t.directory? r.settings.maxIncludeDepth)).run s = (result, s') := ⟨_, _, rfl⟩
  rw [render_of_host hcompile hresult] at hrun
  rw [hresult]
  cases result with
  | ok output => cases hrun
  | error failure => exact ⟨failure, rfl, location_of_failure (Except.error.inj hrun)⟩

variable {E : Engine σ} {settings : Settings} {loader : Loader σ}

/-- The failure of a renderer that an engine runs scripts for is that of its report. -/
theorem report_of_render
    (hcompile : t.compile settings.delimiters settings.indentUnit = .ok script)
    (hrun : (((Renderer.mk settings loader E.runtime).render t scope).run.run s).1 =
      .error (.execution f)) :
    let r : Renderer σ := ⟨settings, loader, E.runtime⟩
    ∃ report, ((E.run (r.request script scope)
        (r.host t.directory? settings.maxIncludeDepth)).run s).1 = .error report ∧
      f.location = ⟨t.description, report.failure.line.map script.lineMap.sourceLine,
        report.failure.line⟩ := by
  intro r
  obtain ⟨failure, hfailure, hlocation⟩ := location_of_render (r := r) hcompile hrun
  rw [show r.runtime = E.runtime from rfl, Engine.execute_run] at hfailure
  generalize ((E.run (r.request script scope)
    (r.host t.directory? settings.maxIncludeDepth)).run s).1 = result at hfailure
  cases result with
  | ok output => cases hfailure
  | error report =>
    cases hfailure
    exact ⟨report, rfl, hlocation⟩

/-- What an engine reports is told of the template. -/
theorem render_of_report {report : Report}
    (hcompile : t.compile settings.delimiters settings.indentUnit = .ok script)
    (hreport : ((E.run ((Renderer.mk settings loader E.runtime).request script scope)
      ((Renderer.mk settings loader E.runtime).host t.directory? settings.maxIncludeDepth)).run s).1 =
        .error report) :
    let r : Renderer σ := ⟨settings, loader, E.runtime⟩
    ((r.render t scope).run.run s).1 = .error (r.failure t script report.failure) := by
  intro r
  have hexecute : ((r.runtime.execute (r.request script scope)
      (r.host t.directory? r.settings.maxIncludeDepth)).run s).1 = .error report.failure :=
    congrArg (Except.mapError Report.failure) hreport
  exact congrArg Prod.fst (render_of_host (r := r) hcompile (Prod.ext hexecute rfl))

/-- **A failure is told at a line of the template**, whatever implementation of the language runs its
script. Where no carriage return stands in code, and the lines of the code can be numbered, the line
of the code that a failure is told at is one that the line map counts, and it comes from a line of
the template, unless the report misleads: then the line stands in a message that the script or the
host has made, or in the name of a function. -/
theorem render_located (hE : E.TellsPlaces) {i : Nat}
    (hcompile : t.compile settings.delimiters settings.indentUnit = .ok script)
    (hreturn : ∀ line ∈ Line.ofSource t.source, '\r' ∉ line.verbatim settings.delimiters)
    (hlimit : script.lineMap.total < lineLimit)
    (hrun : (((Renderer.mk settings loader E.runtime).render t scope).run.run s).1 =
      .error (.execution f))
    (hi : f.location.compiledLine = some i) :
    let r : Renderer σ := ⟨settings, loader, E.runtime⟩
    (1 ≤ i ∧ i ≤ script.lineMap.total ∧ ∃ k, f.location.sourceLine = some k ∧
      1 ≤ k ∧ k ≤ (Line.ofSource t.source).length) ∨
    ∃ report, ((E.run (r.request script scope)
      (r.host t.directory? settings.maxIncludeDepth)).run s).1 = .error report ∧
        report.Misleads i := by
  intro r
  obtain ⟨report, hreport, hlocation⟩ := report_of_render hcompile hrun
  have hline : report.failure.line = some i := by rw [← hi, hlocation]
  have hlines : ∀ l, IsLineOf script.code l → script.HasLine l := fun _ =>
    script.hasLine_of_isLineOf (Template.breaks_line_of_compile hcompile hreturn)
  have hplaces := hE _ _ _ _ hreport
  rcases Report.line_of_failure (fun l hl => Nat.lt_of_le_of_lt (hlines l hl).2 hlimit) hplaces
    hline with hinside | hmisleads
  · have hcounted := hlines i hinside
    have hsource := Template.sourceLine_bounds hcompile hcounted
    refine .inl ⟨hcounted.1, hcounted.2, script.lineMap.sourceLine i, ?_, hsource⟩
    rw [hlocation, hline]
    rfl
  · exact .inr ⟨report, hreport, hmisleads⟩

/-- A failure on the second line of a template, which is the fourth of its code. -/
theorem render_located_error :
    let t : Template := .inline "a<% 1 %>b\n<% error('boom')\n"
    ∃ script f, t.compile .standard 4 = .ok script ∧
      (((Renderer.mk {} Files.loader Lua.runtime).render t .empty).run.run .empty).1 =
        .error (.execution f) ∧ f.location.compiledLine = some 4 ∧
      1 ≤ 4 ∧ 4 ≤ script.lineMap.total ∧ ∃ k, f.location.sourceLine = some k ∧
        1 ≤ k ∧ k ≤ (Line.ofSource t.source).length := by
  intro t
  let r : Renderer Files := ⟨{}, Files.loader, Lua.runtime⟩
  let script : Script := ⟨4, [⟨0, "print('a', \"\")", .real⟩, ⟨0, "print(str(1), \"\")", .phantom⟩,
    ⟨0, "print('b')", .phantom⟩, ⟨0, "error('boom')", .real⟩]⟩
  have hcompile : t.compile .standard 4 = .ok script :=
    Template.compile_eq_of_toOption (by decide +kernel)
  let report : Report := .raised (some ⟨scriptName, 4⟩) "boom"
    (some [⟨none, "?"⟩, ⟨none, "function 'error'"⟩, ⟨some ⟨scriptName, 4⟩, "main chunk"⟩])
  have hreport : ((interpreter.run (r.request script .empty)
      (r.host t.directory? 64)).run .empty).1 = .error report := by decide +kernel
  have hline : report.failure.line = some 4 := by decide +kernel
  have hrun := render_of_report hcompile hreport
  have hlocated := render_located interpreter_tellsPlaces (i := 4) hcompile (by decide +kernel)
    (by decide) hrun hline
  refine ⟨script, _, hcompile, hrun, hline, hlocated.resolve_right ?_⟩
  rintro ⟨_, hagain, hmisleads⟩
  obtain rfl := Except.error.inj (hreport.symm.trans hagain)
  exact Report.not_misleads_of_script hmisleads

/-- A script can raise a message with any position: the failure of a template of one line is told
at line 99. -/
theorem render_error_position :
    ∃ script f, (Template.inline "<% error('kiln:99: boom', 0)\n").compile .standard 4 = .ok script ∧
      script.lineMap.total = 1 ∧ (Line.ofSource "<% error('kiln:99: boom', 0)\n").length = 1 ∧
      (((Renderer.mk {} Files.loader Lua.runtime).render (.inline "<% error('kiln:99: boom', 0)\n")
        .empty).run.run .empty).1 = .error (.execution f) ∧
      f.location = ⟨"given template string", some 99, some 99⟩ := by
  have hcompile : (Template.inline "<% error('kiln:99: boom', 0)\n").compile .standard 4 =
      .ok ⟨4, [⟨0, "error('kiln:99: boom', 0)", .real⟩]⟩ :=
    Template.compile_eq_of_toOption (by decide +kernel)
  exact ⟨_, ⟨⟨"given template string", some 99, some 99⟩, "RuntimeError", "boom", none⟩, hcompile,
    by decide +kernel, by decide +kernel, by decide +kernel, rfl⟩

end Renderer

end Stencil
