import Mathlib.Data.List.Chain
import Mathlib.Logic.Relation
import Stencil.Proofs.Render.Basic
import Stencil.Proofs.Render.Expansion

/-! Includes are inlining.

A template whose lines are text or includes is rendered to its expansion, as long as no chain of
includes from it is longer than allowed (`Renderer.renderFile_expanded`). The included templates
are rendered one level deeper each, so that the induction is on the levels that are left; what a
level says of a template is that its script writes its expansion (`Renderer.execute_expansion`). -/
namespace Stencil

open Lua

/-! ### Loading -/

namespace Renderer

theorem load_eq_of_template? (settings : Settings) {files : Files} {path : Path} {t : Template}
    (h : files.template? settings.suffix path = some t) :
    ((Renderer.mk settings Files.loader Lua.runtime).load path).run.run files = (.ok t, files) := by
  let r : Renderer Files := ⟨settings, Files.loader, Lua.runtime⟩
  have hfirst : ∀ attempted paths, (paths.findSome? fun candidate : Path =>
      (files.read? candidate).map fun source => Template.mk source (some candidate)) = some t →
        (r.loadFirst attempted paths).run.run files = (.ok t, files) := by
    intro attempted paths
    induction paths with
    | nil => exact nofun
    | cons candidate rest ih =>
      intro hfound
      have hexists : (r.loader.exists? candidate).run files =
          ((files.read? candidate).isSome, files) := rfl
      rw [List.findSome?_cons] at hfound
      rw [loadFirst]
      cases hread : files.read? candidate with
      | some source =>
        rw [hread] at hexists hfound
        have hload : (r.loader.load candidate).run.run files = (.ok source, files) := by
          show (files.load candidate, files) = _
          rw [Files.load, hread]
        obtain rfl := Option.some.inj hfound
        exact (run_bind_lift _ hexists).trans (run_bind_ok _ hload)
      | none =>
        rw [hread] at hexists hfound
        exact (run_bind_lift _ hexists).trans (ih hfound)
  exact hfirst _ _ h

end Renderer

/-! ### Rendering -/

/-- The lines of a template are text, or include templates that are there. No path may make its
line look like a function header. -/
structure Template.IsInlinable (files : Files) (suffix : Text) (t : Template) : Prop where
  noReturn : '\r' ∉ t.source
  lines : ∀ line ∈ Line.ofSource t.source,
    Text.cut? Delimiters.standard.left line.content = none ∨
      (files.included? suffix t.directory? line).isSome
  noHeader : ∀ line ∈ Line.ofSource t.source, ∀ path ∈ includedPath? line.content,
    BlockKind.endsInFunctionHeader (includeCall path) = false

section Rendering

variable {files : Files} {suffix : Text} {t : Template} {host : Host Files} {scope : Scope}
  {functions : Table HostFunction}

theorem Template.IsInlinable.digits?_eq_none (h : t.IsInlinable files suffix) :
    Directive.digits? .standard t.source = none := by
  refine digits?_of_lines fun l hl => ?_
  obtain ⟨line, hline, hcontent⟩ := Line.exists_content_eq h.noReturn hl
  refine hcontent ▸ (h.lines line hline).imp_right fun hsome => ?_
  obtain ⟨u, hu⟩ := Option.isSome_iff_exists.1 hsome
  obtain ⟨path, hpath, _⟩ := Option.bind_eq_some_iff.1 hu
  rw [hpath]
  rfl

/-- The host of a template has the expansions of what a line includes. -/
def Line.Answered (files : Files) (suffix : Text) (directory : Option Path) (host : Host Files)
    (line : Line) : Prop :=
  ∀ path ∈ includedPath? line.content,
    ∀ u ∈ files.template? suffix (Renderer.target directory path), ∃ included,
      '\r' ∉ included ∧ u.ExpandsTo files suffix included ∧
        (host path .empty).run.run files = (.ok included, files)

/-- A line contributes what it adds to the expansion. -/
theorem Template.IsInlinable.line_contributes (h : t.IsInlinable files suffix) {line : Line}
    (hline : line ∈ Line.ofSource t.source) (hhost : line.Answered files suffix t.directory? host) :
    ∃ text, line.Contributes .standard t.description files ⟨host, scope, functions⟩ text ∧
      '\r' ∉ text ∧ ∀ {lines rest}, Expands files suffix t.directory? lines rest →
        Expands files suffix t.directory? (line :: lines) (text ++ rest) := by
  have hreturn : '\r' ∉ line.content := fun hmem => h.noReturn (Line.mem_of_mem_content hline hmem)
  rcases h.lines line hline with hcut | hsome
  · refine ⟨line.text, Line.contributes_literal hcut, ?_,
      .literal (includedPath?_of_cut?_eq_none hcut)⟩
    refine List.not_mem_append hreturn ?_
    cases line.terminated <;> decide
  · obtain ⟨u, hu⟩ := Option.isSome_iff_exists.1 hsome
    obtain ⟨path, hpath, hfound⟩ := Option.bind_eq_some_iff.1 hu
    obtain ⟨included, hclean, hexpands, hanswer⟩ := hhost path hpath u hfound
    have hdropped : '\r' ∉ included.dropLineFeed := fun hmem =>
      hclean (Text.mem_of_mem_dropLineFeed hmem)
    have hchomp : chomp included = included.dropLineFeed :=
      Text.dropReturn_of_ne fun hlast => hdropped (List.mem_of_getLast? hlast)
    have hindent : '\r' ∉ line.content.indentation := fun hmem =>
      hreturn ((List.takeWhile_sublist _).subset hmem)
    have hcontributes : line.Contributes .standard t.description files ⟨host, scope, functions⟩ _ :=
      Line.contributes_inclusion hpath (h.noHeader line hline path hpath) hanswer
    rw [hchomp, indentLines_eq_indented _ hdropped] at hcontributes
    refine ⟨_, hcontributes, ?_, fun hrest => ?_⟩
    · refine List.not_mem_append (fun hmem => ?_) (by decide)
      exact (Text.mem_of_mem_indented hmem).elim hindent hdropped
    · rw [List.append_assoc]
      exact .inclusion hu hexpands hrest

/-- The lines of a template contribute its expansion. -/
theorem Template.IsInlinable.contributes (h : t.IsInlinable files suffix)
    (hhost : ∀ line ∈ Line.ofSource t.source, line.Answered files suffix t.directory? host) :
    ∃ texts, List.Forall₂
        (Line.Contributes .standard t.description files ⟨host, scope, functions⟩)
        (Line.ofSource t.source) texts ∧
      '\r' ∉ texts.flatten ∧ t.ExpandsTo files suffix texts.flatten := by
  have hlines : ∀ lines, (∀ line ∈ lines, line ∈ Line.ofSource t.source) → ∃ texts, List.Forall₂
      (Line.Contributes .standard t.description files ⟨host, scope, functions⟩) lines texts ∧
        '\r' ∉ texts.flatten ∧ Expands files suffix t.directory? lines texts.flatten := by
    intro lines hmem
    induction lines with
    | nil => exact ⟨[], .nil, nofun, .nil⟩
    | cons line lines ih =>
      obtain ⟨hline, hrest⟩ := List.forall_mem_cons.1 hmem
      obtain ⟨texts, htexts, hclean, hexpands⟩ := ih hrest
      obtain ⟨text, htext, hreturn, hmore⟩ := h.line_contributes hline (hhost line hline)
      exact ⟨text :: texts, .cons htext htexts, List.not_mem_append hreturn hclean, hmore hexpands⟩
  exact hlines _ fun _ hline => hline

end Rendering

namespace Renderer

variable {settings : Settings} {files : Files} {levels : Nat} {t : Template} {scope : Scope}

/-- A template whose includes are answered is compiled to a script that writes its expansion. -/
theorem execute_of_answered (hstandard : settings.delimiters = .standard)
    (hunhidden : Unhidden (settings.globals.merge scope) settings.functions)
    (ht : t.IsInlinable files settings.suffix) {host : Host Files}
    (hhost : ∀ line ∈ Line.ofSource t.source,
      line.Answered files settings.suffix t.directory? host) :
    ∃ text script, '\r' ∉ text ∧ t.ExpandsTo files settings.suffix text ∧
      t.compile settings.delimiters settings.indentUnit = .ok script ∧
      (Lua.execute ⟨script.code, settings.globals.merge scope, settings.functions⟩ host).run files =
        (.ok text, files) := by
  obtain ⟨texts, hcontributes, hreturn, hexpands⟩ := ht.contributes hhost
  obtain ⟨script, hcompile, hrun⟩ := Template.execute_contributions settings.indentUnit
    ht.digits?_eq_none hunhidden hcontributes
  exact ⟨texts.flatten, script, hreturn, hexpands, hstandard ▸ hcompile, hrun⟩

/-- A template that leads to no chain of includes longer than the levels that are left is compiled
to a script that writes its expansion. -/
theorem execute_expansion (hstandard : settings.delimiters = .standard)
    (hunhidden : Unhidden (settings.globals.merge scope) settings.functions)
    (hlines : ∀ u, Relation.ReflTransGen (files.Includes settings.suffix) t u →
      u.IsInlinable files settings.suffix)
    (hlevels : ∀ chain, List.IsChain (files.Includes settings.suffix) (t :: chain) →
      chain.length ≤ levels) :
    ∃ text script, '\r' ∉ text ∧ t.ExpandsTo files settings.suffix text ∧
      t.compile settings.delimiters settings.indentUnit = .ok script ∧
      (Lua.execute ⟨script.code, settings.globals.merge scope, settings.functions⟩
        ((Renderer.mk settings Files.loader Lua.runtime).host t.directory? levels)).run files =
          (.ok text, files) := by
  have hincludes : ∀ {t u : Template} {line : Line} {path : Path}, line ∈ Line.ofSource t.source →
      includedPath? line.content = some path →
      files.template? settings.suffix (target t.directory? path) = some u →
      files.Includes settings.suffix t u := fun hline hpath hu =>
    List.mem_filterMap.2 ⟨_, hline, Option.bind_eq_some_iff.2 ⟨_, hpath, hu⟩⟩
  induction levels generalizing t scope with
  | zero =>
    refine execute_of_answered hstandard hunhidden (hlines t .refl) ?_
    intro line hline path hpath u hu
    have hchain := hlevels [u] (.cons_cons (hincludes hline hpath hu) (.singleton u))
    exact absurd hchain (Nat.not_succ_le_zero 0)
  | succ levels ih =>
    refine execute_of_answered hstandard hunhidden (hlines t .refl) ?_
    intro line hline path hpath u hu
    have hedge := hincludes hline hpath hu
    obtain ⟨included, script, hreturn, hexpands, hcompile, hrun⟩ := ih hunhidden.of_merge
      (fun v hv => hlines v (.head hedge hv))
      fun chain hchain => Nat.le_of_succ_le_succ (hlevels (u :: chain) (.cons_cons hedge hchain))
    exact ⟨included, hreturn, hexpands, host_eq (load_eq_of_template? settings hu) hcompile hrun⟩

/-- **Includes are inlining.** When every template that one leads to consists of text and of
includes of templates that are there, and no chain of includes from it is longer than allowed, it
is rendered to the one text that it expands to. -/
theorem renderFile_expanded (settings : Settings) (files : Files) (path : Path) (scope : Scope)
    (hstandard : settings.delimiters = .standard)
    (hunhidden : Unhidden (settings.globals.merge scope) settings.functions)
    (hpath : files.template? settings.suffix path = some t)
    (hlines : ∀ u, Relation.ReflTransGen (files.Includes settings.suffix) t u →
      u.IsInlinable files settings.suffix)
    (hdepth : ∀ chain, List.IsChain (files.Includes settings.suffix) (t :: chain) →
      chain.length ≤ settings.maxIncludeDepth) :
    ∃ text code, (∀ other, t.ExpandsTo files settings.suffix other ↔ other = text) ∧
      ((Renderer.mk settings Files.loader Lua.runtime).renderFile path scope).run.run files =
        (.ok ⟨text, code⟩, files) := by
  obtain ⟨text, script, _, hexpands, hcompile, hrun⟩ :=
    execute_expansion hstandard hunhidden hlines hdepth
  refine ⟨text, script.code, fun other => ⟨hexpands.unique, fun h => h ▸ hexpands⟩, ?_⟩
  exact (run_bind_ok _ (load_eq_of_template? settings hpath)).trans
    (render_of_host (r := ⟨settings, Files.loader, Lua.runtime⟩) hcompile hrun)

/-- Includes in includes, each at an indentation of its own, from a directory of their own. -/
theorem renderFile_expanded_nested :
    ∃ code, ((Renderer.mk {} Files.loader Lua.runtime).renderFile "page" .empty).run.run
      (Files.ofList [("page", "Top\n  <% include('parts/item')\n\nend"),
        ("parts/item.tpl", "* item\n\n    <% include('leaf')\n"), ("parts/leaf", "x\n\ny\n")]) =
      (.ok ⟨"Top\n  * item\n\n      x\n\n      y\n\nend", code⟩,
        Files.ofList [("page", "Top\n  <% include('parts/item')\n\nend"),
          ("parts/item.tpl", "* item\n\n    <% include('leaf')\n"),
          ("parts/leaf", "x\n\ny\n")]) := by
  let page : Template := ⟨"Top\n  <% include('parts/item')\n\nend", some "page"⟩
  let item : Template := ⟨"* item\n\n    <% include('leaf')\n", some "parts/item.tpl"⟩
  let leaf : Template := ⟨"x\n\ny\n", some "parts/leaf"⟩
  let files : Files := Files.ofList [("page", page.source), ("parts/item.tpl", item.source),
    ("parts/leaf", leaf.source)]
  let rank : Template → Nat := fun t => if t = page then 2 else if t = item then 1 else 0
  have hedges : ∀ t ∈ [page, item, leaf], ∀ u ∈ files.inclusions "tpl" t,
      u ∈ [page, item, leaf] ∧ rank u < rank t := by decide +kernel
  have hreached : ∀ u, Relation.ReflTransGen (files.Includes "tpl") page u →
      u ∈ [page, item, leaf] := by
    intro u hu
    induction hu with
    | refl => exact List.mem_cons_self ..
    | tail _ hedge ih => exact (hedges _ ih _ hedge).1
  have hrank : ∀ chain t, t ∈ [page, item, leaf] →
      List.IsChain (files.Includes "tpl") (t :: chain) → chain.length ≤ rank t := by
    intro chain
    induction chain with
    | nil => exact fun t _ _ => Nat.zero_le _
    | cons u rest ih =>
      intro t ht hchain
      obtain ⟨hedge, hrest⟩ := List.isChain_cons_cons.1 hchain
      obtain ⟨hu, hlt⟩ := hedges t ht u hedge
      exact Nat.succ_le_of_lt (Nat.lt_of_le_of_lt (ih u hu hrest) hlt)
  have hinlinable : ∀ t ∈ [page, item, leaf], t.IsInlinable files "tpl" := by
    intro t ht
    simp only [List.mem_cons, List.not_mem_nil, or_false] at ht
    rcases ht with rfl | rfl | rfl
    · exact ⟨by decide, by decide +kernel, by decide +kernel⟩
    · exact ⟨by decide, by decide +kernel, by decide +kernel⟩
    · exact ⟨by decide, by decide +kernel, by decide +kernel⟩
  have hleaf : leaf.ExpandsTo files "tpl" "x\n\ny\n" :=
    .literal rfl (.literal rfl (.literal rfl .nil))
  have hitem : item.ExpandsTo files "tpl" "* item\n\n    x\n\n    y\n" :=
    .literal rfl (.literal rfl (.inclusion rfl hleaf .nil))
  have hpage : page.ExpandsTo files "tpl" "Top\n  * item\n\n      x\n\n      y\n\nend" :=
    .literal rfl (.inclusion rfl hitem (.literal rfl (.literal rfl .nil)))
  have hdepth : ∀ chain, List.IsChain (files.Includes "tpl") (page :: chain) → chain.length ≤ 64 :=
    fun chain hchain => Nat.le_trans (hrank chain page (List.mem_cons_self ..) hchain) (by decide)
  obtain ⟨text, code, hunique, hrender⟩ := renderFile_expanded {} files "page" .empty rfl
    ⟨by decide, by decide⟩ rfl (fun u hu => hinlinable u (hreached u hu)) hdepth
  rw [(hunique _).1 hpage]
  exact ⟨code, hrender⟩

/-- A template whose script is not read is not rendered. -/
theorem renderFile_of_parse_error (settings : Settings) {path : Path} {script : Script}
    {e : ParseError} (hunhidden : Unhidden (settings.globals.merge scope) settings.functions)
    (hpath : files.template? settings.suffix path = some t)
    (hcompile : t.compile settings.delimiters settings.indentUnit = .ok script)
    (hparse : parse script.code = .error e) :
    ∃ failure, ((Renderer.mk settings Files.loader Lua.runtime).renderFile path scope).run.run
      files = (.error failure, files) :=
  ⟨_, (run_bind_ok _ (load_eq_of_template? settings hpath)).trans
    (render_of_host (r := ⟨settings, Files.loader, Lua.runtime⟩) hcompile
      (execute_of_parse_error hunhidden hparse))⟩

/-- A parenthesis in a string makes its line look like a function header, so that a block is closed
which nothing opened. -/
theorem renderFile_functionPath :
    (Files.ofList [("page", "<% include('function(x')\n"), ("function(x", "hello\n")]).template?
      "tpl" "page" = some ⟨"<% include('function(x')\n", some "page"⟩ ∧
    (Template.mk "<% include('function(x')\n" (some "page")).ExpandsTo
      (Files.ofList [("page", "<% include('function(x')\n"), ("function(x", "hello\n")]) "tpl"
      "hello\n" ∧
    ∃ failure, ((Renderer.mk {} Files.loader Lua.runtime).renderFile "page" .empty).run.run
      (Files.ofList [("page", "<% include('function(x')\n"), ("function(x", "hello\n")]) =
        (.error failure,
          Files.ofList [("page", "<% include('function(x')\n"), ("function(x", "hello\n")]) := by
  have hfails : (parse "__include('', 'function(x')\nend").isOk = false := by decide +kernel
  obtain ⟨e, hparse⟩ : ∃ e, parse "__include('', 'function(x')\nend" = .error e := by
    cases hread : parse "__include('', 'function(x')\nend" with
    | error e => exact ⟨e, rfl⟩
    | ok body =>
      rw [hread] at hfails
      cases hfails
  let page : Template := ⟨"<% include('function(x')\n", some "page"⟩
  let files : Files := Files.ofList [("page", page.source), ("function(x", "hello\n")]
  let script : Script := ⟨4, [⟨0, "__include('', 'function(x')", .real⟩, ⟨0, "end", .phantom⟩]⟩
  have hpage : files.template? "tpl" "page" = some page := rfl
  have hincluded : (Template.mk "hello\n" (some "function(x")).ExpandsTo files "tpl" "hello\n" :=
    .literal rfl .nil
  have hcompile : page.compile .standard 4 = .ok script := rfl
  have hcode : script.code = "__include('', 'function(x')\nend".toList := rfl
  have hunhidden : Unhidden (Table.merge .empty .empty) .empty := ⟨by decide, by decide⟩
  exact ⟨hpage, .inclusion rfl hincluded .nil,
    renderFile_of_parse_error {} hunhidden hpage hcompile (hcode ▸ hparse)⟩

end Renderer
end Stencil
