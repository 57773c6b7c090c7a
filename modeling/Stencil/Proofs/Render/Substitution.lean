import Stencil.Proofs.Lua.Sentence.Calls
import Stencil.Proofs.Render.Basic
import Stencil.Proofs.Script.Flat
import Stencil.Render.Memory

/-! Templates without code are substitution.

Where no line is code and every placeholder is a variable that is a text, a template is rendered by
putting these texts in the place of the placeholders (`Renderer.render_substituted`). They are put
there as they are: nothing in them is read again, not a delimiter, a quote, a line feed or code. -/
namespace Stencil

open Lua

/-! ### What lines stand for -/

/-- The name in a placeholder. -/
def Fragment.name? : Fragment → Option Text
  | literal _ | escaped _ => none
  | placeholder expr => some expr

/-- What a fragment stands for when variables have these values. -/
def Fragment.substituted (d : Delimiters) (values : Text → Text) : Fragment → Text
  | literal text => text
  | escaped before => before ++ d.left
  | placeholder expr => values expr

/-- The form is not that of code, and the names in its placeholders are bound. -/
def Form.IsPlain (bound : Text → Prop) : Form → Prop
  | blank _ => True
  | placeholder _ name => bound name
  | text _ fragments => ∀ name ∈ fragments.filterMap Fragment.name?, bound name
  | code .. => False

instance {bound : Text → Prop} [DecidablePred bound] :
    (form : Form) → Decidable (form.IsPlain bound)
  | .blank _ => inferInstanceAs (Decidable True)
  | .placeholder _ name => inferInstanceAs (Decidable (bound name))
  | .text _ fragments =>
    inferInstanceAs (Decidable (∀ name ∈ fragments.filterMap Fragment.name?, bound name))
  | .code .. => inferInstanceAs (Decidable False)

/-- What a form other than code stands for, in a line with this end. The line of a single
placeholder is nothing but the value; any other line keeps its end. -/
def Form.substituted (d : Delimiters) (values : Text → Text) (lineEnd : Text) : Form → Text
  | blank content => content ++ lineEnd
  | placeholder _ name => values name
  | text _ fragments => fragments.flatMap (Fragment.substituted d values) ++ lineEnd
  | code .. => []

namespace Line

/-- The line is not code, and the names in its placeholders are bound. -/
def IsPlain (d : Delimiters) (bound : Text → Prop) (line : Line) : Prop :=
  match Form.ofLine d line.content with
  | .ok form => form.IsPlain bound
  | .error _ => False

instance {d : Delimiters} {bound : Text → Prop} [DecidablePred bound] (line : Line) :
    Decidable (line.IsPlain d bound) :=
  show Decidable (match Form.ofLine d line.content with
    | .ok form => form.IsPlain bound
    | .error _ => False) from
  match Form.ofLine d line.content with
  | .ok form => inferInstanceAs (Decidable (form.IsPlain bound))
  | .error _ => inferInstanceAs (Decidable False)

/-- What a line stands for when variables have these values. -/
def substituted (d : Delimiters) (values : Text → Text) (line : Line) : Text :=
  match Form.ofLine d line.content with
  | .ok form => form.substituted d values (if line.terminated then ['\n'] else [])
  | .error _ => []

/-- More names may be bound. -/
theorem IsPlain.imp {d : Delimiters} {bound bound' : Text → Prop} {line : Line}
    (h : line.IsPlain d bound) (hbound : ∀ name, bound name → bound' name) :
    line.IsPlain d bound' := by
  unfold IsPlain at h ⊢
  cases hform : Form.ofLine d line.content with
  | error e =>
    rw [hform] at h
    exact h
  | ok form =>
    rw [hform] at h
    cases form with
    | blank content => trivial
    | placeholder indent name => exact hbound name h
    | text indent fragments => exact fun name hname => hbound name (h name hname)
    | code indent code => exact h

end Line

/-! ### Lines -/

section Lines

variable {σ : Type} {d : Delimiters} {values : Text → Text} {world : σ} {context : Context σ}

/-- The statement of a fragment is a sentence. -/
theorem Fragment.exists_sentence (d : Delimiters) (world : σ) (f : Fragment) (endLine : Bool)
    (h : ∀ name ∈ f.name?, IsText context.scope context.functions name (values name)) :
    ∃ s : Sentence, f.statement d endLine = s.text ∧
      s.Says world context (f.substituted d values ++ if endLine then ['\n'] else []) := by
  cases f with
  | literal text => exact ⟨.print text endLine, rfl, Sentence.says_print text endLine⟩
  | escaped before => exact ⟨.print (before ++ d.left) endLine, rfl, Sentence.says_print _ endLine⟩
  | placeholder expr =>
    have ht := h expr rfl
    cases endLine with
    | true => exact ⟨.writeLine expr ht.isName, rfl, Sentence.says_writeLine ht⟩
    | false =>
      refine ⟨.write expr ht.isName, rfl, ?_⟩
      show Sentence.Says world context (.write expr ht.isName) (values expr ++ [])
      rw [List.append_nil]
      exact Sentence.says_write ht

/-- The last fragment of a line ends it. -/
theorem fragmentStatements_sentences (d : Delimiters) (world : σ) (terminated : Bool)
    {fs : List Fragment} (hne : fs ≠ [])
    (h : ∀ f ∈ fs, ∀ name ∈ f.name?, IsText context.scope context.functions name (values name)) :
    ∃ sentences texts, fragmentStatements d terminated fs = sentences.map Sentence.text ∧
      List.Forall₂ (Sentence.Says world context) sentences texts ∧
      texts.flatten = fs.flatMap (Fragment.substituted d values) ++
        if terminated then ['\n'] else [] := by
  induction fs with
  | nil => exact absurd rfl hne
  | cons f rest ih =>
    have hf := h f (List.mem_cons_self ..)
    cases rest with
    | nil =>
      obtain ⟨s, htext, hsaid⟩ := f.exists_sentence d world terminated hf
      refine ⟨[s], [_], congrArg (fun t => [t]) htext, .cons hsaid .nil, ?_⟩
      rw [List.flatten_singleton, List.flatMap_cons, List.flatMap_nil, List.append_nil]
    | cons next others =>
      obtain ⟨s, htext, hsaid⟩ := f.exists_sentence d world false hf
      obtain ⟨sentences, texts, htexts, hrest, hflatten⟩ :=
        ih (List.cons_ne_nil _ _) fun g hg => h g (List.mem_cons_of_mem _ hg)
      refine ⟨s :: sentences, _ :: texts, ?_, .cons hsaid hrest, ?_⟩
      · rw [fragmentStatements, htext, htexts, List.map_cons]
        exact List.cons_ne_nil _ _
      · rw [List.flatten_cons, hflatten, if_neg Bool.false_ne_true, List.append_nil,
          ← List.append_assoc]
        rfl

/-- A plain line contributes what it stands for. -/
theorem Line.IsPlain.contributes {line : Line} (template : Text)
    (h : line.IsPlain d fun name => IsText context.scope context.functions name (values name)) :
    line.Contributes d template world context (line.substituted d values) := by
  unfold IsPlain at h
  unfold Contributes substituted Item.ofLine
  cases hform : Form.ofLine d line.content with
  | error e =>
    rw [hform] at h
    exact h.elim
  | ok form =>
    rw [hform] at h
    cases form with
    | code indent code => exact h.elim
    | blank content =>
      exact ⟨_, [.print content line.terminated], [_], rfl, rfl, rfl,
        .cons (Sentence.says_print content line.terminated) .nil, List.flatten_singleton⟩
    | placeholder indent name =>
      exact ⟨_, [.write name h.isName], [_], rfl, rfl, rfl, .cons (Sentence.says_write h) .nil,
        List.flatten_singleton⟩
    | text indent fs =>
      have hbound : ∀ f ∈ fs, ∀ name ∈ f.name?,
          IsText context.scope context.functions name (values name) :=
        fun f hf name hname => h name (List.mem_filterMap.2 ⟨f, hf, hname⟩)
      obtain ⟨sentences, texts, htexts, hsaid, hflatten⟩ :=
        fragmentStatements_sentences d world line.terminated
          (Form.fragments_ne_nil_of_ofLine hform) hbound
      exact ⟨_, sentences, texts, rfl, rfl, htexts, hsaid, hflatten⟩

end Lines

/-! ### Rendering -/

namespace Renderer

variable {σ : Type} {scope : Scope} {t : Template} {values : Text → Text}

/-- A template without blocks is rendered to what its lines contribute. -/
theorem render_of_contributes (settings : Settings) (loader : Loader σ) {s : σ} {texts : List Text}
    (hdirective : Directive.digits? settings.delimiters t.source = none)
    (hunhidden : Unhidden (settings.globals.merge scope) settings.functions)
    (h : ∀ host : Host σ, List.Forall₂ (Line.Contributes settings.delimiters t.description s
      ⟨host, settings.globals.merge scope, settings.functions⟩) (Line.ofSource t.source) texts) :
    ∃ code, ((Renderer.mk settings loader Lua.runtime).render t scope).run.run s =
      (.ok ⟨texts.flatten, code⟩, s) := by
  obtain ⟨script, hcompile, hrun⟩ :=
    Template.execute_contributions settings.indentUnit hdirective hunhidden (h _)
  exact ⟨script.code, render_of_host (r := ⟨settings, loader, Lua.runtime⟩) hcompile hrun⟩

/-- **A template without code is rendered to what its lines stand for.** The scope may be any that
hides nothing a script needs, and the texts in it may be any texts. -/
theorem render_substituted (settings : Settings) (loader : Loader σ) (s : σ)
    (hdirective : Directive.digits? settings.delimiters t.source = none)
    (hunhidden : Unhidden (settings.globals.merge scope) settings.functions)
    (hlines : ∀ line ∈ Line.ofSource t.source, line.IsPlain settings.delimiters fun name =>
      IsText (settings.globals.merge scope) settings.functions name (values name)) :
    ∃ code, ((Renderer.mk settings loader Lua.runtime).render t scope).run.run s =
      (.ok ⟨(Line.ofSource t.source).flatMap (Line.substituted settings.delimiters values), code⟩,
        s) := by
  have hcontributes : ∀ host : Host σ, List.Forall₂
      (Line.Contributes settings.delimiters t.description s
        ⟨host, settings.globals.merge scope, settings.functions⟩)
      (Line.ofSource t.source)
      ((Line.ofSource t.source).map (Line.substituted settings.delimiters values)) := by
    intro host
    rw [List.forall₂_map_right_iff, List.forall₂_same]
    exact fun line hline => (hlines line hline).contributes t.description
  rw [List.flatMap_def]
  exact render_of_contributes settings loader hdirective hunhidden hcontributes

/-- A text that holds a placeholder, quotes, a bracket and a line feed, and another that would be
code. -/
theorem render_substituted_code :
    ∃ code, ((Renderer.mk {} Files.loader Lua.runtime).render
      (.inline "Dear <% x %>\n\n  <% x %>\n<%% <% y %>!")
      ((Table.empty.insert "x" (.string "<% y %>'\"]]\n")).insert "y"
        (.string "end) error(1)"))).run.run .empty =
      (.ok ⟨"Dear <% y %>'\"]]\n\n\n<% y %>'\"]]\n<% end) error(1)!", code⟩, .empty) := by
  let scope : Scope := (Table.empty.insert "x" (.string "<% y %>'\"]]\n")).insert "y"
    (.string "end) error(1)")
  let source : Text := "Dear <% x %>\n\n  <% x %>\n<%% <% y %>!"
  let values : Text → Text := fun name =>
    if name = "x".toList then "<% y %>'\"]]\n" else "end) error(1)"
  have htexts : ∀ name ∈ ["x".toList, "y".toList],
      IsText (Table.merge .empty scope) .empty name (values name) := by
    intro name hname
    obtain rfl | hname := List.mem_cons.1 hname
    · exact ⟨by decide, rfl, by decide, by decide, by decide⟩
    · obtain rfl := List.mem_singleton.1 hname
      exact ⟨by decide, rfl, by decide, by decide, by decide⟩
  have hplain : ∀ line ∈ Line.ofSource source,
      line.IsPlain .standard (· ∈ ["x".toList, "y".toList]) := by decide +kernel
  have hunhidden : Unhidden (Table.merge .empty scope) .empty := ⟨by decide, by decide⟩
  have houtput : (Line.ofSource source).flatMap (Line.substituted .standard values) =
      "Dear <% y %>'\"]]\n\n\n<% y %>'\"]]\n<% end) error(1)!".toList := by decide +kernel
  rw [← houtput]
  exact render_substituted {} Files.loader .empty (by decide +kernel) hunhidden
    fun line hline => (hplain line hline).imp htexts

end Renderer
end Stencil
