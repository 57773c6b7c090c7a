import Stencil.Proofs.Lua.Sentence.Basic
import Stencil.Proofs.Script.Extent

/-! Templates without blocks.

Where no line opens a block every statement stands at no depth, in the order of the lines, and a
call that indents what it writes is told the whole indentation of its line
(`Item.statementsFrom_flat`). So a template is done when each of its lines is: its output is what
the lines contribute, one after the other (`Template.execute_contributions`). -/
namespace Stencil

open Lua

/-! ### Layout -/

theorem map_realThenPhantoms (depth : Nat) (texts : List Text) :
    (Item.realThenPhantoms depth texts).map Statement.placed =
      texts.map fun t => (depth, t) := by
  cases texts with
  | nil => rfl
  | cons first rest => simp [Item.realThenPhantoms, Item.realAt, Statement.placed]

/-- Items that open no block are laid out in order, at no depth. -/
theorem Item.statementsFrom_flat {items : List Item} (h : ∀ item ∈ items, item.opens? = none)
    (held : List Text) :
    (statementsFrom ⟨[], held⟩ items).map Statement.placed =
      (held ++ items.flatMap fun item => item.texts item.indent).map fun t => (0, t) := by
  have hheld : ∀ texts : List Text,
      (texts.map (realAt 0)).map Statement.placed = texts.map fun t => (0, t) :=
    fun texts => List.map_map
  induction items generalizing held with
  | nil =>
    rw [List.flatMap_nil, List.append_nil, ← hheld held]
    rfl
  | cons item items ih =>
    have hitem := h item (List.mem_cons_self ..)
    have hitems := ih fun i hi => h i (List.mem_cons_of_mem _ hi)
    rw [List.flatMap_cons]
    cases item with
    | blank statement =>
      show (statementsFrom ⟨[], held ++ [statement]⟩ items).map _ = _
      rw [hitems, List.append_assoc]
      rfl
    | output indent statements =>
      show ((held.map (realAt 0) ++ realThenPhantoms 0 statements) ++
        statementsFrom ⟨[], []⟩ items).map _ = _
      rw [List.map_append, hitems, List.map_append, hheld, map_realThenPhantoms, List.nil_append,
        List.append_assoc, ← List.map_append, ← List.map_append]
      rfl
    | code indent text line =>
      have hopens : BlockKind.opening? text = none := Option.map_eq_none_iff.1 hitem
      have hlay : lay ⟨[], held⟩ (.code indent text line) =
          (held.map (realAt 0) ++ [realAt 0 (line.statement indent)], ⟨[], []⟩) := by
        unfold lay
        dsimp only
        rw [hopens]
        rfl
      show ((lay ⟨[], held⟩ (.code indent text line)).1 ++
        statementsFrom (lay ⟨[], held⟩ (.code indent text line)).2 items).map _ = _
      rw [hlay, List.map_append, hitems, List.map_append, hheld, List.map_append, List.map_append,
        List.append_assoc]
      rfl

/-! ### Lines by themselves -/

section Contributions

variable {σ : Type} {d : Delimiters} {t : Template} {template : Text} {world : σ}
  {context : Context σ} {line : Line} {text : Text} {scope : Scope}
  {functions : Table HostFunction} {host : Host σ}

/-- The line opens no block, and its statements are sentences that write a text. -/
def Line.Contributes (d : Delimiters) (template : Text) (world : σ) (context : Context σ)
    (line : Line) (text : Text) : Prop :=
  ∃ item sentences texts, Item.ofLine d template line = .ok item ∧ item.opens? = none ∧
    item.texts item.indent = sentences.map Sentence.text ∧
    List.Forall₂ (Sentence.Says world context) sentences texts ∧ texts.flatten = text

/-- What each of some lines contributes, put together. -/
theorem Line.items_of_contributes {lines : List Line} {texts : List Text}
    (h : List.Forall₂ (Line.Contributes d template world context) lines texts) :
    ∃ items sentences pieces,
      List.Forall₂ (fun line item => Item.ofLine d template line = .ok item) lines items ∧
      (∀ item ∈ items, item.opens? = none) ∧
      (items.flatMap fun item => item.texts item.indent) = sentences.map Sentence.text ∧
      List.Forall₂ (Sentence.Says world context) sentences pieces ∧
      pieces.flatten = texts.flatten := by
  induction h with
  | nil => exact ⟨[], [], [], .nil, nofun, rfl, .nil, rfl⟩
  | cons hline _ ih =>
    obtain ⟨items, sentences, pieces, hitems, hflat, htexts, hsaid, hpieces⟩ := ih
    obtain ⟨item, first, written, hitem, hopens, hfirst, hwritten, rfl⟩ := hline
    refine ⟨item :: items, first ++ sentences, written ++ pieces, .cons hitem hitems,
      List.forall_mem_cons.2 ⟨hopens, hflat⟩, ?_, List.rel_append hwritten hsaid, ?_⟩
    · rw [List.flatMap_cons, hfirst, htexts, List.map_append]
    · rw [List.flatten_append, hpieces, List.flatten_cons]

/-- A template without blocks is compiled to what its lines contribute. -/
theorem Template.compile_contributions (unit : Nat)
    (hdirective : Directive.digits? d t.source = none) {texts : List Text}
    (h : List.Forall₂ (Line.Contributes d t.description world context) (Line.ofSource t.source)
      texts) :
    ∃ script sentences pieces, t.compile d unit = .ok script ∧ script.IsFlat sentences ∧
      List.Forall₂ (Sentence.Says world context) sentences pieces ∧
      pieces.flatten = texts.flatten := by
  obtain ⟨items, sentences, pieces, hitems, hflat, htexts, hsaid, hpieces⟩ :=
    Line.items_of_contributes h
  have hcompile : t.compile d unit = .ok ⟨unit, Item.statements items⟩ := by
    unfold compile Directive.unit?
    rw [hdirective, mapM_eq_ok hitems]
    rfl
  have hscript : Script.IsFlat ⟨unit, Item.statements items⟩ sentences := by
    show (Item.statementsFrom ⟨[], []⟩ items).map Statement.placed = _
    rw [Item.statementsFrom_flat hflat, List.nil_append, htexts, List.map_map]
    rfl
  exact ⟨_, sentences, pieces, hcompile, hscript, hsaid, hpieces⟩

/-- **The output of a template without blocks** is what its lines contribute. -/
theorem Template.execute_lines (unit : Nat) {texts : List Text}
    (hdirective : Directive.digits? d t.source = none) (hstarts : Starts scope functions)
    (h : List.Forall₂ (Line.Contributes d t.description world ⟨host, scope, functions⟩)
      (Line.ofSource t.source) texts) :
    ∃ script, t.compile d unit = .ok script ∧
      (execute ⟨script.code, scope, functions⟩ host).run world = (.ok texts.flatten, world) := by
  obtain ⟨script, sentences, pieces, hcompile, hscript, hsaid, hpieces⟩ :=
    compile_contributions unit hdirective h
  refine ⟨script, hcompile, ?_⟩
  rw [hscript.execute_code hstarts hsaid, hpieces]

theorem Template.execute_contributions (unit : Nat) {texts : List Text}
    (hdirective : Directive.digits? d t.source = none) (hunhidden : Unhidden scope functions)
    (h : List.Forall₂ (Line.Contributes d t.description world ⟨host, scope, functions⟩)
      (Line.ofSource t.source) texts) :
    ∃ script, t.compile d unit = .ok script ∧
      (execute ⟨script.code, scope, functions⟩ host).run world = (.ok texts.flatten, world) :=
  execute_lines unit hdirective hunhidden.starts h

end Contributions
end Stencil
