import Stencil.Proofs.Lua.Significance
import Stencil.Proofs.Outline.Basic
import Stencil.Proofs.Script.Items
import Stencil.Proofs.Text.Lines

/-! The lines of an outline, read one by one.

`IsLine` says that a text is one line of a source and what item it is, and there is one lemma for
each kind of line. The lines of the source of an outline are read as the items of the outline
(`forall₂_items`). -/
namespace Stencil

open Lua

/-! ### Characters of names -/

namespace Lua

theorem bounds_of_isNameChar {c : Char} (h : isNameChar c = true) :
    48 ≤ c.toNat ∧ c.toNat ≤ 122 := by
  simp only [isNameChar, isAsciiLetter, isAsciiDigit, Bool.or_eq_true, Bool.and_eq_true,
    decide_eq_true_eq, beq_iff_eq, Char.le_def, UInt32.le_iff_toNat_le] at h
  rcases h with ((h | h) | h) | rfl
  · change 97 ≤ c.toNat ∧ c.toNat ≤ 122 at h
    omega
  · change 65 ≤ c.toNat ∧ c.toNat ≤ 90 at h
    omega
  · change 48 ≤ c.toNat ∧ c.toNat ≤ 57 at h
    omega
  · decide

theorem isBlank_of_isNameChar {c : Char} (h : isNameChar c = true) : isBlank c = false := by
  have hbounds := bounds_of_isNameChar h
  rw [← Bool.not_eq_true]
  intro hblank
  simp only [isBlank, Bool.or_eq_true, Bool.and_eq_true, decide_eq_true_eq, beq_iff_eq] at hblank
  omega

namespace IsWord

variable {t : Text}

theorem ne_nil (h : IsWord t) : t ≠ [] := by
  obtain ⟨c, cs, rfl, _⟩ := h.start
  exact List.cons_ne_nil c cs

theorem startsInk (h : IsWord t) : t.StartsInk :=
  fun c hc => isBlank_of_isNameChar (h.chars c (List.mem_of_mem_head? hc))

theorem endsInk (h : IsWord t) : t.EndsInk :=
  fun c hc => isBlank_of_isNameChar (h.chars c (List.mem_of_mem_getLast? hc))

theorem not_mem (h : IsWord t) {c : Char} (hc : isNameChar c = false) : c ∉ t :=
  fun hmem => Bool.false_ne_true (hc.symm.trans (h.chars c hmem))

end IsWord

theorem Literal.lineFeed_not_mem (l : Literal) : '\n' ∉ l.text := by
  have hnumeral : '\n' ∉ l.numeral :=
    fun hmem => absurd (l.isNumeral.isNameChar _ hmem) (by decide)
  unfold Literal.text
  cases l.negative with
  | true => exact List.not_mem_cons_of_ne_of_not_mem (by decide) hnumeral
  | false => exact hnumeral

theorem lineFeed_not_mem_countHeader {name : Text} (hname : IsWord name) (start limit : Literal) :
    '\n' ∉ countHeader name start limit := by
  have hfor : '\n' ∉ "for ".toList := by decide
  have hequals : '\n' ∉ " = ".toList := by decide
  have hcomma : '\n' ∉ ", ".toList := by decide
  have hdo : '\n' ∉ " do".toList := by decide
  have hnames : '\n' ∉ name := hname.not_mem (by decide)
  unfold countHeader
  exact List.not_mem_append (List.not_mem_append (List.not_mem_append (List.not_mem_append
    (List.not_mem_append (List.not_mem_append hfor hnames) hequals) start.lineFeed_not_mem) hcomma)
      limit.lineFeed_not_mem) hdo

theorem lineFeed_not_mem_whenHeader {condition : Text} (h : IsWord condition) :
    '\n' ∉ whenHeader condition := by
  have hif : '\n' ∉ "if ".toList := by decide
  have hthen : '\n' ∉ " then".toList := by decide
  unfold whenHeader
  exact List.not_mem_append (List.not_mem_append hif (h.not_mem (by decide))) hthen

end Lua

/-! ### Kinds of lines -/

/-- The text is one line of a source and is read as an item. -/
structure IsLine (content : Text) (item : Item) : Prop where
  oneLine : '\n' ∉ content
  noReturn : content.getLast? ≠ some '\r'
  reads : ∀ template number last,
    Item.ofLine .standard template ⟨number, content, true, last⟩ = .ok item

theorem Text.cut?_blank_append {blanks t : Text} (hblanks : ∀ c ∈ blanks, isBlank c = true)
    (h : cut? Delimiters.standard.left t = none) :
    cut? Delimiters.standard.left (blanks ++ t) = none := by
  have hleft : StartsInk Delimiters.standard.left := by decide
  induction blanks with
  | nil => exact h
  | cons c cs ih =>
    have hafter := hleft.after?_eq_none Delimiters.standard.left_ne
      (hblanks c (List.mem_cons_self ..)) (cs ++ t)
    rw [List.cons_append, cut?_cons_of_none _ _ hafter,
      ih fun d hd => hblanks d (List.mem_cons_of_mem _ hd)]
    rfl

theorem isLine_text (indent : Indent) (content : PlainText) :
    IsLine (indent.text ++ content.text)
      (.output indent.text [printLiteral (indent.text ++ content.text) true]) := by
  have hcut : Text.cut? Delimiters.standard.left (indent.text ++ content.text) = none :=
    Text.cut?_blank_append indent.blank content.noLeft
  have hstart : (indent.text ++ content.text).trimStart = content.text :=
    Text.trimStart_append indent.blank content.startsInk
  have hblank : (indent.text ++ content.text).isBlankLine = false := by
    rw [Text.isBlankLine_eq_false_iff, hstart]
    exact content.ne_nil
  refine ⟨List.not_mem_append indent.oneLine content.oneLine, ?_, fun template number last => ?_⟩
  · obtain ⟨c, hc⟩ :=
      Option.ne_none_iff_exists'.1 (mt List.getLast?_eq_none_iff.1 content.ne_nil)
    have hreturn := content.noReturn
    rw [List.getLast?_append, hc]
    rwa [hc] at hreturn
  · rw [Item.ofLine, Form.ofLine_literal hblank hcut,
      Text.indentation_append indent.blank content.startsInk]
    rfl

theorem getLast?_ne_return {t : Text} (h : t.EndsInk) : t.getLast? ≠ some '\r' :=
  fun hlast => Bool.false_ne_true ((h _ hlast).symm.trans rfl)

theorem isLine_code (indent : Indent) {code : Text} (hne : code ≠ []) (hstart : code.StartsInk)
    (hend : code.EndsInk) (hline : '\n' ∉ code) (hlast : code.getLast? ≠ some '>')
    (hplain : CodeLine.ofCode? code = some (.plain code)) :
    IsLine (codeLine indent code) (.code indent.text code (.plain code)) := by
  have hblank : ∀ c ∈ [' '], isBlank c = true := List.all_eq_true.1 rfl
  have hink : Text.EndsInk (' ' :: code) := hend.append hne [' ']
  have htrim : Text.trim ([' '] ++ (code ++ [])) = code :=
    Text.trim_append hblank hstart hend nofun
  rw [List.append_nil] at htrim
  have hright : Text.before? Delimiters.standard.right (Text.trimEnd (' ' :: code)) = none := by
    rw [Text.trimEnd_of_endsInk hink]
    refine Text.before?_of_getLast?_ne Delimiters.standard.right_ne ?_
    rwa [List.getLast?_cons_of_ne_nil hne]
  have hescape : Text.after? Delimiters.standard.escape (' ' :: code) = none := rfl
  have hform := Form.ofLine_code indent.blank (by decide) hescape hright
  rw [show Text.trim (' ' :: code) = code from htrim] at hform
  refine ⟨List.not_mem_append indent.oneLine (List.not_mem_append (by decide) hline), ?_,
    fun template number last => ?_⟩
  · exact getLast?_ne_return ((hend.append hne _).append (List.append_ne_nil_of_right_ne_nil _ hne) _)
  · rw [Item.ofLine, show codeLine indent code =
      indent.text ++ (Delimiters.standard.left ++ ' ' :: code) from rfl, hform]
    simp only [Item.ofForm, hplain]

theorem isLine_placeholder (indent : Indent) {name : Text} (hname : IsWord name) :
    IsLine (placeholderLine indent name) (.output indent.text [printExpr name false]) := by
  have hblank : ∀ c ∈ [' '], isBlank c = true := List.all_eq_true.1 rfl
  have htrim : Text.trim ([' '] ++ (name ++ [' '])) = name :=
    Text.trim_append hblank hname.startsInk hname.endsInk hblank
  have hink : Text.EndsInk (' ' :: (name ++ " %>")) :=
    Text.EndsInk.append (by decide) (by decide) (' ' :: name)
  have hright : Text.before? Delimiters.standard.right (Text.trimEnd (' ' :: (name ++ " %>"))) =
      some ([' '] ++ (name ++ [' '])) := by
    rw [Text.trimEnd_of_endsInk hink, Text.before?_eq_some_iff, List.append_assoc,
      List.append_assoc]
    rfl
  have hone : Text.contains name Delimiters.standard.right = false := by
    have hpercent : '%' ∈ Delimiters.standard.right := by decide
    rw [Text.contains, Text.cut?_eq_none_of_not_mem hpercent (hname.not_mem (by decide))]
    rfl
  have hescape : Text.after? Delimiters.standard.escape (' ' :: (name ++ " %>")) = none := rfl
  have hform := Form.ofLine_placeholder indent.blank (by decide) hescape hright
    (by rw [htrim]; exact hname.ne_nil) (by rw [htrim]; exact hone)
  rw [htrim] at hform
  have hline : '\n' ∉ "<% " ++ (name ++ " %>") :=
    List.not_mem_append (by decide) (List.not_mem_append (hname.not_mem (by decide)) (by decide))
  refine ⟨List.not_mem_append indent.oneLine hline, ?_, fun template number last => ?_⟩
  · exact getLast?_ne_return ((hink.append (List.cons_ne_nil _ _) ['<', '%']).append
      (List.cons_ne_nil _ _) indent.text)
  · rw [Item.ofLine, show placeholderLine indent name =
      indent.text ++ (Delimiters.standard.left ++ ' ' :: (name ++ " %>")) from rfl, hform]
    rfl

theorem isLine_countHeader (indent : Indent) {name : Text} (hname : IsWord name)
    (start limit : Literal) : IsLine (codeLine indent (countHeader name start limit))
      (.code indent.text (countHeader name start limit) (.plain (countHeader name start limit))) := by
  have hend : Text.EndsInk (countHeader name start limit) :=
    Text.EndsInk.append (by decide) (by decide) _
  have hlast : (countHeader name start limit).getLast? = some 'o' := by
    unfold countHeader
    rw [List.getLast?_append]
    rfl
  refine isLine_code indent (List.append_ne_nil_of_right_ne_nil _ (by decide)) ?_ hend
    (lineFeed_not_mem_countHeader hname start limit) (by rw [hlast]; decide) rfl
  rintro c ⟨⟩
  rfl

theorem isLine_whenHeader (indent : Indent) {condition : Text} (h : IsWord condition) :
    IsLine (codeLine indent (whenHeader condition))
      (.code indent.text (whenHeader condition) (.plain (whenHeader condition))) := by
  have hend : Text.EndsInk (whenHeader condition) :=
    Text.EndsInk.append (by decide) (by decide) _
  have hlast : (whenHeader condition).getLast? = some 'n' := by
    unfold whenHeader
    rw [List.getLast?_append]
    rfl
  refine isLine_code indent (List.append_ne_nil_of_right_ne_nil _ (by decide)) ?_ hend
    (lineFeed_not_mem_whenHeader h) (by rw [hlast]; decide) rfl
  rintro c ⟨⟩
  rfl

theorem isLine_else (indent : Indent) :
    IsLine (codeLine indent "else") (.code indent.text "else" (.plain "else")) :=
  isLine_code indent (by decide) (by decide) (by decide) (by decide) (by decide) rfl

/-! ### Lines of a source -/

theorem IsLine.oneLine_of_mem {contents : List Text} {items : List Item}
    (h : List.Forall₂ IsLine contents items) : ∀ content ∈ contents, '\n' ∉ content := by
  induction h with
  | nil => exact nofun
  | cons hline _ ih =>
    intro content hcontent
    rcases List.mem_cons.1 hcontent with rfl | hcontent
    · exact hline.oneLine
    · exact ih content hcontent

/-- Lines that are read one by one are the lines of their source. -/
theorem IsLine.ofLine_source {contents : List Text} {items : List Item}
    (h : List.Forall₂ IsLine contents items) (template : Text) :
    List.Forall₂ (fun line item => Item.ofLine .standard template line = .ok item)
      (Line.ofSource (contents.map (· ++ ['\n'])).flatten) items := by
  unfold Line.ofSource
  rw [Text.rawLines_flatten (oneLine_of_mem h)]
  dsimp only
  generalize (contents.map fun content => (content, true)).length = count
  generalize 0 = index
  induction h generalizing index with
  | nil => exact .nil
  | @cons content item contents items hline _ ih =>
    refine .cons ?_ (ih (index + 1))
    show Item.ofLine .standard template ⟨index + 1, Text.dropReturn content, true, _⟩ = _
    rw [Text.dropReturn_of_ne hline.noReturn]
    exact hline.reads template _ _

namespace Outline

variable {conditions : List Text}

/-- The items of the template. -/
def items : Outline → List Item
  | done => []
  | text indent content rest =>
    .output indent.text [printLiteral (indent.text ++ content.text) true] :: rest.items
  | placeholder indent name rest => .output indent.text [printExpr name false] :: rest.items
  | loop indent name start limit body rest =>
    .code indent.text (countHeader name start limit) (.plain (countHeader name start limit)) ::
      (body.items ++ rest.items)
  | when indent condition body rest =>
    .code indent.text (whenHeader condition) (.plain (whenHeader condition)) ::
      (body.items ++ rest.items)
  | choose indent condition body elseIndent otherwise rest =>
    .code indent.text (whenHeader condition) (.plain (whenHeader condition)) ::
      (body.items ++ .code elseIndent.text "else" (.plain "else") ::
        (otherwise.items ++ rest.items))

theorem forall₂_items (o : Outline)
    (hconditions : ∀ name ∈ conditions, isVariableName name = true) :
    ∀ {counters : List Text}, (∀ name ∈ counters, isVariableName name = true) →
      o.program.Closed conditions counters → List.Forall₂ IsLine o.lines o.items := by
  have hword : ∀ {name}, isVariableName name = true → IsWord name :=
    fun h => (isWord_of_isVariableName h).1
  induction o with
  | done => exact fun _ _ => .nil
  | text indent content rest ih =>
    exact fun hcounters hclosed => .cons (isLine_text indent content) (ih hcounters hclosed)
  | placeholder indent name rest ih =>
    rintro counters hcounters ⟨hname, hclosed⟩
    exact .cons (isLine_placeholder indent (hword (hcounters name hname)))
      (ih hcounters hclosed)
  | loop indent name start limit body rest ihBody ihRest =>
    rintro counters hcounters ⟨⟨hname, _⟩, hbody, hrest⟩
    refine .cons (isLine_countHeader indent (hword hname) start limit) ?_
    refine List.rel_append (ihBody (fun other hother => ?_) hbody) (ihRest hcounters hrest)
    rcases List.mem_cons.1 hother with rfl | hother
    · exact hname
    · exact hcounters other hother
  | when indent condition body rest ihBody ihRest =>
    rintro counters hcounters ⟨hcondition, hbody, hrest⟩
    refine .cons (isLine_whenHeader indent (hword (hconditions condition hcondition))) ?_
    exact List.rel_append (ihBody hcounters hbody) (ihRest hcounters hrest)
  | choose indent condition body elseIndent otherwise rest ihBody ihOtherwise ihRest =>
    rintro counters hcounters ⟨hcondition, hbody, hotherwise, hrest⟩
    refine .cons (isLine_whenHeader indent (hword (hconditions condition hcondition))) ?_
    refine List.rel_append (ihBody hcounters hbody) (.cons (isLine_else elseIndent) ?_)
    exact List.rel_append (ihOtherwise hcounters hotherwise) (ihRest hcounters hrest)

end Outline
end Stencil
