import Stencil.Proofs.Line.Grammar
import Stencil.Proofs.Line.Source
import Stencil.Proofs.Script.Lookahead

/-! Where the code of a line stands in a source.

The code of a line stands at one place of the source (`exists_codePlace`). Other code at that place
changes what the one line holds and no other line (`CodePlace.exists_ofSource`), and so one item of
the template (`CodePlace.exists_items`); the line is still one of code, with the other code
(`CodePlace.ofLine_content`). More code behind code that begins no assignment leaves the unit that
the source asks for (`CodePlace.unit?_source_append`). -/
namespace Stencil

/-- The place of the code of a line: the lines before, the margin of the line, the blanks on both
sides of the code, and the source from the end of the line on. -/
structure CodePlace where
  before : Text
  margin : Text
  gap : Text
  behind : Text
  after : Text
  before_ends : before.EndsLines
  margin_blank : ∀ c ∈ margin, isBlank c = true ∧ c ≠ '\n'
  gap_blank : ∀ c ∈ gap, isBlank c = true ∧ c ≠ '\n'
  behind_blank : ∀ c ∈ behind, isBlank c = true ∧ c ≠ '\n'
  after_starts : after.StartsAtLineEnd

namespace CodePlace

variable {code : Text}

/-- What is on the line with some code at the place. -/
def line (p : CodePlace) (code : Text) : Text :=
  p.margin ++ ("<%" ++ (p.gap ++ (code ++ p.behind)))

/-- The source with some code at the place. -/
def source (p : CodePlace) (code : Text) : Text := p.before ++ (p.line code ++ p.after)

/-- The number of the line that the place is on. -/
def number (p : CodePlace) : Nat := p.before.count '\n' + 1

/-- The code can be the code of a line at the place. -/
structure Holds (p : CodePlace) (code : Text) : Prop where
  ne_nil : code ≠ []
  startsInk : code.StartsInk
  endsInk : code.EndsInk
  lineFeed_not_mem : '\n' ∉ code
  not_escape_isPrefix : ¬ "%".toList <+: p.gap ++ code

/-- What the line holds, its terminator left out. -/
def content (p : CodePlace) (code : Text) : Text :=
  p.margin ++ ("<%" ++ (p.gap ++ (code ++ p.behind.dropReturn)))

/-! ### Lines -/

theorem lineFeed_not_mem_line (p : CodePlace) (h : '\n' ∉ code) : '\n' ∉ p.line code := by
  have hmargin : '\n' ∉ p.margin := fun hmem => (p.margin_blank _ hmem).2 rfl
  have hgap : '\n' ∉ p.gap := fun hmem => (p.gap_blank _ hmem).2 rfl
  have hbehind : '\n' ∉ p.behind := fun hmem => (p.behind_blank _ hmem).2 rfl
  have hleft : '\n' ∉ "<%".toList := by decide
  simp only [line, List.mem_append, not_or]
  exact ⟨hmargin, hleft, hgap, h, hbehind⟩

theorem dropReturn_line {p : CodePlace} (hne : code ≠ []) (hend : code.EndsInk) :
    (p.line code).dropReturn = p.content code := by
  have hsplit : ∀ behind : Text, p.margin ++ ("<%".toList ++ (p.gap ++ (code ++ behind))) =
      (p.margin ++ ("<%".toList ++ (p.gap ++ code))) ++ behind := by
    intro behind
    simp only [List.append_assoc]
  have hlast : (p.margin ++ ("<%".toList ++ (p.gap ++ code))).getLast? ≠ some '\r' := by
    intro hreturn
    have hink := ((hend.append hne p.gap).append (List.append_ne_nil_of_right_ne_nil _ hne)
      "<%".toList).append (List.append_ne_nil_of_left_ne_nil (by decide) _) p.margin
    exact absurd (hink _ hreturn) (by decide)
  rw [line, content, hsplit, hsplit, Text.dropReturn_append hlast]

theorem exists_rawLines (p : CodePlace) :
    ∃ terminated rest, ∀ code, '\n' ∉ code →
      (p.source code).rawLines = p.before.rawLines ++ (p.line code, terminated) :: rest := by
  have hne : ∀ code, p.line code ≠ [] := fun code =>
    List.append_ne_nil_of_right_ne_nil _ (List.append_ne_nil_of_left_ne_nil (by decide) _)
  have hstarts := p.after_starts
  cases hafter : p.after with
  | nil =>
    refine ⟨false, [], fun code h => ?_⟩
    rw [source, p.before_ends.rawLines_append, hafter, List.append_nil,
      Text.rawLines_line (p.lineFeed_not_mem_line h) (hne code)]
  | cons c rest =>
    obtain rfl : c = '\n' := hstarts c (by rw [hafter]; rfl)
    refine ⟨true, Text.rawLines rest, fun code h => ?_⟩
    rw [source, p.before_ends.rawLines_append, hafter,
      Text.rawLines_append (p.lineFeed_not_mem_line h)]

/-- **Only one line is told by the code at a place.** -/
theorem exists_ofSource (p : CodePlace) :
    ∃ front terminated last rest, front.length + 1 = p.number ∧
      ∀ code : Text, p.Holds code →
        Line.ofSource (p.source code) =
          front ++ ⟨p.number, p.content code, terminated, last⟩ :: rest := by
  obtain ⟨terminated, rest, hraw⟩ := p.exists_rawLines
  have hlength := p.before_ends.length_rawLines
  let total := p.before.rawLines.length + (rest.length + 1)
  let lineAt := fun (l : (Text × Bool) × Nat) =>
    Line.mk (l.2 + 1) l.1.1.dropReturn l.1.2 (l.2 + 1 == total)
  refine ⟨(p.before.rawLines.zipIdx).map lineAt, terminated, p.before.count '\n' + 1 == total,
    (rest.zipIdx (p.before.count '\n' + 1)).map lineAt, ?_, fun code h => ?_⟩
  · rw [List.length_map, List.length_zipIdx, hlength, number]
  · rw [Line.ofSource, hraw code h.lineFeed_not_mem, List.zipIdx_append, List.zipIdx_cons,
      List.map_append,
      List.map_cons, Nat.zero_add, hlength, List.length_append, List.length_cons,
      ← dropReturn_line h.ne_nil h.endsInk]
    rfl

/-! ### The form of the line -/

/-- A line is one of code whatever the code is that stands at the place, unless the line would end
in a right delimiter, or the code would make the left one literal. -/
theorem ofLine_content {p : CodePlace} (h : p.Holds code)
    (hright : ¬ "%>".toList <:+ p.gap ++ code) :
    Form.ofLine .standard (p.content code) = .ok (.code p.margin code) := by
  have hmargin : ∀ c ∈ p.margin, isBlank c = true := fun c hc => (p.margin_blank c hc).1
  have hgap : ∀ c ∈ p.gap, isBlank c = true := fun c hc => (p.gap_blank c hc).1
  have hbehind : ∀ c ∈ p.behind.dropReturn, isBlank c = true := fun c hc =>
    (p.behind_blank c (Text.mem_of_mem_dropReturn hc)).1
  have hafter : Text.after? Delimiters.standard.escape
      (p.gap ++ (code ++ p.behind.dropReturn)) = none := by
    rw [← Text.not_isPrefix_iff]
    intro hprefix
    apply h.not_escape_isPrefix
    refine List.prefix_of_prefix_length_le hprefix ⟨p.behind.dropReturn, by simp⟩ ?_
    have := List.length_pos_iff.2 h.ne_nil
    rw [List.length_append]
    show 1 ≤ _
    omega
  have hbefore : Text.before? Delimiters.standard.right
      (p.gap ++ (code ++ p.behind.dropReturn)).trimEnd = none := by
    rw [← List.append_assoc, Text.trimEnd_append hbehind (h.endsInk.append h.ne_nil p.gap),
      Option.eq_none_iff_forall_ne_some]
    intro found hfound
    exact hright ⟨found, (Text.before?_eq_some_iff.1 hfound).symm⟩
  have hform := Form.ofLine_code hmargin (by decide) hafter hbefore
  rwa [Text.trim_append hgap h.startsInk h.endsInk hbehind] at hform

/-! ### The place of a line -/

/-- **The code of a line has a place in the source.** -/
theorem exists_codePlace {source margin : Text} {l : Line} (hl : l ∈ Line.ofSource source)
    (hform : Form.ofLine .standard l.content = .ok (.code margin code)) (hne : code ≠ []) :
    ∃ p : CodePlace, p.Holds code ∧ p.source code = source ∧ p.margin = margin ∧
      p.number = l.number ∧ p.content code = l.content := by
  obtain ⟨i, hi, rfl⟩ := Line.exists_getElem_of_mem hl
  obtain ⟨before, after, hsource, hbefore, hcount, hafter⟩ := Text.exists_eq_append_rawLines hi
  have hfeed := Text.lineFeed_not_mem_rawLines source _ (List.getElem_mem hi)
  have hreading := Form.ofLine_eq_ok_iff.1 hform
  dsimp only at hreading
  generalize source.rawLines[i].1 = raw at hsource hfeed hreading ⊢
  generalize hcontent : raw.dropReturn = content at hreading ⊢
  cases hreading with
  | @code indent gap code behind hindent _ hescape _ hgap hstart hend hbehind =>
    have hline :
        raw = margin ++ ("<%".toList ++ (gap ++ (code ++ (behind ++ raw.lastReturn)))) := by
      have hparts := raw.dropReturn_append_lastReturn
      rw [hcontent] at hparts
      refine hparts.symm.trans ?_
      simp only [List.append_assoc]
      rfl
    have hclean : ∀ {part : Text}, (∀ c ∈ part, isBlank c = true) → (∀ c ∈ part, c ∈ raw) →
        ∀ c ∈ part, isBlank c = true ∧ c ≠ '\n' := fun hblank hmem c hc =>
      ⟨hblank c hc, fun heq => hfeed (heq ▸ hmem c hc)⟩
    have hreturn : ∀ c ∈ raw.lastReturn, isBlank c = true := by
      unfold Text.lastReturn
      split
      · exact List.all_eq_true.1 rfl
      · nofun
    let p : CodePlace := {
      before, margin, gap, behind := behind ++ raw.lastReturn, after
      before_ends := hbefore
      margin_blank := hclean hindent fun c hc => by rw [hline]; simp [hc]
      gap_blank := hclean hgap fun c hc => by rw [hline]; simp [hc]
      behind_blank := hclean (List.forall_mem_append.2 ⟨hbehind, hreturn⟩) fun c hc => by
        rw [hline]
        simp only [List.mem_append] at hc ⊢
        simp [hc]
      after_starts := hafter }
    have hraw : p.line code = raw := hline.symm
    refine ⟨p, ⟨hne, hstart, hend, fun hmem => hfeed ?_, fun hprefix => hescape ?_⟩, ?_, rfl, ?_,
      ?_⟩
    · rw [hline]
      simp [hmem]
    · exact hprefix.trans ⟨behind, by simp [p]⟩
    · rw [CodePlace.source, hraw]
      exact hsource.symm
    · show before.count '\n' + 1 = i + 1
      rw [hcount]
    · rw [← dropReturn_line hne hend, hraw, hcontent]

/-! ### Items -/

/-- The items of the other lines do not depend on the code at a place. -/
theorem exists_items {p : CodePlace} {template : Text} {items : List Item}
    (hitems : List.Forall₂ (fun l item => Item.ofLine .standard template l = .ok item)
      (Line.ofSource (p.source code)) items) (hholds : p.Holds code)
    (hform : Form.ofLine .standard (p.content code) = .ok (.code p.margin code)) :
    ∃ front parsed rest, CodeLine.ofCode? code = some parsed ∧
      items = front ++ .code p.margin code parsed :: rest ∧
      front.length + 1 = p.number ∧
      (∀ item ∈ front, ∀ leftover, item.texts leftover ≠ []) ∧
      ∀ code parsed, p.Holds code →
        Form.ofLine .standard (p.content code) = .ok (.code p.margin code) →
        CodeLine.ofCode? code = some parsed →
        List.Forall₂ (fun l item => Item.ofLine .standard template l = .ok item)
          (Line.ofSource (p.source code)) (front ++ .code p.margin code parsed :: rest) := by
  obtain ⟨frontLines, terminated, last, restLines, hnumber, hlines⟩ := p.exists_ofSource
  rw [hlines code hholds] at hitems
  obtain ⟨front, item, rest, rfl, hfront, hitem, hrest⟩ := exists_of_forall₂_append_cons hitems
  rw [Item.ofLine_of_form hform] at hitem
  obtain ⟨parsed, hparsed, rfl⟩ := Item.ofForm_code_eq_ok_iff.1 hitem
  have hown : ∀ item ∈ front, ∀ leftover, item.texts leftover ≠ [] :=
    ((List.forall₂_and_left _ _).1 (hfront.flip.imp fun _ _ hread =>
      ⟨Item.texts_ne_nil hread, hread⟩)).1
  refine ⟨front, parsed, rest, hparsed, rfl, hfront.length_eq ▸ hnumber, hown,
    fun code parsed hholds hform hparsed => ?_⟩
  rw [hlines code hholds]
  refine List.rel_append hfront (.cons ?_ hrest)
  rw [Item.ofLine_of_form hform, Item.ofForm_code_eq_ok_iff]
  exact ⟨parsed, hparsed, rfl⟩

end CodePlace

/-! ### The unit that is asked for -/

namespace Directive

section

variable {front gap code digits more more' : Text}

/-- Of an assignment, the part up to its digits has one `<`, which is in its left delimiter. -/
theorem not_mem_assignment {first second third : Text} (h : ∀ c ∈ first ++ (second ++ third),
    isBlank c = true) (hdigits : ∀ c ∈ digits, isDecimalDigit c = true) :
    '<' ∉ '%' :: (first ++ ("__indent__".toList ++ (second ++ ("=".toList ++
      (third ++ digits))))) := by
  have hblank : ∀ {gap : Text}, (∀ c ∈ gap, isBlank c = true) → '<' ∉ gap := fun hgap hmem =>
    absurd (hgap _ hmem) (by decide)
  have hdigit : '<' ∉ digits := fun hmem => absurd (hdigits _ hmem) (by decide)
  simp only [List.forall_mem_append] at h
  simp only [List.mem_cons, List.mem_append, not_or]
  exact ⟨by decide, hblank h.1, by decide, hblank h.2.1, by decide, hblank h.2.2, hdigit⟩

/-- An assignment does not reach over code that is none. -/
theorem digits?_eq_some_of_code (hgap : ∀ c ∈ gap, isBlank c = true) (hne : code ≠ [])
    (hstart : code.StartsInk) (hname : ¬ "__indent__".toList <+: code) (hmore : more.StartsBlank)
    (hmore' : more'.StartsBlank)
    (h : digits? .standard (front ++ ('<' :: '%' :: (gap ++ code) ++ more)) = some digits) :
    digits? .standard (front ++ ('<' :: '%' :: (gap ++ code) ++ more')) = some digits := by
  have hleft : Delimiters.standard.left.StartsInk := by decide
  rw [digits?_eq_some_iff hleft] at h ⊢
  obtain ⟨lead, gaps, body, hsource, hlead, hbody⟩ := h
  obtain ⟨first, second, third, rest, rfl, rfl, hrest⟩ := hbody.split
  let assignment : Text := lead ++ '<' :: '%' :: (first ++ ("__indent__".toList ++ (second ++
    ("=".toList ++ (third ++ digits)))))
  have hsplit : (front ++ '<' :: '%' :: (gap ++ code)) ++ more = assignment ++ rest := by
    simpa [assignment, Delimiters.standard] using hsource
  rcases List.append_eq_append_iff.1 hsplit.symm with
    ⟨behind, hfront, rfl⟩ | ⟨inside, hfront, hinside⟩
  · -- the assignment is over in front of what is exchanged
    refine ⟨lead, _, _, ?_, hlead, ⟨first, second, third, behind ++ more', rfl, rfl, ?_⟩,
      hbody.gaps, hbody.digits_ne, hbody.digits⟩
    · have hwhole := congrArg (· ++ more') hfront
      simpa [assignment, Delimiters.standard] using hwhole
    · cases behind with
      | nil => exact fun c hc => isDecimalDigit_of_isBlank (hmore' c hc)
      | cons b bs => exact hrest
  · -- it would have the code of the line in it
    have hlast : '<' ∉ lead := fun hmem => absurd (hlead.isBlank _ hmem) (by decide)
    have hfront' : lead ++ '<' :: '%' :: (first ++ ("__indent__".toList ++ (second ++
        ("=".toList ++ (third ++ digits))))) =
          front ++ '<' :: '%' :: (gap ++ (code ++ inside)) := by
      simpa [assignment] using hfront
    rw [List.append_cons_inj_of_notMem hlast
      (not_mem_assignment hbody.gaps hbody.digits)] at hfront'
    obtain ⟨-, -, hparts⟩ := hfront'
    have hgaps := hbody.gaps
    simp only [List.forall_mem_append] at hgaps
    obtain ⟨-, hcode⟩ := Text.indent_append_inj hgaps.1 hgap (startsInk_name _)
      (hstart.append hne inside) (List.cons.inj hparts).2
    -- the name of it would reach into the blank behind the code
    obtain ⟨c, hc, hmem⟩ := (Text.isPrefix_or_reaches ⟨_, hcode⟩).resolve_left hname
    have hblank : isBlank c = true := by
      apply hmore
      rw [hinside, List.head?_append, hc]
      rfl
    have hink : ∀ c ∈ "__indent__".toList, isBlank c = false :=
      Text.any_isBlank_eq_false_iff.1 rfl
    exact absurd hblank (by rw [hink c (List.mem_of_mem_drop hmem)]; decide)

/-- What stands behind code that is no assignment does not change what is asked for. -/
theorem digits?_of_code (front : Text) (hgap : ∀ c ∈ gap, isBlank c = true) (hne : code ≠ [])
    (hstart : code.StartsInk) (hname : ¬ "__indent__".toList <+: code) (hmore : more.StartsBlank)
    (hmore' : more'.StartsBlank) :
    digits? .standard (front ++ ('<' :: '%' :: (gap ++ code) ++ more)) =
      digits? .standard (front ++ ('<' :: '%' :: (gap ++ code) ++ more')) :=
  Option.ext fun _ => ⟨digits?_eq_some_of_code hgap hne hstart hname hmore hmore',
    digits?_eq_some_of_code hgap hne hstart hname hmore' hmore⟩

end
end Directive

/-- Whatever is put behind the code of a line, with a blank in between, the source asks for the same
unit. -/
theorem CodePlace.unit?_source_append {p : CodePlace} {code more : Text} (h : p.Holds code)
    (hname : ¬ "__indent__".toList <+: code) (hmore : more.StartsBlank) :
    Directive.unit? .standard (p.source (code ++ more)) =
      Directive.unit? .standard (p.source code) := by
  have hgap : ∀ c ∈ p.gap, isBlank c = true := fun c hc => (p.gap_blank c hc).1
  have hbehind : p.behind.StartsBlank := fun c hc =>
    (p.behind_blank c (List.mem_of_mem_head? hc)).1
  have hafter : p.after.StartsBlank := by
    intro c hc
    rw [p.after_starts c hc]
    decide
  have hrest := hbehind.append hafter
  have hdigits := Directive.digits?_of_code (p.before ++ p.margin) hgap h.ne_nil h.startsInk
    hname (hmore.append hrest) hrest
  have hsource : ∀ more : Text, p.source (code ++ more) = (p.before ++ p.margin) ++
      ('<' :: '%' :: (p.gap ++ code) ++ (more ++ (p.behind ++ p.after))) := by
    intro more
    simp [source, line]
  have hcode := hsource []
  rw [List.append_nil, List.nil_append] at hcode
  rw [Directive.unit?, Directive.unit?, hsource, hdigits, ← hcode]

end Stencil
