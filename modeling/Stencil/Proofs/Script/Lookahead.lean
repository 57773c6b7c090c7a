import Stencil.Proofs.Line.Source
import Stencil.Proofs.Script.Directive
import Stencil.Proofs.Script.Items
import Stencil.Proofs.Text.Words

/-! The assignment that a source starts with.

The directive is looked for in the source before there are lines: behind lines of spaces and tabs,
and a margin of them, a left delimiter and an assignment to the indent unit (`digits?_eq_some_iff`).
The blanks around the parts of the assignment may be line ends. Where none of them is, the
assignment stands on one line of the template (`OnLine`), and it is found whenever it does; where
one is, an assignment is found that is on no line (`AcrossLines`). -/
namespace Stencil

/-! ### Digits -/

theorem isDecimalDigit_of_isBlank {c : Char} (h : isBlank c = true) : isDecimalDigit c = false := by
  have hcodes : ∀ n ∈ Text.blankCodes, isDecimalDigit (Char.ofNat n) = false := by decide +kernel
  rw [← Char.ofNat_toNat c]
  exact hcodes _ (Text.mem_blankCodes h)

theorem isBlank_of_isDecimalDigit {c : Char} (h : isDecimalDigit c = true) : isBlank c = false := by
  rw [← Bool.not_eq_true]
  exact fun hblank => Bool.false_ne_true ((isDecimalDigit_of_isBlank hblank).symm.trans h)

namespace Directive

/-- The digits write a width. -/
def IsUnit (digits : Text) : Prop :=
  digits.all isAsciiDigit = true ∧ minIndentUnit ≤ Text.digitsValue digits ∧
    Text.digitsValue digits ≤ maxIndentUnit

instance (digits : Text) : Decidable (IsUnit digits) := inferInstanceAs (Decidable (_ ∧ _ ∧ _))

variable {d : Delimiters} {source digits gaps t : Text}

theorem unit?_of_isUnit (h : digits? d source = some digits) (hunit : IsUnit digits) :
    unit? d source = .ok (some (Text.digitsValue digits)) := by
  obtain ⟨hascii, hmin, hmax⟩ := hunit
  have hword : Text.digitsValue digits ≤ maxNumber := Nat.le_trans hmax (by decide)
  rw [unit?, h]
  simp [hascii, hword, checkIndentUnit, hmin, hmax]

theorem unit?_of_not_isUnit (h : digits? d source = some digits) (hunit : ¬ IsUnit digits) :
    ∃ shown, unit? d source = .error (.indentUnit shown) := by
  rw [unit?, h]
  dsimp only
  split
  · next hnumber =>
    rw [Bool.and_eq_true, decide_eq_true_eq] at hnumber
    rw [checkIndentUnit, if_neg fun hrange => hunit ⟨hnumber.1, hrange⟩]
    exact ⟨_, rfl⟩
  · exact ⟨_, rfl⟩

theorem unit?_eq_ok_none_iff : unit? d source = .ok none ↔ digits? d source = none := by
  constructor
  · intro h
    cases hdigits : digits? d source with
    | none => rfl
    | some digits =>
      by_cases hunit : IsUnit digits
      · cases h.symm.trans (unit?_of_isUnit hdigits hunit)
      · obtain ⟨shown, hshown⟩ := unit?_of_not_isUnit hdigits hunit
        cases h.symm.trans hshown
  · intro h
    rw [unit?, h]

/-! ### Assignments -/

/-- The text begins with a left delimiter and the assignment of a number, and the digits are all
that stand there. The gaps are the blanks before the name, before the sign and before the number. -/
structure IsAssignment (d : Delimiters) (gaps digits t : Text) : Prop where
  split : ∃ first second third rest, gaps = first ++ (second ++ third) ∧
    t = d.left ++ (first ++ ("__indent__".toList ++ (second ++ ("=".toList ++
      (third ++ (digits ++ rest)))))) ∧
    ∀ c ∈ rest.head?, isDecimalDigit c = false
  gaps : ∀ c ∈ gaps, isBlank c = true
  digits_ne : digits ≠ []
  digits : ∀ c ∈ digits, isDecimalDigit c = true

theorem startsInk_digits (hdigits : ∀ c ∈ digits, isDecimalDigit c = true) (hne : digits ≠ [])
    (rest : Text) : Text.StartsInk (digits ++ rest) :=
  Text.StartsInk.append
    (fun c hc => isBlank_of_isDecimalDigit (hdigits c (List.mem_of_mem_head? hc))) hne rest

theorem startsInk_name (rest : Text) : Text.StartsInk ("__indent__".toList ++ rest) :=
  Text.StartsInk.append (by decide) (by decide) rest

theorem startsInk_sign (rest : Text) : Text.StartsInk ("=".toList ++ rest) :=
  Text.StartsInk.append (by decide) (by decide) rest

theorem digitsHere?_eq_some_iff :
    digitsHere? d t = some digits ↔ ∃ gaps, IsAssignment d gaps digits t := by
  constructor
  · intro h
    unfold digitsHere? at h
    obtain ⟨code, hcode, h⟩ := Option.bind_eq_some_iff.1 h
    obtain ⟨value, hvalue, h⟩ := Option.bind_eq_some_iff.1 h
    obtain ⟨number, hnumber, h⟩ := Option.bind_eq_some_iff.1 h
    dsimp only at h
    split at h
    · cases h
    · next hne =>
      cases h
      rw [Text.after?_eq_some_iff] at hcode hvalue hnumber
      refine ⟨code.indentation ++ (value.indentation ++ number.indentation),
        ⟨_, _, _, number.trimStart.dropWhile isDecimalDigit, rfl, ?_, ?_⟩, ?_, hne, ?_⟩
      · rw [List.takeWhile_append_dropWhile, Text.indentation_append_trimStart, ← hnumber,
          Text.indentation_append_trimStart, ← hvalue, Text.indentation_append_trimStart, hcode]
      · intro c hc
        have hnot := List.head?_dropWhile_not isDecimalDigit number.trimStart
        rw [hc] at hnot
        simpa using hnot
      · simp only [List.forall_mem_append]
        exact ⟨fun c hc => Text.isBlank_of_mem_indentation hc,
          fun c hc => Text.isBlank_of_mem_indentation hc,
          fun c hc => Text.isBlank_of_mem_indentation hc⟩
      · exact List.all_eq_true.1 List.all_takeWhile
  · rintro ⟨gaps, ⟨first, second, third, rest, rfl, rfl, hrest⟩, hgaps, hne, hdigits⟩
    simp only [List.forall_mem_append] at hgaps
    obtain ⟨hfirst, hsecond, hthird⟩ := hgaps
    unfold digitsHere?
    simp only [Text.after?_append, Option.bind_eq_bind, Option.bind_some]
    rw [Text.trimStart_append hfirst (startsInk_name _), Text.after?_append, Option.bind_some,
      Text.trimStart_append hsecond (startsInk_sign _), Text.after?_append, Option.bind_some,
      Text.trimStart_append hthird (startsInk_digits hdigits hne rest),
      (Text.span_of_all hdigits hrest).1, if_neg hne]

/-- An assignment that begins a text is one only. -/
theorem IsAssignment.unique {gaps' digits' : Text} (h : IsAssignment d gaps digits t)
    (h' : IsAssignment d gaps' digits' t) : gaps = gaps' := by
  obtain ⟨first, second, third, rest, rfl, rfl, _⟩ := h.split
  obtain ⟨first', second', third', rest', rfl, heq, _⟩ := h'.split
  have hgaps := h.gaps
  have hgaps' := h'.gaps
  simp only [List.forall_mem_append] at hgaps hgaps'
  obtain ⟨rfl, hname⟩ := Text.indent_append_inj hgaps.1 hgaps'.1 (startsInk_name _)
    (startsInk_name _) (List.append_cancel_left heq)
  obtain ⟨rfl, hsign⟩ := Text.indent_append_inj hgaps.2.1 hgaps'.2.1 (startsInk_sign _)
    (startsInk_sign _) (List.append_cancel_left hname)
  obtain ⟨rfl, _⟩ := Text.indent_append_inj hgaps.2.2 hgaps'.2.2
    (startsInk_digits h.digits h.digits_ne _) (startsInk_digits h'.digits h'.digits_ne _)
    (List.append_cancel_left hsign)
  rfl

/-- What follows the digits may be anything that does not add to them. -/
theorem IsAssignment.append (h : IsAssignment d gaps digits t) {more : Text}
    (hmore : ∀ c ∈ more.head?, isDecimalDigit c = false) :
    IsAssignment d gaps digits (t ++ more) := by
  obtain ⟨first, second, third, rest, hgaps, rfl, hrest⟩ := h.split
  refine ⟨⟨first, second, third, rest ++ more, hgaps, by simp, fun c hc => ?_⟩, h.gaps, h.digits_ne,
    h.digits⟩
  cases rest with
  | nil => exact hmore c hc
  | cons x xs => exact hrest c hc

/-! ### In front of an assignment -/

/-- Spaces and tabs. -/
def IsMargin (t : Text) : Prop := ∀ c ∈ t, c = ' ' ∨ c = '\t'

/-- Lines of spaces and tabs, and a margin of them. -/
inductive IsLead : Text → Prop
  | nil : IsLead []
  | cons {c : Char} {t : Text} (hc : c = ' ' ∨ c = '\t' ∨ c = '\n') (ht : IsLead t) : IsLead (c :: t)
  | lineEnd {t : Text} (ht : IsLead t) : IsLead ('\r' :: '\n' :: t)

theorem isBlank_of_skipped {c : Char} (hc : c = ' ' ∨ c = '\t' ∨ c = '\n') : isBlank c = true := by
  rcases hc with rfl | rfl | rfl
  all_goals decide

theorem IsLead.isBlank {lead : Text} (h : IsLead lead) : ∀ c ∈ lead, isBlank c = true := by
  induction h with
  | nil => exact nofun
  | cons hc _ ih => exact List.forall_mem_cons.2 ⟨isBlank_of_skipped hc, ih⟩
  | lineEnd _ ih => exact List.forall_mem_cons.2 ⟨by decide, List.forall_mem_cons.2 ⟨by decide, ih⟩⟩

theorem IsLead.margin_append {margin lead : Text} (hmargin : IsMargin margin) (h : IsLead lead) :
    IsLead (margin ++ lead) := by
  induction margin with
  | nil => exact h
  | cons c cs ih =>
    obtain ⟨hc, hcs⟩ := List.forall_mem_cons.1 hmargin
    exact .cons (hc.imp_right .inl) (ih hcs)

/-- A line of spaces and tabs, with a line end of either kind. -/
theorem IsLead.line_append {t lead : Text} (ht : IsMargin t.dropReturn) (h : IsLead lead) :
    IsLead (t ++ '\n' :: lead) := by
  rw [← t.dropReturn_append_lastReturn, List.append_assoc]
  refine .margin_append ht ?_
  unfold Text.lastReturn
  split
  · exact .lineEnd h
  · exact .cons (.inr (.inr rfl)) h

theorem digits?_eq_some_iff (hleft : d.left.StartsInk) :
    digits? d source = some digits ↔
      ∃ lead gaps body, source = lead ++ body ∧ IsLead lead ∧ IsAssignment d gaps digits body := by
  constructor
  · intro h
    fun_induction digits? d source with
    | case1 source found hfound =>
      cases h
      obtain ⟨gaps, hgaps⟩ := digitsHere?_eq_some_iff.1 hfound
      exact ⟨[], gaps, source, rfl, .nil, hgaps⟩
    | case2 rest _ ih =>
      obtain ⟨lead, gaps, body, rfl, hlead, hbody⟩ := ih h
      exact ⟨_, gaps, body, rfl, .lineEnd hlead, hbody⟩
    | case3 c rest _ hc _ ih =>
      obtain ⟨lead, gaps, body, rfl, hlead, hbody⟩ := ih h
      exact ⟨_, gaps, body, rfl, .cons hc hlead, hbody⟩
    | case4 => cases h
    | case5 => cases h
  · rintro ⟨lead, gaps, body, rfl, hlead, hbody⟩
    have hhere : ∀ c t, isBlank c = true → digitsHere? d (c :: t) = none := fun c t hc =>
      digitsHere?_of_after? (hleft.after?_eq_none d.left_ne hc t)
    induction hlead with
    | nil =>
      rw [List.nil_append, digits?.eq_def, digitsHere?_eq_some_iff.2 ⟨gaps, hbody⟩]
    | @cons c t hc _ ih =>
      have hreturn : c ≠ '\r' := by
        rintro rfl
        revert hc
        decide
      rw [List.cons_append, digits?_cons hreturn, hhere c _ (isBlank_of_skipped hc), Option.none_or,
        if_pos hc]
      exact ih
    | @lineEnd t _ ih =>
      rw [List.cons_append, List.cons_append, digits?.eq_def, hhere _ _ (by decide)]
      exact ih

/-! ### Lines -/

/-- The content of a line that asks for a width with these digits. -/
def Asks (d : Delimiters) (digits content : Text) : Prop :=
  ∃ margin gaps body, content = margin ++ body ∧ IsMargin margin ∧ IsAssignment d gaps digits body

/-- A line of the source asks for a width, and there is nothing but margins on the lines before. -/
def OnLine (d : Delimiters) (source digits : Text) : Prop :=
  ∃ before content after, Line.contents source = before ++ content :: after ∧
    (∀ b ∈ before, IsMargin b) ∧ Asks d digits content

/-- The source asks for a width behind lines of margins, with a line end inside the assignment. -/
def AcrossLines (d : Delimiters) (source digits : Text) : Prop :=
  ∃ lead gaps body, source = lead ++ body ∧ IsLead lead ∧ IsAssignment d gaps digits body ∧
    '\n' ∈ gaps

theorem OnLine.cons {c : Char} (hc : c = ' ' ∨ c = '\t') {source : Text}
    (h : OnLine d source digits) : OnLine d (c :: source) digits := by
  have hfeed : c ≠ '\n' := by rcases hc with rfl | rfl <;> decide
  have hreturn : c ≠ '\r' := by rcases hc with rfl | rfl <;> decide
  obtain ⟨before, content, after, hcontents, hbefore, hcontent⟩ := h
  cases before with
  | nil =>
    obtain ⟨margin, gaps, body, rfl, hmargin, hbody⟩ := hcontent
    exact ⟨[], _, after, Line.contents_cons hfeed hreturn hcontents, nofun, c :: margin, gaps, body,
      rfl, List.forall_mem_cons.2 ⟨hc, hmargin⟩, hbody⟩
  | cons first rest =>
    obtain ⟨hfirst, hrest⟩ := List.forall_mem_cons.1 hbefore
    exact ⟨(c :: first) :: rest, content, after, Line.contents_cons hfeed hreturn hcontents,
      List.forall_mem_cons.2 ⟨List.forall_mem_cons.2 ⟨hc, hfirst⟩, hrest⟩, hcontent⟩

theorem OnLine.lineEnd (lineEnd : Text) (hlineEnd : '\n' ∉ lineEnd)
    (hdrop : lineEnd.dropReturn = []) (h : OnLine d source digits) : OnLine d (lineEnd ++ '\n' :: source) digits := by
  obtain ⟨before, content, after, hcontents, hbefore, hcontent⟩ := h
  refine ⟨[] :: before, content, after, ?_, List.forall_mem_cons.2 ⟨nofun, hbefore⟩, hcontent⟩
  rw [Line.contents_append hlineEnd, hdrop, hcontents, List.cons_append]

/-- An assignment without a line end in it is on the first line of what it begins. -/
theorem OnLine.of_isAssignment (h : IsAssignment d gaps digits t) (hgaps : '\n' ∉ gaps) :
    OnLine d t digits := by
  obtain ⟨first, second, third, rest, rfl, rfl, hrest⟩ := h.split
  simp only [List.mem_append, not_or] at hgaps
  have hfeed : ∀ c ∈ digits, c ≠ '\n' ∧ c ≠ '\r' := by
    intro c hc
    have hdigit := h.digits c hc
    constructor
    · rintro rfl
      exact absurd hdigit (by decide)
    · rintro rfl
      exact absurd hdigit (by decide)
  let start : Text := d.left ++ (first ++ ("__indent__".toList ++ (second ++ ("=".toList ++
    (third ++ digits)))))
  have hstart : '\n' ∉ start := by
    have hname : '\n' ∉ "__indent__".toList := by decide
    have hsign : '\n' ∉ "=".toList := by decide
    simp only [start, List.mem_append, not_or]
    exact ⟨d.one_line.1, hgaps.1, hname, hgaps.2.1, hsign, hgaps.2.2, fun hmem => (hfeed _ hmem).1 rfl⟩
  have hlast : start.getLast? ≠ some '\r' := by
    obtain ⟨c, hc⟩ := Option.ne_none_iff_exists'.1 (mt List.getLast?_eq_none_iff.1 h.digits_ne)
    simp only [start, List.getLast?_append, hc, Option.some_or]
    exact fun heq => (hfeed c (List.mem_of_getLast? hc)).2 (Option.some.inj heq)
  obtain ⟨more, after, hcontents, hmore⟩ := Line.exists_contents_append hstart
    (List.append_ne_nil_of_left_ne_nil d.left_ne _) hlast rest
  refine ⟨[], start ++ more, after, ?_, nofun, [], _, start ++ more, rfl, nofun,
    ⟨first, second, third, more, rfl, by simp [start], ?_⟩, h.gaps, h.digits_ne, h.digits⟩
  · rw [List.nil_append, ← hcontents]
    simp [start]
  · obtain ⟨behind, rfl⟩ := hmore
    intro c hc
    refine hrest c ?_
    rw [List.head?_append, hc]
    rfl

theorem IsAssignment.mem_of_mem_gaps (h : IsAssignment d gaps digits t) {c : Char} (hc : c ∈ gaps) :
    c ∈ t := by
  obtain ⟨first, second, third, rest, rfl, rfl, _⟩ := h.split
  simp only [List.mem_append] at hc ⊢
  rcases hc with hc | hc | hc
  all_goals simp [hc]

/-- What the content of a line asks for, the source asks for, where the line begins. -/
theorem Asks.exists_isAssignment {line : Text} (more : Text) (hline : '\n' ∉ line)
    (h : Asks d digits line.dropReturn) (hmore : ∀ c ∈ more.head?, c = '\n') :
    ∃ lead gaps body, line ++ more = lead ++ body ∧ IsLead lead ∧
      IsAssignment d gaps digits body ∧ '\n' ∉ gaps := by
  obtain ⟨margin, gaps, body, hcontent, hmargin, hbody⟩ := h
  refine ⟨margin, gaps, body ++ (line.lastReturn ++ more), ?_, ?_, hbody.append ?_, fun hmem => ?_⟩
  · rw [← List.append_assoc, ← hcontent, ← List.append_assoc, Text.dropReturn_append_lastReturn]
  · have hlead := IsLead.margin_append hmargin .nil
    rwa [List.append_nil] at hlead
  · intro c hc
    unfold Text.lastReturn at hc
    split at hc
    · cases hc
      decide
    · rw [hmore c hc]
      decide
  · refine hline (Text.mem_of_mem_dropReturn ?_)
    rw [hcontent]
    exact List.mem_append_right _ (hbody.mem_of_mem_gaps hmem)

/-- A source asks on one of its lines exactly if it asks with no line end in the assignment. -/
theorem onLine_iff :
    OnLine d source digits ↔
      ∃ lead gaps body, source = lead ++ body ∧ IsLead lead ∧ IsAssignment d gaps digits body ∧
        '\n' ∉ gaps := by
  constructor
  · rintro ⟨before, content, after, hcontents, hbefore, hcontent⟩
    induction source using Text.induction_lines generalizing before with
    | nil => exact absurd hcontents (by simp [Line.contents, Line.ofSource, Text.rawLines])
    | line t ht hne =>
      rw [Line.contents_line ht hne] at hcontents
      cases before with
      | nil =>
        obtain ⟨rfl, -⟩ := List.cons.inj hcontents
        have hfound := hcontent.exists_isAssignment [] ht (by simp)
        rwa [List.append_nil] at hfound
      | cons first others => exact absurd (List.cons.inj hcontents).2 (by simp)
    | append t rest ht ih =>
      rw [Line.contents_append ht] at hcontents
      cases before with
      | nil =>
        obtain ⟨rfl, -⟩ := List.cons.inj hcontents
        exact hcontent.exists_isAssignment _ ht fun c hc => (Option.some.inj hc).symm
      | cons first others =>
        obtain ⟨rfl, hrest⟩ := List.cons.inj hcontents
        obtain ⟨hfirst, hothers⟩ := List.forall_mem_cons.1 hbefore
        obtain ⟨lead, gaps, body, rfl, hlead, hbody⟩ := ih others hrest hothers
        refine ⟨t ++ '\n' :: lead, gaps, body, ?_, .line_append hfirst hlead, hbody⟩
        rw [List.append_assoc, List.cons_append]
  · rintro ⟨lead, gaps, body, rfl, hlead, hbody, hgaps⟩
    induction hlead with
    | nil => exact .of_isAssignment hbody hgaps
    | cons hc _ ih =>
      rcases hc with hc | hc | rfl
      · exact ih.cons (.inl hc)
      · exact ih.cons (.inr hc)
      · exact OnLine.lineEnd [] List.not_mem_nil rfl ih
    | lineEnd _ ih => exact OnLine.lineEnd ['\r'] (by decide) (by decide) ih

/-- The two ways to ask exclude each other. -/
theorem not_onLine_of_acrossLines (hleft : d.left.StartsInk) {digits' : Text}
    (h : AcrossLines d source digits) : ¬ OnLine d source digits' := by
  obtain ⟨lead, gaps, body, rfl, hlead, hbody, hmem⟩ := h
  rw [onLine_iff]
  rintro ⟨lead', gaps', body', heq, hlead', hbody', hnot⟩
  have hink : ∀ {gaps digits body}, IsAssignment d gaps digits body → body.StartsInk := by
    intro gaps digits body h
    obtain ⟨_, _, _, _, _, rfl, _⟩ := h.split
    exact hleft.append d.left_ne _
  obtain ⟨-, rfl⟩ :=
    Text.indent_append_inj hlead.isBlank hlead'.isBlank (hink hbody) (hink hbody') heq
  exact hnot (hbody.unique hbody' ▸ hmem)

/-- The digits that are found are those of an assignment on a line or of one across lines. -/
theorem exists_digits?_iff (hleft : d.left.StartsInk) :
    digits? d source = some digits ↔ OnLine d source digits ∨ AcrossLines d source digits := by
  rw [digits?_eq_some_iff hleft, onLine_iff]
  constructor
  · rintro ⟨lead, gaps, body, hsource, hlead, hbody⟩
    by_cases hmem : '\n' ∈ gaps
    · exact .inr ⟨lead, gaps, body, hsource, hlead, hbody, hmem⟩
    · exact .inl ⟨lead, gaps, body, hsource, hlead, hbody, hmem⟩
  · rintro (⟨lead, gaps, body, hsource, hlead, hbody, -⟩ | ⟨lead, gaps, body, hsource, hlead, hbody, -⟩)
    · exact ⟨lead, gaps, body, hsource, hlead, hbody⟩
    · exact ⟨lead, gaps, body, hsource, hlead, hbody⟩

end Directive

/-! ### Templates -/

namespace Directive

/-- What a source gets that asks for a width with these digits: the number that they write, or an
error; and in either case the unit of the settings does not matter. -/
structure Obeys (d : Delimiters) (source digits : Text) : Prop where
  unit : IsUnit digits → unit? d source = .ok (some (Text.digitsValue digits)) ∧
    ∀ unit path, Template.compile d unit ⟨source, path⟩ =
      Template.compileAt d (Text.digitsValue digits) ⟨source, path⟩
  error : ¬ IsUnit digits → ∃ shown, unit? d source = .error (.indentUnit shown) ∧
    ∀ unit path, Template.compile d unit ⟨source, path⟩ = .error (.indentUnit shown)

theorem Obeys.of_digits? {d : Delimiters} {source digits : Text} (h : digits? d source = some digits) :
    Obeys d source digits := by
  constructor
  · intro hunit
    have hasked := unit?_of_isUnit h hunit
    exact ⟨hasked, fun unit path => Template.compile_of_unit? (t := ⟨source, path⟩) hasked unit⟩
  · intro hunit
    obtain ⟨shown, hshown⟩ := unit?_of_not_isUnit h hunit
    exact ⟨shown, hshown,
      fun unit path => Template.compile_of_unit?_error (t := ⟨source, path⟩) hshown unit⟩

end Directive

namespace Template

open Directive

/-- **A template is compiled at the unit that one of its lines asks for**, with nothing but margins
on the lines before, or else at the unit of the settings, unless it asks across line ends: then that
is obeyed in the same way, though no line asks. -/
theorem compile_asked (source : Text) :
    (unit? .standard source ≠ .ok none ↔
      ∃ digits, OnLine .standard source digits ∨ AcrossLines .standard source digits) ∧
    (∀ digits, OnLine .standard source digits → Obeys .standard source digits) ∧
    (∀ digits, AcrossLines .standard source digits →
      Obeys .standard source digits ∧ ∀ digits', ¬ OnLine .standard source digits') ∧
    ((∀ digits, ¬ OnLine .standard source digits ∧ ¬ AcrossLines .standard source digits) →
      unit? .standard source = .ok none ∧
        ∀ unit path, compile .standard unit ⟨source, path⟩ =
          compileAt .standard unit ⟨source, path⟩) := by
  have hleft : Delimiters.standard.left.StartsInk := by decide
  have hfound : ∀ {digits}, digits? .standard source = some digits ↔ _ :=
    exists_digits?_iff hleft
  refine ⟨?_, fun digits h => .of_digits? (hfound.2 (.inl h)), fun digits h =>
    ⟨.of_digits? (hfound.2 (.inr h)), fun digits' => not_onLine_of_acrossLines hleft h⟩, fun h => ?_⟩
  · rw [ne_eq, unit?_eq_ok_none_iff, ← ne_eq, Option.ne_none_iff_exists']
    exact exists_congr fun digits => hfound
  · have hasked : unit? .standard source = .ok none := by
      rw [unit?_eq_ok_none_iff, Option.eq_none_iff_forall_ne_some]
      exact fun digits hdigits => (hfound.1 hdigits).elim (h digits).1 (h digits).2
    exact ⟨hasked, fun unit path => compile_of_unit? (t := ⟨source, path⟩) hasked unit⟩

/-- A left delimiter with nothing behind it, and a line of text with an assignment: the line is
printed, and the unit is obeyed. -/
theorem compile_asked_text :
    (∀ digits, ¬ OnLine .standard "<%\n__indent__ = 2\n" digits) ∧
    unit? .standard "<%\n__indent__ = 2\n" = .ok (some 2) ∧
    (inline "<%\n__indent__ = 2\n".toList).compile .standard 4 =
      .ok ⟨2, [⟨0, [], .real⟩, ⟨0, "print('__indent__ = 2')", .real⟩]⟩ := by
  have hacross : AcrossLines .standard "<%\n__indent__ = 2\n" "2" :=
    ⟨[], "\n  ", "<%\n__indent__ = 2\n", rfl, .nil,
      ⟨⟨"\n", " ", " ", "\n", rfl, rfl, fun c hc => Option.some.inj hc ▸ by decide⟩,
        List.all_eq_true.1 rfl, by decide, List.all_eq_true.1 rfl⟩, by decide⟩
  exact ⟨fun digits => not_onLine_of_acrossLines (by decide) hacross, rfl,
    compile_eq_of_toOption (by decide +kernel)⟩

end Template
end Stencil
