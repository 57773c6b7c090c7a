import Stencil.Proofs.Lua.Parens
import Stencil.Proofs.Script.Accounting

/-! Templates that do not compile.

What is wrong with a line is said of its content alone (`Fault`): no rule covers it, or it is code
that begins with a call of a writer and does not close it. A fault becomes an error by the name of
the template and the number of the line. The lines are read one after the other before anything is
laid out, so what is told is the fault of the first line that has one (`compile_eq_error_iff`), and
the unit that a template asks for comes before all lines. -/
namespace Stencil

/-! ### Calls that are not closed -/

namespace CodeLine

/-- The code begins with a call of `print` or `include` whose parenthesis is never closed outside
strings and comments. -/
def IsOpenCall (code : Text) : Prop :=
  ∃ name ∈ ["print".toList, "include".toList], name ++ ['('] <+: code ∧
    ∀ closing, ¬ Lua.Closes code name.length closing

section

variable {name counterpart code : Text}

/-- The parenthesis of the call stands outside strings and comments. -/
theorem marked_callee (hname : ∀ c ∈ name, Lua.isPlain c = true) (hcode : name ++ ['('] <+: code) :
    (Lua.marked code)[name.length]? = some ('(', true) := by
  obtain ⟨rest, rfl⟩ := hcode
  have hplain : ∀ c ∈ name ++ ['('], Lua.isPlain c = true := by
    intro c hc
    rcases List.mem_append.1 hc with hc | hc
    · exact hname c hc
    · rw [List.mem_singleton.1 hc]
      decide
  rw [(Lua.Outside.of_isPlain hplain).marked_append, List.map_append, List.append_assoc,
    List.getElem?_append_right (by simp)]
  simp

theorem asCall?_of_isPrefix (counterpart : Text) (hcode : name ++ ['('] <+: code) :
    ∃ line : Nat → CodeLine,
      asCall? code name counterpart = some ((Lua.closingParen? code name.length).map line) := by
  obtain ⟨rest, rfl⟩ := hcode
  rw [asCall?, List.append_assoc, Text.after?_append]
  exact ⟨_, rfl⟩

theorem isPrefix_of_asCall? {found : Option CodeLine}
    (h : asCall? code name counterpart = some found) : name ++ ['('] <+: code := by
  unfold asCall? at h
  split at h
  · next behind hafter =>
    rw [Text.after?_eq_some_iff.1 hafter]
    exact ⟨behind, by simp⟩
  · cases h

/-- A call that is there is refused if and only if its parenthesis is never closed. -/
theorem asCall?_eq_some_none_iff (hname : ∀ c ∈ name, Lua.isPlain c = true) :
    asCall? code name counterpart = some none ↔
      name ++ ['('] <+: code ∧ ∀ closing, ¬ Lua.Closes code name.length closing := by
  constructor
  · intro h
    have hcode := isPrefix_of_asCall? h
    obtain ⟨line, hline⟩ := asCall?_of_isPrefix counterpart hcode
    have hnone : Lua.closingParen? code name.length = none :=
      Option.map_eq_none_iff.1 (Option.some.inj (hline.symm.trans h))
    refine ⟨hcode, fun closing hcloses => ?_⟩
    rw [← Lua.closingParen?_eq_some_iff (marked_callee hname hcode), hnone] at hcloses
    cases hcloses
  · rintro ⟨hcode, hopen⟩
    obtain ⟨line, hline⟩ := asCall?_of_isPrefix counterpart hcode
    have hnone : Lua.closingParen? code name.length = none :=
      Option.eq_none_iff_forall_ne_some.2 fun closing hclosing =>
        hopen closing ((Lua.closingParen?_eq_some_iff (marked_callee hname hcode)).1 hclosing)
    rw [hline, hnone, Option.map_none]

end

/-- Code cannot begin with calls of both writers. -/
theorem asCall?_print_or_include (code : Text) :
    asCall? code "print" "__print" = none ∨ asCall? code "include" "__include" = none := by
  cases hprint : asCall? code "print" "__print" with
  | none => exact .inl rfl
  | some _ =>
    cases hinclude : asCall? code "include" "__include" with
    | none => exact .inr rfl
    | some _ =>
      obtain ⟨_, hp⟩ := isPrefix_of_asCall? hprint
      obtain ⟨_, hi⟩ := isPrefix_of_asCall? hinclude
      rw [← hp] at hi
      exact absurd (List.cons.inj hi).1 (by decide)

theorem ofCode?_eq (code : Text) : ofCode? code = ((asCall? code "print" "__print").or
    (asCall? code "include" "__include")).getD (some (plain code)) := by
  simp only [ofCode?, writers, List.findSome?_cons, List.findSome?_nil]
  cases asCall? code "print" "__print" <;> cases asCall? code "include" "__include" <;> rfl

theorem ofCode?_eq_none_iff {code : Text} : ofCode? code = none ↔ IsOpenCall code := by
  have hprint : asCall? code "print" "__print" = some none ↔ _ :=
    asCall?_eq_some_none_iff (List.all_eq_true.1 rfl)
  have hinclude : asCall? code "include" "__include" = some none ↔ _ :=
    asCall?_eq_some_none_iff (List.all_eq_true.1 rfl)
  have hopen : IsOpenCall code ↔ asCall? code "print" "__print" = some none ∨
      asCall? code "include" "__include" = some none := by
    rw [hprint, hinclude]
    simp only [IsOpenCall, List.mem_cons, List.not_mem_nil, or_false, exists_eq_or_imp,
      exists_eq_left]
  rw [hopen, ofCode?_eq]
  rcases asCall?_print_or_include code with h | h
  · rw [h]
    cases asCall? code "include" "__include" <;> simp
  · rw [h]
    cases asCall? code "print" "__print" <;> simp

end CodeLine

/-! ### Faults -/

/-- What is wrong with the content of a line, as the error that it is in the line of a number in a
template of a description. -/
inductive Fault (d : Delimiters) (content : Text) : (Text → Nat → InputError) → Prop
  | unclassified {offending : Text} : Form.ofLine d content = .error ⟨offending⟩ →
    Fault d content fun template line => .unclassified template line offending
  | openCall {indent code : Text} : Form.ofLine d content = .ok (.code indent code) →
    CodeLine.IsOpenCall code →
      Fault d content fun template line => .unbalancedCall template line code

def IsFaulty (d : Delimiters) (content : Text) : Prop := ∃ fault, Fault d content fault

variable {d : Delimiters} {template : Text} {line : Line} {e : InputError}

theorem Item.ofLine_eq_error_iff :
    ofLine d template line = .error e ↔
      ∃ fault, Fault d line.content fault ∧ fault template line.number = e := by
  constructor
  · intro h
    unfold ofLine at h
    cases hform : Form.ofLine d line.content with
    | error unclassified =>
      rw [hform] at h
      exact ⟨_, .unclassified hform, Except.error.inj h⟩
    | ok form =>
      rw [hform] at h
      cases form with
      | blank _ => cases h
      | placeholder _ _ => cases h
      | text _ _ => cases h
      | code indent code =>
        simp only [ofForm] at h
        cases hcode : CodeLine.ofCode? code with
        | some parsed => rw [hcode] at h; cases h
        | none =>
          rw [hcode] at h
          exact ⟨_, .openCall hform (CodeLine.ofCode?_eq_none_iff.1 hcode), Except.error.inj h⟩
  · rintro ⟨fault, hfault, rfl⟩
    cases hfault with
    | unclassified hform => rw [ofLine, hform]
    | openCall hform hopen =>
      rw [ofLine, hform]
      dsimp only [ofForm]
      rw [CodeLine.ofCode?_eq_none_iff.2 hopen]

theorem Item.exists_ok_iff :
    (∃ item, ofLine d template line = .ok item) ↔ ¬ IsFaulty d line.content := by
  constructor
  · rintro ⟨item, hitem⟩ ⟨fault, hfault⟩
    rw [ofLine_eq_error_iff.2 ⟨fault, hfault, rfl⟩] at hitem
    cases hitem
  · intro h
    cases hline : ofLine d template line with
    | ok item => exact ⟨item, rfl⟩
    | error e =>
      obtain ⟨fault, hfault, _⟩ := ofLine_eq_error_iff.1 hline
      exact absurd ⟨fault, hfault⟩ h

/-- No fault is about the indent unit. -/
theorem Fault.ne_indentUnit {content : Text} {fault : Text → Nat → InputError}
    (h : Fault d content fault) (template : Text) (number : Nat) (value : Text) :
    fault template number ≠ .indentUnit value := by
  cases h <;> nofun

theorem exists_indentUnit_of_unit? {source : Text} (h : Directive.unit? d source = .error e) :
    ∃ value, e = .indentUnit value := by
  unfold Directive.unit? at h
  split at h
  · cases h
  · split at h
    · unfold checkIndentUnit at h
      split at h
      · cases h
      · exact ⟨_, (Except.error.inj h).symm⟩
    · exact ⟨_, (Except.error.inj h).symm⟩

/-! ### The first fault -/

/-- The lines of a source are numbered in order. -/
theorem Line.pairwise_number_ofSource (source : Text) :
    (ofSource source).Pairwise fun a b => a.number < b.number := by
  rw [List.pairwise_iff_getElem]
  intro i j hi hj hlt
  rw [number_getElem_ofSource, number_getElem_ofSource]
  omega

/-- Where numbers grow along a list, what is before an element is what has a smaller number. -/
theorem mem_before_iff {α : Type} {number : α → Nat} {before after : List α} {a b : α}
    (h : (before ++ a :: after).Pairwise fun x y => number x < number y) :
    b ∈ before ↔ b ∈ before ++ a :: after ∧ number b < number a := by
  obtain ⟨_, hafter, hbefore⟩ := List.pairwise_append.1 h
  constructor
  · intro hb
    exact ⟨List.mem_append_left _ hb, hbefore b hb a List.mem_cons_self⟩
  · rintro ⟨hb, hlt⟩
    rcases List.mem_append.1 hb with hb | hb
    · exact hb
    · rcases List.mem_cons.1 hb with rfl | hb
      · omega
      · have := (List.pairwise_cons.1 hafter).1 b hb
        omega

namespace Template

/-- **A template fails to compile for its directive, or else at its first faulty line.** The unit
that it asks for is looked at before the lines and is the only thing that is told of a unit. What
is told of a line is the fault of the one with the smallest number, and whether a line has a fault
depends on its content alone. -/
theorem compile_eq_error_iff (d : Delimiters) (unit : Nat) (t : Template) :
    ((∃ value, t.compile d unit = .error (.indentUnit value)) ↔
      ∃ e, Directive.unit? d t.source = .error e) ∧
    ((∃ e, t.compile d unit = .error e) ↔ (∃ e, Directive.unit? d t.source = .error e) ∨
      ∃ line ∈ Line.ofSource t.source, IsFaulty d line.content) ∧
    ∀ e, t.compile d unit = .error e ↔ Directive.unit? d t.source = .error e ∨
      (∃ asked, Directive.unit? d t.source = .ok asked) ∧
        ∃ line ∈ Line.ofSource t.source,
          (∀ l ∈ Line.ofSource t.source, l.number < line.number → ¬ IsFaulty d l.content) ∧
          ∃ fault, Fault d line.content fault ∧ fault t.description line.number = e := by
  have herror : ∀ e, t.compile d unit = .error e ↔ Directive.unit? d t.source = .error e ∨
      (∃ asked, Directive.unit? d t.source = .ok asked) ∧
        (Line.ofSource t.source).mapM (Item.ofLine d t.description) = .error e := by
    intro e
    unfold compile
    cases Directive.unit? d t.source with
    | error e' => simp [bind, Except.bind]
    | ok asked =>
      cases (Line.ofSource t.source).mapM (Item.ofLine d t.description) <;>
        simp [bind, Except.bind, pure, Except.pure]
  have hlines : ∀ e, (Line.ofSource t.source).mapM (Item.ofLine d t.description) = .error e ↔
      ∃ line ∈ Line.ofSource t.source,
        (∀ l ∈ Line.ofSource t.source, l.number < line.number → ¬ IsFaulty d l.content) ∧
        ∃ fault, Fault d line.content fault ∧ fault t.description line.number = e := by
    intro e
    have hnumbers := Line.pairwise_number_ofSource t.source
    rw [mapM_eq_error_iff]
    constructor
    · rintro ⟨before, line, after, hsplit, hbefore, hline⟩
      rw [hsplit] at hnumbers ⊢
      refine ⟨line, by simp, fun l hl hlt => ?_, Item.ofLine_eq_error_iff.1 hline⟩
      exact Item.exists_ok_iff.1 (hbefore l ((mem_before_iff hnumbers).2 ⟨hl, hlt⟩))
    · rintro ⟨line, hline, hfirst, hfault⟩
      obtain ⟨before, after, hsplit⟩ := List.append_of_mem hline
      rw [hsplit] at hnumbers hfirst ⊢
      refine ⟨before, line, after, rfl, fun l hl => ?_, Item.ofLine_eq_error_iff.2 hfault⟩
      obtain ⟨hmem, hlt⟩ := (mem_before_iff hnumbers).1 hl
      exact Item.exists_ok_iff.2 (hfirst l hmem hlt)
  have hfails : (∃ e, (Line.ofSource t.source).mapM (Item.ofLine d t.description) = .error e) ↔
      ∃ line ∈ Line.ofSource t.source, IsFaulty d line.content := by
    constructor
    · rintro ⟨e, he⟩
      obtain ⟨line, hline, _, fault, hfault, _⟩ := (hlines e).1 he
      exact ⟨line, hline, fault, hfault⟩
    · rintro ⟨line, hline, hfaulty⟩
      cases hitems : (Line.ofSource t.source).mapM (Item.ofLine d t.description) with
      | error e => exact ⟨e, rfl⟩
      | ok items =>
        obtain ⟨hlength, hget⟩ := List.forall₂_iff_get.1 (forall₂_of_mapM_ok hitems)
        obtain ⟨i, hi, rfl⟩ := List.mem_iff_getElem.1 hline
        exact absurd hfaulty (Item.exists_ok_iff.1 ⟨_, hget i hi (hlength ▸ hi)⟩)
  refine ⟨?_, ?_, ?_⟩
  · constructor
    · rintro ⟨value, hvalue⟩
      rcases (herror _).1 hvalue with hunit | ⟨_, hfirst⟩
      · exact ⟨_, hunit⟩
      · obtain ⟨line, _, _, fault, hfault, heq⟩ := (hlines _).1 hfirst
        exact absurd heq (hfault.ne_indentUnit _ _ _)
    · rintro ⟨e, he⟩
      obtain ⟨value, rfl⟩ := exists_indentUnit_of_unit? he
      exact ⟨value, (herror _).2 (.inl he)⟩
  · rw [← hfails]
    constructor
    · rintro ⟨e, he⟩
      exact ((herror e).1 he).imp (⟨e, ·⟩) fun h => ⟨e, h.2⟩
    · rintro (⟨e, he⟩ | ⟨e, he⟩)
      · exact ⟨e, (herror e).2 (.inl he)⟩
      · cases hunit : Directive.unit? d t.source with
        | error e' => exact ⟨e', (herror e').2 (.inl hunit)⟩
        | ok asked => exact ⟨e, (herror e).2 (.inr ⟨⟨asked, hunit⟩, he⟩)⟩
  · intro e
    rw [herror, hlines]

end Template
end Stencil
