import Mathlib.Data.List.Forall2
import Stencil.Proofs.Line.Form
import Stencil.Script.Compile

/-! The items of a template.

A template that compiles has been read into one item for each line, and its script is laid out from
the items alone (`items_of_compile`). What a line generates itself are its `texts`. -/
namespace Stencil

theorem forall₂_of_mapM_ok {α β ε : Type} {f : α → Except ε β} {as : List α} {bs : List β}
    (h : as.mapM f = .ok bs) : List.Forall₂ (fun a b => f a = .ok b) as bs := by
  induction as generalizing bs with
  | nil =>
    cases h
    exact .nil
  | cons a as ih =>
    rw [List.mapM_cons] at h
    cases ha : f a with
    | error e => rw [ha] at h; cases h
    | ok b =>
      cases has : as.mapM f with
      | error e => rw [ha, has] at h; cases h
      | ok bs' =>
        rw [ha, has] at h
        cases h
        exact .cons ha (ih has)

theorem mapM_eq_ok {α β ε : Type} {f : α → Except ε β} {as : List α} {bs : List β}
    (h : List.Forall₂ (fun a b => f a = .ok b) as bs) : as.mapM f = .ok bs := by
  induction h with
  | nil => rfl
  | cons ha _ ih =>
    rw [List.mapM_cons, ha, ih]
    rfl

/-- Lists that are related element by element are related on both sides of an element. -/
theorem exists_of_forall₂_append_cons {α β : Type} {R : α → β → Prop} {as as' : List α} {a : α}
    {cs : List β} (h : List.Forall₂ R (as ++ a :: as') cs) :
    ∃ bs b bs', cs = bs ++ b :: bs' ∧ List.Forall₂ R as bs ∧ R a b ∧ List.Forall₂ R as' bs' := by
  induction as generalizing cs with
  | nil =>
    obtain ⟨b, bs', hab, hrest, rfl⟩ := List.forall₂_cons_left_iff.1 h
    exact ⟨[], b, bs', rfl, .nil, hab, hrest⟩
  | cons first as ih =>
    obtain ⟨c, cs, hfirst, hrest, rfl⟩ := List.forall₂_cons_left_iff.1 h
    obtain ⟨bs, b, bs', rfl, hbefore, hab, hafter⟩ := ih hrest
    exact ⟨c :: bs, b, bs', rfl, .cons hfirst hbefore, hab, hafter⟩

/-- A list that is read element by element fails at the first element that cannot be read. -/
theorem mapM_eq_error_iff {α β ε : Type} {f : α → Except ε β} {as : List α} {e : ε} :
    as.mapM f = .error e ↔ ∃ before a after, as = before ++ a :: after ∧
      (∀ b ∈ before, ∃ c, f b = .ok c) ∧ f a = .error e := by
  induction as with
  | nil =>
    constructor
    · nofun
    · rintro ⟨before, a, after, has, _⟩
      exact absurd has (by simp)
  | cons a as ih =>
    rw [List.mapM_cons]
    cases ha : f a with
    | error e' =>
      constructor
      · rintro ⟨⟩
        exact ⟨[], a, as, rfl, nofun, ha⟩
      · rintro ⟨before, x, after, has, hbefore, hx⟩
        cases before with
        | nil =>
          cases has
          cases ha.symm.trans hx
          rfl
        | cons b before =>
          cases has
          obtain ⟨c, hc⟩ := hbefore _ List.mem_cons_self
          cases ha.symm.trans hc
    | ok c =>
      have htail : ((do let cs ← as.mapM f; pure (c :: cs)) : Except ε (List β)) = .error e ↔
          as.mapM f = .error e := by
        cases as.mapM f with
        | error _ => exact Iff.rfl
        | ok _ => exact ⟨nofun, nofun⟩
      refine Iff.trans htail (ih.trans ⟨?_, ?_⟩)
      · rintro ⟨before, x, after, rfl, hbefore, hx⟩
        exact ⟨a :: before, x, after, rfl, List.forall_mem_cons.2 ⟨⟨c, ha⟩, hbefore⟩, hx⟩
      · rintro ⟨before, x, after, has, hbefore, hx⟩
        cases before with
        | nil =>
          cases has
          cases ha.symm.trans hx
        | cons b before =>
          cases has
          exact ⟨before, x, after, rfl, (List.forall_mem_cons.1 hbefore).2, hx⟩

theorem fragmentStatements_ne_nil (d : Delimiters) (terminated : Bool) {fs : List Fragment}
    (h : fs ≠ []) : fragmentStatements d terminated fs ≠ [] := by
  cases fs with
  | nil => exact absurd rfl h
  | cons f rest => cases rest <;> simp [fragmentStatements]

/-- A code line stays as it is, or a writer is called with what stands up to the parenthesis that
closes the call. -/
theorem CodeLine.ofCode?_cases {code : Text} {line : CodeLine} (h : ofCode? code = some line) :
    line = plain code ∨ ∃ writer ∈ writers, ∃ closing, line =
      call writer.2 (Text.trim ((code.take closing).drop (writer.1.length + 1)))
        (code.drop (closing + 1)) := by
  unfold ofCode? at h
  generalize hfound : writers.findSome? _ = found at h
  cases found with
  | none => exact .inl (Option.some.inj h).symm
  | some found =>
    rw [Option.getD_some] at h
    obtain ⟨writer, hwriter, hcall⟩ := List.exists_of_findSome?_eq_some hfound
    dsimp only [asCall?] at hcall
    split at hcall
    · rw [h] at hcall
      obtain ⟨closing, _, hline⟩ := Option.map_eq_some_iff.1 (Option.some.inj hcall)
      exact .inr ⟨writer, hwriter, closing, hline.symm⟩
    · cases hcall

namespace Item

theorem statementsFrom_cons (s : State) (item : Item) (items : List Item) :
    statementsFrom s (item :: items) =
      (lay s item).1 ++ statementsFrom (lay s item).2 items := rfl

/-- The texts of the statements that an item generates itself, at an indentation of `leftover`
within its block. -/
def texts (leftover : Text) : Item → List Text
  | blank statement => [statement]
  | output _ statements => statements
  | code _ _ line => [line.statement leftover]

def indent : Item → Text
  | blank _ => []
  | output indent _ | code indent _ _ => indent

theorem ofLine_of_form {d : Delimiters} {template : Text} {line : Line} {form : Form}
    (h : Form.ofLine d line.content = .ok form) :
    ofLine d template line = ofForm d template line form := by
  rw [ofLine, h]

theorem exists_form_of_ofLine {d : Delimiters} {template : Text} {line : Line} {item : Item}
    (h : ofLine d template line = .ok item) :
    ∃ form, Form.ofLine d line.content = .ok form ∧ ofForm d template line form = .ok item := by
  cases hform : Form.ofLine d line.content with
  | error e =>
    rw [ofLine, hform] at h
    cases h
  | ok form => exact ⟨form, rfl, (ofLine_of_form hform).symm.trans h⟩

theorem ofForm_code_eq_ok_iff {d : Delimiters} {template : Text} {line : Line} {indent code : Text}
    {item : Item} : ofForm d template line (.code indent code) = .ok item ↔
      ∃ parsed, CodeLine.ofCode? code = some parsed ∧ item = .code indent code parsed := by
  simp only [ofForm]
  cases CodeLine.ofCode? code with
  | none => simp
  | some parsed => simp [eq_comm]

/-- No line is without a statement of its own. -/
theorem texts_ne_nil {d : Delimiters} {template : Text} {line : Line} {item : Item}
    (h : ofLine d template line = .ok item) (leftover : Text) : item.texts leftover ≠ [] := by
  obtain ⟨form, hform, h⟩ := exists_form_of_ofLine h
  cases form with
  | blank content => cases h; simp [texts]
  | placeholder indent expr => cases h; simp [texts]
  | code indent text =>
    obtain ⟨parsed, _, rfl⟩ := ofForm_code_eq_ok_iff.1 h
    simp [texts]
  | text indent fs =>
    cases h
    exact fragmentStatements_ne_nil d line.terminated (Form.fragments_ne_nil_of_ofLine hform)

end Item

namespace Template

theorem compile_eq_of_toOption {d : Delimiters} {unit : Nat} {t : Template} {script : Script}
    (h : (t.compile d unit).toOption = some script) : t.compile d unit = .ok script := by
  cases hcompile : t.compile d unit with
  | error e => rw [hcompile] at h; cases h
  | ok found => rw [hcompile] at h; cases h; rfl

/-- The script of a template at a unit, whatever the template asks for. -/
def compileAt (d : Delimiters) (unit : Nat) (t : Template) : Except InputError Script :=
  ((Line.ofSource t.source).mapM (Item.ofLine d t.description)).map
    fun items => ⟨unit, Item.statements items⟩

theorem compile_of_unit? {d : Delimiters} {t : Template} {asked : Option Nat}
    (h : Directive.unit? d t.source = .ok asked) (unit : Nat) :
    t.compile d unit = t.compileAt d (asked.getD unit) := by
  rw [compile, compileAt, h]
  cases (Line.ofSource t.source).mapM (Item.ofLine d t.description) <;> rfl

theorem compile_of_unit?_error {d : Delimiters} {t : Template} {e : InputError}
    (h : Directive.unit? d t.source = .error e) (unit : Nat) : t.compile d unit = .error e := by
  rw [compile, h]
  rfl

/-- A template compiles if it asks for a unit that there is, or for none, and all its lines can be
read. -/
theorem compile_eq_ok_iff {d : Delimiters} {unit : Nat} {t : Template} {script : Script} :
    t.compile d unit = .ok script ↔ ∃ asked items, Directive.unit? d t.source = .ok asked ∧
      List.Forall₂ (fun line item => Item.ofLine d t.description line = .ok item)
        (Line.ofSource t.source) items ∧ script = ⟨asked.getD unit, Item.statements items⟩ := by
  constructor
  · intro h
    unfold compile at h
    cases hunit : Directive.unit? d t.source with
    | error e => rw [hunit] at h; cases h
    | ok asked =>
      cases hitems : (Line.ofSource t.source).mapM (Item.ofLine d t.description) with
      | error e => rw [hunit, hitems] at h; cases h
      | ok items =>
        rw [hunit, hitems] at h
        cases h
        exact ⟨asked, items, rfl, forall₂_of_mapM_ok hitems, rfl⟩
  · rintro ⟨asked, items, hunit, hitems, rfl⟩
    rw [compile, hunit, mapM_eq_ok hitems]
    rfl

/-- A compiled template has been read line by line, and its script is laid out from the items. -/
theorem items_of_compile {d : Delimiters} {unit : Nat} {t : Template} {script : Script}
    (h : t.compile d unit = .ok script) :
    ∃ items, List.Forall₂ (fun line item => Item.ofLine d t.description line = .ok item)
        (Line.ofSource t.source) items ∧ script.statements = Item.statements items := by
  obtain ⟨_, items, _, hitems, rfl⟩ := compile_eq_ok_iff.1 h
  exact ⟨items, hitems, rfl⟩

end Template
end Stencil
