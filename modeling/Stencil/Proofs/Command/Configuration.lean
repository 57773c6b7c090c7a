import Stencil.Command.Configuration
import Stencil.Proofs.Command.Level

/-! Configurations that can be read, and settings that can be used.

What the tool needs of a configuration are `fields`, values of three kinds. `Configures` says that
every one of them can be taken out of a tree, and `IsMistyped` that one cannot; a tree is one or the
other (`configures_or_mistyped`), and `ofToml` finds out which. `IsUsable` lists what a renderer asks
of its settings, and `renderSettings_eq_ok_iff` says that nothing else is refused. -/
namespace Stencil

theorem Delimiters.ofParts_eq_ok_iff {left right escape : Text} {d : Delimiters} :
    ofParts left right escape = .ok d ↔
      d.left = left ∧ d.right = right ∧ d.escape = escape := by
  constructor
  · intro h
    unfold ofParts at h
    split at h
    · split at h
      · cases h
      · split at h
        · cases h
          exact ⟨rfl, rfl, rfl⟩
        · cases h
    · cases h
  · rintro ⟨rfl, rfl, rfl⟩
    unfold ofParts
    rw [dif_pos ⟨d.left_ne, d.right_ne, d.escape_ne⟩, dif_neg d.left_ne_right, dif_pos d.one_line]

namespace Configuration

/-! ### The values that are needed -/

inductive Kind
  | number
  | flag
  | text

/-- The sections, names and kinds of the values. -/
def fields : List (Text × Text × Kind) :=
  [("render", "indent_unit", .number), ("render", "left_delimiter", .text),
    ("render", "right_delimiter", .text), ("render", "escape", .text), ("render", "debug", .flag),
    ("render", "max_include_depth", .number), ("output", "no_color", .flag),
    ("output", "format", .text), ("templates", "suffix", .text)]

/-- The value with a name in a section. -/
def valueAt (tree : Toml) (s name : Text) : Option Toml := (tree.get? s).bind (·.get? name)

/-- The value at a name stands for something. -/
def Gives {α : Type} (tree : Toml) (as : Toml → Option α) (s name : Text) (a : α) : Prop :=
  ∃ v, valueAt tree s name = some v ∧ as v = some a

/-- A value can be taken for one of a kind. -/
def Package.Fits (p : Package) : Kind → Toml → Prop
  | .number, v => (p.number? v).isSome
  | .flag, v => (p.flag? v).isSome
  | .text, v => (p.text? v).isSome

variable (p : Package) (tree : Toml)

/-- Every value is there and is of its kind; these are the ones of a configuration. -/
inductive Configures : Configuration → Prop
  | intro {indentUnit maxIncludeDepth : Nat} {debug noColor : Bool}
    {leftDelimiter rightDelimiter escape suffix format : Text}
    (hindentUnit : Gives tree p.number? "render" "indent_unit" indentUnit)
    (hleft : Gives tree p.text? "render" "left_delimiter" leftDelimiter)
    (hright : Gives tree p.text? "render" "right_delimiter" rightDelimiter)
    (hescape : Gives tree p.text? "render" "escape" escape)
    (hdebug : Gives tree p.flag? "render" "debug" debug)
    (hdepth : Gives tree p.number? "render" "max_include_depth" maxIncludeDepth)
    (hcolor : Gives tree p.flag? "output" "no_color" noColor)
    (hformat : Gives tree p.text? "output" "format" format)
    (hsuffix : Gives tree p.text? "templates" "suffix" suffix) :
    Configures { settings := { indentUnit, debug, maxIncludeDepth, suffix }
                 leftDelimiter, rightDelimiter, escape, noColor, format }

/-- A value is not there, or is not of its kind. -/
def IsMistyped : Prop :=
  ∃ s name kind, (s, name, kind) ∈ fields ∧ ∀ v, valueAt tree s name = some v → ¬p.Fits kind v

variable {p tree}

theorem read_eq_ok_iff {α : Type} {as : Toml → Option α} {s name : Text} {a : α} :
    read tree as s name = .ok a ↔ Gives tree as s name a := by
  unfold read Gives valueAt
  constructor
  · intro h
    split at h
    · next found hfound =>
      cases h
      exact Option.bind_eq_some_iff.1 hfound
    · cases h
  · rintro ⟨v, hv, ha⟩
    rw [hv, Option.bind_some, ha]

theorem ofToml_eq_ok_iff {c : Configuration} : ofToml p tree = .ok c ↔ Configures p tree c := by
  unfold ofToml
  constructor
  · intro h
    obtain ⟨indentUnit, hindentUnit, h⟩ := Command.exists_of_bind_eq_ok h
    obtain ⟨debug, hdebug, h⟩ := Command.exists_of_bind_eq_ok h
    obtain ⟨depth, hdepth, h⟩ := Command.exists_of_bind_eq_ok h
    obtain ⟨suffix, hsuffix, h⟩ := Command.exists_of_bind_eq_ok h
    obtain ⟨left, hleft, h⟩ := Command.exists_of_bind_eq_ok h
    obtain ⟨right, hright, h⟩ := Command.exists_of_bind_eq_ok h
    obtain ⟨escape, hescape, h⟩ := Command.exists_of_bind_eq_ok h
    obtain ⟨noColor, hcolor, h⟩ := Command.exists_of_bind_eq_ok h
    obtain ⟨format, hformat, h⟩ := Command.exists_of_bind_eq_ok h
    cases h
    rw [read_eq_ok_iff] at hindentUnit hdebug hdepth hsuffix hleft hright hescape hcolor hformat
    exact .intro hindentUnit hleft hright hescape hdebug hdepth hcolor hformat hsuffix
  · rintro ⟨hindentUnit, hleft, hright, hescape, hdebug, hdepth, hcolor, hformat, hsuffix⟩
    rw [read_eq_ok_iff.2 hindentUnit, read_eq_ok_iff.2 hdebug, read_eq_ok_iff.2 hdepth,
      read_eq_ok_iff.2 hsuffix, read_eq_ok_iff.2 hleft, read_eq_ok_iff.2 hright,
      read_eq_ok_iff.2 hescape, read_eq_ok_iff.2 hcolor, read_eq_ok_iff.2 hformat]
    rfl

theorem Gives.fits {α : Type} {as : Toml → Option α} {s name : Text} {a : α}
    (h : Gives tree as s name a) : ∃ v, valueAt tree s name = some v ∧ (as v).isSome := by
  obtain ⟨v, hv, ha⟩ := h
  exact ⟨v, hv, ha ▸ rfl⟩

/-- The kind that a value is asked for decides what it is taken for. -/
theorem Configures.not_mistyped {c : Configuration} (h : Configures p tree c) :
    ¬IsMistyped p tree := by
  rintro ⟨s, name, kind, hmem, hnone⟩
  obtain ⟨v, hv, hfits⟩ : ∃ v, valueAt tree s name = some v ∧ p.Fits kind v := by
    obtain ⟨hindentUnit, hleft, hright, hescape, hdebug, hdepth, hcolor, hformat, hsuffix⟩ := h
    simp only [fields, List.mem_cons, Prod.mk.injEq, List.not_mem_nil, or_false] at hmem
    rcases hmem with ⟨rfl, rfl, rfl⟩ | ⟨rfl, rfl, rfl⟩ | ⟨rfl, rfl, rfl⟩ | ⟨rfl, rfl, rfl⟩ |
      ⟨rfl, rfl, rfl⟩ | ⟨rfl, rfl, rfl⟩ | ⟨rfl, rfl, rfl⟩ | ⟨rfl, rfl, rfl⟩ | ⟨rfl, rfl, rfl⟩
    · exact hindentUnit.fits
    · exact hleft.fits
    · exact hright.fits
    · exact hescape.fits
    · exact hdebug.fits
    · exact hdepth.fits
    · exact hcolor.fits
    · exact hformat.fits
    · exact hsuffix.fits
  exact hnone v hv hfits

/-- A value that is missing or mistyped is told. -/
theorem exists_of_isMistyped (h : IsMistyped p tree) : ∃ message, ofToml p tree = .error message := by
  cases hc : ofToml p tree with
  | error message => exact ⟨message, rfl⟩
  | ok c => exact absurd h (ofToml_eq_ok_iff.1 hc).not_mistyped

/-! ### Settings that can be used -/

/-- What a renderer asks of its settings: delimiters that can be told apart and are within a line, a
sensible unit of indentation, room for one include at least, and a suffix without its dot. -/
structure IsUsable (c : Configuration) : Prop where
  notEmpty : c.leftDelimiter ≠ [] ∧ c.rightDelimiter ≠ [] ∧ c.escape ≠ []
  distinct : c.leftDelimiter ≠ c.rightDelimiter
  oneLine : '\n' ∉ c.leftDelimiter ∧ '\n' ∉ c.rightDelimiter ∧ '\n' ∉ c.escape
  indentUnit : minIndentUnit ≤ c.settings.indentUnit ∧ c.settings.indentUnit ≤ maxIndentUnit
  depth : c.settings.maxIncludeDepth ≠ 0
  suffix : c.settings.suffix.head? ≠ some '.'

/-- The settings for a renderer are those of a configuration, with its delimiters; debugging can be
switched on besides. -/
structure Sets (c : Configuration) (debug : Bool) (settings : Settings) : Prop where
  left : settings.delimiters.left = c.leftDelimiter
  right : settings.delimiters.right = c.rightDelimiter
  escape : settings.delimiters.escape = c.escape
  others : settings =
    { c.settings with delimiters := settings.delimiters, debug := debug || c.settings.debug }

variable {c : Configuration} {debug : Bool} {settings : Settings}

theorem check_eq_ok_iff {s : Settings} (h : s.functions = .empty) :
    s.check = .ok () ↔ (minIndentUnit ≤ s.indentUnit ∧ s.indentUnit ≤ maxIndentUnit) ∧
      s.maxIncludeDepth ≠ 0 ∧ s.suffix.head? ≠ some '.' := by
  unfold Settings.check checkIndentUnit
  rw [h]
  by_cases hunit : minIndentUnit ≤ s.indentUnit ∧ s.indentUnit ≤ maxIndentUnit
  · rw [if_pos hunit]
    by_cases hdepth : s.maxIncludeDepth = 0
    · simp only [hdepth, if_pos, ne_eq, not_true_eq_false, false_and, and_false, iff_false]
      nofun
    · by_cases hsuffix : s.suffix.head? = some '.'
      · simp only [hdepth, hsuffix, if_pos, if_neg, ne_eq, not_true_eq_false, and_false, iff_false,
          not_false_eq_true]
        nofun
      · simp only [hdepth, hsuffix, if_neg, ne_eq, not_false_eq_true, and_true, iff_true, hunit]
        rfl
  · rw [if_neg hunit]
    simp only [hunit, false_and, iff_false]
    nofun

/-- Settings are made of a usable configuration, and of no other. -/
theorem renderSettings_eq_ok_iff (h : c.settings.functions = .empty) :
    c.renderSettings debug = .ok settings ↔ c.IsUsable ∧ c.Sets debug settings := by
  unfold renderSettings
  constructor
  · intro hok
    obtain ⟨d, hd, hok⟩ := Command.exists_of_bind_eq_ok hok
    obtain ⟨⟨⟩, hcheck, hok⟩ := Command.exists_of_bind_eq_ok hok
    obtain ⟨hunit, hdepth, hsuffix⟩ := (check_eq_ok_iff h).1 hcheck
    cases hok
    obtain ⟨hleft, hright, hescape⟩ : d.left = c.leftDelimiter ∧ d.right = c.rightDelimiter ∧
        d.escape = c.escape := by
      cases hparts : Delimiters.ofParts c.leftDelimiter c.rightDelimiter c.escape with
      | error defect =>
        rw [hparts] at hd
        cases hd
      | ok d' =>
        rw [hparts] at hd
        cases hd
        exact Delimiters.ofParts_eq_ok_iff.1 hparts
    refine ⟨⟨?_, ?_, ?_, hunit, hdepth, hsuffix⟩, hleft, hright, hescape, rfl⟩
    · exact hleft ▸ hright ▸ hescape ▸ ⟨d.left_ne, d.right_ne, d.escape_ne⟩
    · exact hleft ▸ hright ▸ d.left_ne_right
    · exact hleft ▸ hright ▸ hescape ▸ d.one_line
  · rintro ⟨husable, hleft, hright, hescape, hothers⟩
    rw [Delimiters.ofParts_eq_ok_iff.2 ⟨hleft, hright, hescape⟩, hothers]
    have hcheck := (check_eq_ok_iff (s := { c.settings with
      delimiters := settings.delimiters, debug := debug || c.settings.debug }) h).2
      ⟨husable.indentUnit, husable.depth, husable.suffix⟩
    show (Settings.check _ >>= fun _ => _) = _
    rw [hcheck]
    rfl

theorem Configures.functions (h : Configures p tree c) : c.settings.functions = .empty := by
  cases h
  rfl

end Configuration
end Stencil
