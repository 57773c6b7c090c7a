import Stencil.Proofs.Lua.Inclusion
import Stencil.Proofs.Script.Inclusion
import Stencil.Render.Memory
import Stencil.Render.Renderer

/-! What templates that only include others stand for.

Where the lines of templates are text or includes, a template stands for its expansion: every
include is replaced by what the included template expands to, without a line feed at its end, with
the indentation of the include before each line that is not empty, and with a line feed behind it.
Nothing here runs a script, and a template expands to no more than one text (`Expands.unique`). -/
namespace Stencil

open Lua

/-! ### Indented text -/

namespace Text

variable {indent line t : Text}

/-- The text with an indentation before each line that is not empty. -/
def indented (indent t : Text) : Text :=
  join "\n" ((splitOn '\n' t).map fun line => if line = [] then [] else indent ++ line)

theorem indented_line (h : '\n' ∉ line) (hne : line ≠ []) :
    indented indent line = indent ++ line := by
  rw [indented, splitOn_of_not_mem h, List.map_singleton, if_neg hne]
  rfl

theorem indented_append (h : '\n' ∉ line) (rest : Text) :
    indented indent (line ++ '\n' :: rest) =
      (if line = [] then [] else indent ++ line) ++ '\n' :: indented indent rest := by
  rw [indented, splitOn_append h, List.map_cons, indented]
  cases hrest : splitOn '\n' rest with
  | nil => exact absurd hrest (splitOn_ne_nil '\n' rest)
  | cons piece pieces =>
    rw [List.map_cons, join, List.append_assoc]
    · rfl
    · exact List.cons_ne_nil _ _

theorem mem_of_mem_indented {c : Char} (h : c ∈ indented indent t) : c ∈ indent ∨ c ∈ t := by
  induction t using induction_lines with
  | nil => exact .inr h
  | line t ht hne =>
    rw [indented_line ht hne] at h
    exact List.mem_append.1 h
  | append t rest ht ih =>
    rw [indented_append ht] at h
    rcases List.mem_append.1 h with h | h
    · split at h
      · cases h
      · exact (List.mem_append.1 h).imp_right (List.mem_append_left _)
    · rcases List.mem_cons.1 h with rfl | h
      · exact .inr (List.mem_append_right _ (List.mem_cons_self ..))
      · exact (ih h).imp_right fun h => List.mem_append_right _ (List.mem_cons_of_mem _ h)

end Text

/-- Without carriage returns, the lines that are not indented are those that are empty. -/
theorem Lua.indentLines_eq_indented (indent : Text) {t : Text} (h : '\r' ∉ t) :
    indentLines indent t = Text.indented indent t := by
  rw [indentLines_eq, Text.indented]
  refine congrArg (Text.join "\n") (List.map_congr_left fun line hline => ?_)
  cases line with
  | nil => rfl
  | cons c cs =>
    have hc : c ≠ '\r' := fun heq => h (Text.mem_of_mem_splitOn hline (heq ▸ List.mem_cons_self))
    simp [indentLine, hc]

/-! ### Expansion -/

/-- The template that a path leads to, which is that at the path or at the path with a suffix. -/
def Files.template? (files : Files) (suffix : Text) (path : Path) : Option Template :=
  [path, path ++ "." ++ suffix].findSome? fun candidate =>
    (files.read? candidate).map fun source => ⟨source, some candidate⟩

/-- The template that a line includes, in a template in this directory. -/
def Files.included? (files : Files) (suffix : Text) (directory : Option Path) (line : Line) :
    Option Template :=
  (includedPath? line.content).bind fun path =>
    files.template? suffix (Renderer.target directory path)

/-- The templates that a template includes. -/
def Files.inclusions (files : Files) (suffix : Text) (t : Template) : List Template :=
  (Line.ofSource t.source).filterMap (files.included? suffix t.directory?)

/-- One template includes another. -/
def Files.Includes (files : Files) (suffix : Text) (t u : Template) : Prop :=
  u ∈ files.inclusions suffix t

/-- Lines of a template in this directory expand to a text. -/
inductive Expands (files : Files) (suffix : Text) : Option Path → List Line → Text → Prop
  | nil {directory : Option Path} : Expands files suffix directory [] []
  | literal {directory : Option Path} {line : Line} {lines : List Line} {text : Text}
      (hline : includedPath? line.content = none)
      (hlines : Expands files suffix directory lines text) :
      Expands files suffix directory (line :: lines) (line.text ++ text)
  | inclusion {directory : Option Path} {line : Line} {lines : List Line} {t : Template}
      {included text : Text} (hline : files.included? suffix directory line = some t)
      (hincluded : Expands files suffix t.directory? (Line.ofSource t.source) included)
      (hlines : Expands files suffix directory lines text) :
      Expands files suffix directory (line :: lines)
        (Text.indented line.content.indentation included.dropLineFeed ++ '\n' :: text)

/-- The text that a template expands to. -/
def Template.ExpandsTo (files : Files) (suffix : Text) (t : Template) (text : Text) : Prop :=
  Expands files suffix t.directory? (Line.ofSource t.source) text

section Expansion

variable {files : Files} {suffix : Text} {directory : Option Path} {line : Line}

theorem Files.included?_of_none (h : includedPath? line.content = none) :
    files.included? suffix directory line = none := by
  rw [included?, h]
  rfl

/-- Lines expand to no more than one text. -/
theorem Expands.unique {lines : List Line} {text other : Text}
    (h : Expands files suffix directory lines text)
    (hother : Expands files suffix directory lines other) : other = text := by
  induction h generalizing other with
  | nil => cases hother; rfl
  | literal hline _ ih =>
    cases hother with
    | literal _ hlines => rw [ih hlines]
    | inclusion hfound _ _ =>
      rw [Files.included?_of_none hline] at hfound
      cases hfound
  | inclusion hline _ _ ihincluded ih =>
    cases hother with
    | literal hnone _ =>
      rw [Files.included?_of_none hnone] at hline
      cases hline
    | inclusion hfound hincluded hlines =>
      obtain rfl := Option.some.inj (hline.symm.trans hfound)
      rw [ihincluded hincluded, ih hlines]

end Expansion

end Stencil
