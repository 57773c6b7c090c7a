import Stencil.Delimiters
import Stencil.Line.Basic

/-! What a line of a template is.

A line is tried against five rules, in this order: only blanks; the escaped left delimiter right
after the indentation, which makes it text; a single placeholder that fills the line; the left
delimiter right after the indentation, which makes the rest script code; and text. A text line
is cut into fragments by `fragments`.

`Form.ofLine` fails on content that no rule covers, and returns that content. -/
namespace Stencil

/-- A piece of a text line. -/
inductive Fragment
  | literal (text : Text)
  /-- Literal text followed by a literal left delimiter. -/
  | escaped (before : Text)
  /-- An expression between delimiters, without the blanks around it. -/
  | placeholder (expr : Text)
deriving Repr, DecidableEq

inductive Form
  | blank (content : Text)
  | code (indent code : Text)
  | placeholder (indent expr : Text)
  | text (indent : Text) (fragments : List Fragment)
deriving Repr, DecidableEq

def Form.indent : Form → Text
  | blank _ => []
  | code indent _ | placeholder indent _ | text indent _ => indent

/-- Content of a line that no rule accounts for. -/
structure Unclassified where
  content : Text
deriving Repr, DecidableEq

/-- The fragments of a text, read from the left. -/
def fragments (d : Delimiters) (t : Text) : Except Unclassified (List Fragment) :=
  if t = [] then .ok [] else
  match _hleft : Text.cut? d.left t with
  | none => .ok [.literal t]
  | some (before, inside) =>
    match _hescape : Text.after? d.escape inside with
    | some rest => do
      let more ← fragments d rest
      return .escaped before :: more
    | none =>
      match hright : Text.cut? d.right inside with
      | none => .error ⟨d.left ++ inside⟩
      | some (between, rest) =>
        let expr := between.trim
        if expr = [] then .error ⟨d.left ++ between ++ d.right⟩
        else do
          let more ← fragments d rest
          let here := [.placeholder expr]
          return (if before = [] then here else .literal before :: here) ++ more
termination_by t.length
decreasing_by
  · have := Text.length_lt_of_cut? d.left_ne _hleft
    have := congrArg List.length (Text.after?_eq_some_iff.1 _hescape)
    simp only [List.length_append] at this
    omega
  · have := Text.length_lt_of_cut? d.left_ne _hleft
    have := Text.length_lt_of_cut? d.right_ne hright
    omega

/-- What a line without its terminator is. -/
def Form.ofLine (d : Delimiters) (content : Text) : Except Unclassified Form :=
  let indent := content.indentation
  let rest := content.trimStart
  let text := return Form.text indent (← fragments d content)
  if content.isBlankLine then .ok (.blank content)
  else if rest.startsWith d.escapedLeft then text
  else
    match Text.after? d.left rest with
    | none => text
    | some inside =>
      let code := .ok (.code indent inside.trim)
      match Text.before? d.right inside.trimEnd with
      | none => code
      | some between =>
        let expr := between.trim
        if expr = [] then .error ⟨rest⟩
        else if expr.contains d.right then code
        else .ok (.placeholder indent expr)

end Stencil
