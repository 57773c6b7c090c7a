import Stencil.Proofs.Lua.Program.Basic
import Stencil.Proofs.Text.Blank

/-! Templates that are trees.

An `Outline` is a template as a tree of text lines, placeholders, loops and conditionals, each line
with an indentation of its own. It has a source, with a line for each node, and a meaning (`eval`),
which is given by recursion on the tree and knows nothing of indentation. `Laid` says when the
indentation shows the tree: bodies are indented more than the line that opens them, and what comes
behind a block is not. -/
namespace Stencil

open Lua

/-! ### Pieces of lines -/

/-- The blanks in front of a line. -/
structure Indent where
  text : Text
  blank : ∀ c ∈ text, isBlank c = true
  oneLine : '\n' ∉ text

def Indent.width (i : Indent) : Nat := i.text.length

def Indent.spaces (n : Nat) : Indent where
  text := Text.spaces n
  blank c hc := by
    rw [List.eq_of_mem_replicate hc]
    rfl
  oneLine h := absurd (List.eq_of_mem_replicate h) (by decide)

/-- What a line of text has behind its indentation. -/
structure PlainText where
  text : Text
  ne_nil : text ≠ []
  startsInk : text.StartsInk
  oneLine : '\n' ∉ text
  noReturn : text.getLast? ≠ some '\r'
  noLeft : Text.cut? Delimiters.standard.left text = none

/-! ### Outlines -/

/-- Lines at one level; a constructor is the first of them, with what belongs to it, and `rest` are
the others. -/
inductive Outline
  | done
  | text (indent : Indent) (content : PlainText) (rest : Outline)
  /-- The value of a loop variable, on a line of its own. -/
  | placeholder (indent : Indent) (name : Text) (rest : Outline)
  /-- A loop over the integers from one to another. -/
  | loop (indent : Indent) (name : Text) (start limit : Literal) (body rest : Outline)
  | when (indent : Indent) (condition : Text) (body rest : Outline)
  | choose (indent : Indent) (condition : Text) (body : Outline) (elseIndent : Indent)
    (otherwise rest : Outline)

def codeLine (indent : Indent) (code : Text) : Text := indent.text ++ ("<% " ++ code)

def placeholderLine (indent : Indent) (name : Text) : Text :=
  indent.text ++ ("<% " ++ (name ++ " %>"))

namespace Outline

/-- The lines of the template. -/
def lines : Outline → List Text
  | done => []
  | text indent content rest => (indent.text ++ content.text) :: rest.lines
  | placeholder indent name rest => placeholderLine indent name :: rest.lines
  | loop indent name start limit body rest =>
    codeLine indent (countHeader name start limit) :: (body.lines ++ rest.lines)
  | when indent condition body rest =>
    codeLine indent (whenHeader condition) :: (body.lines ++ rest.lines)
  | choose indent condition body elseIndent otherwise rest =>
    codeLine indent (whenHeader condition) ::
      (body.lines ++ codeLine elseIndent "else" :: (otherwise.lines ++ rest.lines))

/-- The source of the template: every line is ended. -/
def source (o : Outline) : Text := (o.lines.map (· ++ ['\n'])).flatten

/-- What the template stands for, given the conditions and the values of the loop variables: text
lines as they are, and the values of placeholders with nothing around them. -/
def eval (holds : Text → Bool) (values : Text → Int) : Outline → Text
  | done => []
  | text indent content rest =>
    indent.text ++ content.text ++ ['\n'] ++ rest.eval holds values
  | placeholder _ name rest => Number.integerText (values name) ++ rest.eval holds values
  | loop _ name start limit body rest =>
    ((Program.range start.toInt64.toInt limit.toInt64.toInt).flatMap fun i =>
      body.eval holds fun n => if n = name then i else values n) ++ rest.eval holds values
  | when _ condition body rest =>
    (if holds condition then body.eval holds values else []) ++ rest.eval holds values
  | choose _ condition body _ otherwise rest =>
    (if holds condition then body.eval holds values else otherwise.eval holds values)
      ++ rest.eval holds values

/-- The widths of the lines at this level. -/
def widths : Outline → List Nat
  | done => []
  | text indent _ rest | placeholder indent _ rest | loop indent _ _ _ _ rest
  | when indent _ _ rest | choose indent _ _ _ _ rest => indent.width :: rest.widths

/-- The lines at this level are inside a block of some width. -/
def Inside (width : Nat) (o : Outline) : Prop := ∀ w ∈ o.widths, width < w

/-- The lines at this level, if any, come behind a block of some width. -/
def Behind (width : Nat) (o : Outline) : Prop := ∀ w ∈ o.widths.head?, w ≤ width

/-- The indentation shows the tree. -/
def Laid : Outline → Prop
  | done => True
  | text _ _ rest | placeholder _ _ rest => rest.Laid
  | loop indent _ _ _ body rest | when indent _ body rest =>
    body.Inside indent.width ∧ body.Laid ∧ rest.Behind indent.width ∧ rest.Laid
  | choose indent _ body elseIndent otherwise rest =>
    elseIndent.width = indent.width ∧ body.Inside indent.width ∧ body.Laid ∧
      otherwise.Inside indent.width ∧ otherwise.Laid ∧ rest.Behind indent.width ∧ rest.Laid

instance (width : Nat) (o : Outline) : Decidable (o.Inside width) :=
  inferInstanceAs (Decidable (∀ w ∈ o.widths, width < w))

instance (width : Nat) (o : Outline) : Decidable (o.Behind width) :=
  inferInstanceAs (Decidable (∀ w ∈ o.widths.head?, w ≤ width))

instance decidableLaid : (o : Outline) → Decidable o.Laid
  | done => .isTrue trivial
  | text _ _ rest | placeholder _ _ rest => decidableLaid rest
  | loop indent _ _ _ body rest | when indent _ body rest =>
    have := decidableLaid body
    have := decidableLaid rest
    inferInstanceAs (Decidable (body.Inside indent.width ∧ body.Laid ∧
      rest.Behind indent.width ∧ rest.Laid))
  | choose indent _ body elseIndent otherwise rest =>
    have := decidableLaid body
    have := decidableLaid otherwise
    have := decidableLaid rest
    inferInstanceAs (Decidable (elseIndent.width = indent.width ∧ body.Inside indent.width ∧
      body.Laid ∧ otherwise.Inside indent.width ∧ otherwise.Laid ∧
        rest.Behind indent.width ∧ rest.Laid))

/-! ### The script of an outline -/

def program : Outline → Program
  | done => .done
  | text indent content rest => .print (indent.text ++ content.text) true rest.program
  | placeholder _ name rest => .write name rest.program
  | loop _ name start limit body rest => .count name start limit body.program rest.program
  | when _ condition body rest => .when condition body.program rest.program
  | choose _ condition body _ otherwise rest =>
    .choose condition body.program otherwise.program rest.program

/-- The script means what the outline means. -/
theorem eval_program (o : Outline) (holds : Text → Bool) (values : Text → Int) :
    o.program.eval holds values = o.eval holds values := by
  induction o generalizing values with
  | done => rfl
  | text indent content rest ih => rw [program, Program.eval, ih, eval, if_pos rfl]
  | placeholder indent name rest ih => rw [program, Program.eval, ih, eval]
  | loop indent name start limit body rest ihBody ihRest =>
    rw [program, Program.eval, ihRest, eval]
    congr 2
    funext i
    exact ihBody _
  | when indent condition body rest ihBody ihRest =>
    rw [program, Program.eval, ihBody, ihRest, eval]
  | choose indent condition body elseIndent otherwise rest ihBody ihOtherwise ihRest =>
    rw [program, Program.eval, ihBody, ihOtherwise, ihRest, eval]

end Outline
end Stencil
