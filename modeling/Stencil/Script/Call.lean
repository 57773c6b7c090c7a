import Stencil.Lua.Quote

/-! Calls that write output at the indentation of their line.

A code line that begins with a call of `print` or `include` is compiled to a call of the
counterpart that takes the indentation to write as its first argument. `CodeLine.ofCode?` takes
such a line apart and fails when the call is not closed on the line. -/
namespace Stencil

/-- A code line, with the leading call of an indented writer taken apart. -/
inductive CodeLine
  | plain (code : Text)
  | call (callee arguments rest : Text)
deriving Repr, DecidableEq

namespace CodeLine

/-- The writers and their indented counterparts. -/
def writers : List (Text × Text) := [("print", "__print"), ("include", "__include")]

/-- The code as a call of one writer. None when it does not begin with that call; the inner option
is none when the call is not closed. -/
def asCall? (code name counterpart : Text) : Option (Option CodeLine) :=
  match Text.after? name code with
  | some ('(' :: _) =>
    some <| (Lua.closingParen? code name.length).map fun closing =>
      let arguments := (code.take closing).drop (name.length + 1)
      .call counterpart (Text.trim arguments) (code.drop (closing + 1))
  | _ => none

/-- The line of this code, unless it begins with a call that is not closed. -/
def ofCode? (code : Text) : Option CodeLine :=
  (writers.findSome? fun (name, counterpart) => asCall? code name counterpart).getD
    (some (.plain code))

/-- The statement for the line, at an indentation of `leftover` within its block. -/
def statement (leftover : Text) : CodeLine → Text
  | plain code => code
  | call callee arguments rest =>
    let first := if arguments = [] then Lua.quote leftover else Lua.quote leftover ++ ", "
    callee ++ "(" ++ first ++ arguments ++ ")" ++ rest

end CodeLine
end Stencil
