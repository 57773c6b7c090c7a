import Stencil.Error

/-! How the tool tells that it has failed.

Every failure has a message, suggestions, an exit code and, for those who want to know more, a list
of causes. -/
namespace Stencil.Command

inductive Failure
  /-- A variable that was defined on the command line. -/
  | definition (fault : InputError)
  | configuration (message : Text) (cause : Option Error)
  | rendering (error : Error)
  /-- Something of the system, and what the system said. -/
  | system (message cause : Text)
deriving Repr, DecidableEq

namespace Failure

def message : Failure → Text
  | definition fault => "Invalid input: " ++ fault.message
  | configuration message _ => "Configuration error: " ++ message
  | rendering e => e.message
  | system message _ => "I/O error: " ++ message

def suggestions : Failure → List Text
  | definition fault =>
    ["Check your input: " ++ fault.message, "Use --help for usage information"]
  | configuration message _ =>
    ["Configuration issue: " ++ message,
      "Check the config file shown by 'kiln config path' and .kiln.toml",
      "Use 'kiln init --force' to write a default config"]
  | rendering e => e.suggestions
  | system message _ =>
    ["I/O operation failed: " ++ message, "Check file permissions",
      "Ensure the parent directory exists"]

/-- The code for an error of rendering: of the user, for something that was not found, or of the
tool. -/
def categoryCode : Category → Nat
  | .template | .validation | .execution => 2
  | .notFound => 3
  | .internal => 1

def exitCode : Failure → Nat
  | definition _ => 2
  | configuration .. => 4
  | rendering e => categoryCode e.category
  | system .. => 1

/-- The includes that led to an error of rendering, the outermost first, or what is behind another
failure. -/
def causes : Failure → List Text
  | definition fault => [fault.message]
  | configuration _ cause => (cause.map Error.message).toList
  | rendering e => e.frames.map fun l => "included from " ++ l.text
  | system _ cause => [cause]

def lines (ts : List Text) : Text := (ts.map (· ++ ['\n'])).flatten

/-- The report of a failure; with the causes, or with a hint at how to see them. -/
def report (f : Failure) (isVerbose : Bool) : Text :=
  let causes : List Text := if isVerbose then f.causes.map ("  Caused by: " ++ ·) else []
  let hint : Text := if isVerbose then [] else "\nUse -v / --verbose for more details.\n"
  "\nError: " ++ f.message ++ "\n" ++ lines causes
    ++ "\nSuggestions:\n" ++ lines (f.suggestions.map ("  " ++ ·)) ++ hint

end Failure
end Stencil.Command
