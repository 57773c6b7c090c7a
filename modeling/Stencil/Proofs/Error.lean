import Stencil.Command.Report

/-! Errors behind includes.

An error of a rendering is the error of the template that failed, wrapped once for each include on
the way to it (`wrap_frames`). Message, category and suggestions are read off such a chain by a
recursion each; `wrap` builds a chain of any length, and one lemma for each of them says what the
chain adds. Of all that is told of an error, only the message and the causes know of the includes
(`told_of_innermost`). -/
namespace Stencil

namespace Error

/-- An error behind a chain of includes, the outermost first. -/
def wrap (e : Error) (frames : List Location) : Error := frames.foldr nestedInclude e

/-- How many includes an error is wrapped in. -/
def layers : Error → Nat
  | nestedInclude _ inner => inner.layers + 1
  | _ => 0

/-! ### Taking a chain apart -/

/-- An error is its innermost error, wrapped in its frames. -/
theorem wrap_frames (e : Error) : e.innermost.wrap e.frames = e := by
  induction e with
  | nestedInclude location inner ih => exact congrArg (nestedInclude location) ih
  | _ => rfl

theorem innermost_ne_nestedInclude (e : Error) (location : Location) (inner : Error) :
    e.innermost ≠ nestedInclude location inner := by
  induction e with
  | nestedInclude _ _ ih => exact ih
  | _ => exact Error.noConfusion

theorem length_frames (e : Error) : e.frames.length = e.layers := by
  induction e with
  | nestedInclude location inner ih => exact congrArg (· + 1) ih
  | _ => rfl

/-! ### Reading a chain -/

section

variable (e : Error) (frames : List Location)

theorem message_wrap :
    (e.wrap frames).message =
      (frames.flatMap fun frame : Location => frame.text ++ (": include failed\n" : Text))
        ++ e.message := by
  induction frames with
  | nil => rfl
  | cons frame rest ih =>
    rw [List.flatMap_cons, List.append_assoc, ← ih]
    rfl

theorem category_wrap : (e.wrap frames).category = e.category := by
  induction frames with
  | nil => rfl
  | cons frame rest ih => exact ih

theorem suggestions_wrap : (e.wrap frames).suggestions = e.suggestions := by
  induction frames with
  | nil => rfl
  | cons frame rest ih => exact ih

end

/-! ### The tool -/

open Command Failure

/-- The codes of errors keep apart what the user has to mend, what was not found and what the tool
itself is to blame for. -/
theorem categoryCode_iff (c : Category) :
    (categoryCode c = 2 ↔ c = .template ∨ c = .validation ∨ c = .execution) ∧
      (categoryCode c = 3 ↔ c = .notFound) ∧ (categoryCode c = 1 ↔ c = .internal) := by
  cases c <;> decide

/-- **An error behind includes is told as the innermost error is.** It has one frame for each
include that it is wrapped in, and an innermost error that is none. Its message goes through the
frames, from the outermost on, and ends in the message of the innermost error; category,
suggestions and exit code are those of the innermost error; and the tool names one cause for each
frame, in the order of the frames. -/
theorem told_of_innermost (e : Error) :
    ((∀ location inner, e.innermost ≠ nestedInclude location inner) ∧
      e.innermost.wrap e.frames = e ∧ e.frames.length = e.layers) ∧
    e.message =
      (e.frames.flatMap fun frame : Location => frame.text ++ (": include failed\n" : Text))
        ++ e.innermost.message ∧
    e.category = e.innermost.category ∧
    e.suggestions = e.innermost.suggestions ∧
    ((rendering e).exitCode = (rendering e.innermost).exitCode ∧
      ((rendering e).exitCode = 2 ↔
        e.category = .template ∨ e.category = .validation ∨ e.category = .execution) ∧
      ((rendering e).exitCode = 3 ↔ e.category = .notFound) ∧
      ((rendering e).exitCode = 1 ↔ e.category = .internal)) ∧
    (rendering e).causes =
      e.frames.map (fun frame : Location => ("included from " : Text) ++ frame.text) ∧
    (rendering e).causes.length = e.layers := by
  have hcategory : e.category = e.innermost.category := by
    rw [← category_wrap e.innermost e.frames, e.wrap_frames]
  have hcode : (rendering e).exitCode = categoryCode e.category := rfl
  have hcauses : (rendering e).causes =
      e.frames.map fun frame : Location => ("included from " : Text) ++ frame.text := rfl
  refine ⟨⟨e.innermost_ne_nestedInclude, e.wrap_frames, e.length_frames⟩, ?_, hcategory, ?_,
    ⟨?_, ?_⟩, hcauses, ?_⟩
  · rw [← message_wrap, e.wrap_frames]
  · rw [← suggestions_wrap e.innermost e.frames, e.wrap_frames]
  · rw [hcode, hcategory]
    rfl
  · rw [hcode]
    exact categoryCode_iff e.category
  · rw [hcauses, List.length_map, e.length_frames]

/-- A template that is missing behind two includes: the text names both, outermost first. -/
example :
    let here := fun (template : Text) line => Location.mk template (some line) (some line)
    let e := (templateNotFound [("c" : Text)]).wrap [here "a" 1, here "b" 3]
    e.innermost = templateNotFound [("c" : Text)] ∧ (rendering e).exitCode = 3 ∧
      (rendering e).causes.map String.ofList =
        ["included from a, template line 1, compiled line 1",
          "included from b, template line 3, compiled line 3"] := by
  decide +kernel

end Error
end Stencil
