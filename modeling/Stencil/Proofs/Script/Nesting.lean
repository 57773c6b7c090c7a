import Stencil.Script.Basic
import Stencil.Script.Nesting

/-! What the open blocks answer, step by step.

A run is any sequence of fresh lines, further statements for a line and ends of a template, from no
open block at all. Only the differences between the indentations of its lines matter: when all of
them are moved behind a common margin, every statement stays where it was and every block closes
where it did, and the margin shows only where no block is open (`answers_withMargin`). -/
namespace Stencil

/-- What a predicate takes off the front is all that satisfies it, if nothing behind does once
something has not. -/
theorem takeWhile_dropWhile_eq_filter {α : Type} {p : α → Bool} {l : List α}
    (h : l.Pairwise fun a b => p b = true → p a = true) :
    l.takeWhile p = l.filter p ∧ l.dropWhile p = l.filter fun a => !p a := by
  induction l with
  | nil => exact ⟨rfl, rfl⟩
  | cons a l ih =>
    obtain ⟨ha, hl⟩ := List.pairwise_cons.1 h
    obtain ⟨htake, hdrop⟩ := ih hl
    by_cases hpa : p a = true
    · rw [List.takeWhile_cons_of_pos hpa, List.dropWhile_cons_of_pos hpa,
        List.filter_cons_of_pos hpa, List.filter_cons_of_neg (by simpa using hpa), htake, hdrop]
      exact ⟨rfl, rfl⟩
    · have hnone : ∀ b ∈ l, ¬ p b = true := fun b hb hpb => hpa (ha b hb hpb)
      rw [List.takeWhile_cons_of_neg hpa, List.dropWhile_cons_of_neg hpa,
        List.filter_eq_nil_iff.2 (by simpa [hpa] using hnone),
        List.filter_eq_self.2 (by simpa [hpa] using hnone)]
      exact ⟨rfl, rfl⟩

/-- Of blocks that are indented more and more, those not indented less than a line are the innermost
ones. -/
theorem split_reverse {α : Type} {width : α → Nat} {l : List α}
    (h : l.Pairwise fun outer inner => width outer < width inner) (line : Nat) :
    l.reverse.takeWhile (fun a => decide (line ≤ width a)) =
        (l.filter fun a => decide (line ≤ width a)).reverse ∧
      l.reverse.dropWhile (fun a => decide (line ≤ width a)) =
        (l.filter fun a => decide (width a < line)).reverse := by
  have hmono : l.reverse.Pairwise fun inner outer =>
      decide (line ≤ width outer) = true → decide (line ≤ width inner) = true := by
    refine (List.pairwise_reverse.2 h).imp fun {inner outer} hlt => ?_
    simp only [decide_eq_true_eq]
    omega
  obtain ⟨htake, hdrop⟩ := takeWhile_dropWhile_eq_filter hmono
  rw [htake, hdrop, List.filter_reverse, List.filter_reverse]
  refine ⟨rfl, congrArg List.reverse (List.filter_congr fun a _ => ?_)⟩
  rw [← decide_not, decide_eq_decide, Nat.not_le]

namespace Nesting

/-- The depths are right when each counts the blocks that are further out. -/
theorem closeAll_map {α : Type} {block : α → OpenBlock} {depth : α → Nat} {os : List α}
    (h : ∀ o outer, (o :: outer) <:+ os → outer.length = depth o) :
    closeAll (os.map block) = os.map fun o => ⟨depth o, block o⟩ := by
  induction os with
  | nil => rfl
  | cons o outer ih =>
    have hrest := ih fun a as has => h a as (has.trans (List.suffix_cons o outer))
    rw [List.map_cons, closeAll, List.length_map, h o outer (List.suffix_refl _), hrest]
    rfl

/-! ### Steps -/

inductive Step
  /-- A fresh line with this indentation, which may open a block of its own. -/
  | line (indent : Text) (opens : Option BlockKind)
  /-- One more statement for the line. -/
  | continuation
  /-- The end of a template. -/
  | closeAll
deriving Repr, DecidableEq

/-- What a step answers: the indentation of a statement, where a line goes, the blocks that are
closed. -/
inductive Answer
  | line (emitted : Text) (place : Placement)
  | continuation (emitted : Text)
  | closeAll (closed : List ClosedBlock)
deriving Repr, DecidableEq

variable (unit : Nat) (n : Nesting)

def answer : Step → Answer
  | .line indent _ => .line (indentText unit (n.placement indent).depth) (n.placement indent)
  | .continuation => .continuation (indentText unit n.depth)
  | .closeAll => .closeAll n.closeAll

/-- The open blocks after a step. -/
def next : Step → Nesting
  | .line indent opens => n.afterLine indent opens
  | .continuation => n
  | .closeAll => []

/-- What the steps answer, one after the other. -/
def answers (n : Nesting) : List Step → List Answer
  | [] => []
  | step :: rest => n.answer unit step :: answers (n.next step) rest

/-- The open blocks after some steps, from none at all. -/
def after (steps : List Step) : Nesting := steps.foldl next []

theorem after_concat (steps : List Step) (step : Step) :
    after (steps ++ [step]) = (after steps).next step := by
  rw [after, List.foldl_append]
  rfl

end Nesting

/-! ### Margins -/

/-- The block as it stands behind a margin. -/
def OpenBlock.withMargin (margin : Text) (b : OpenBlock) : OpenBlock :=
  { b with indent := margin ++ b.indent }

def ClosedBlock.withMargin (margin : Text) (c : ClosedBlock) : ClosedBlock :=
  { c with block := c.block.withMargin margin }

/-- The place of a line behind a margin. The block that is open around the line has taken the margin
already, so that it is left over only where there is none. -/
def Placement.withMargin (margin : Text) (p : Placement) : Placement :=
  { depth := p.depth
    closed := p.closed.map (ClosedBlock.withMargin margin)
    leftover := if p.depth = 0 then margin ++ p.leftover else p.leftover }

theorem OpenBlock.width_withMargin (margin : Text) (b : OpenBlock) :
    (b.withMargin margin).width = margin.length + b.width := List.length_append

namespace Nesting

def Step.withMargin (margin : Text) : Step → Step
  | line indent opens => line (margin ++ indent) opens
  | continuation => continuation
  | closeAll => closeAll

def Answer.withMargin (margin : Text) : Answer → Answer
  | line emitted place => line emitted (place.withMargin margin)
  | continuation emitted => continuation emitted
  | closeAll closed => closeAll (closed.map (ClosedBlock.withMargin margin))

variable (margin : Text) (n : Nesting)

theorem closeAll_withMargin : closeAll (n.map (OpenBlock.withMargin margin)) =
    n.closeAll.map (ClosedBlock.withMargin margin) := by
  induction n with
  | nil => rfl
  | cons block outer ih =>
    rw [List.map_cons, closeAll, closeAll, List.map_cons, ih, List.length_map]
    rfl

/-- The comparison that decides what a line closes. -/
theorem width_le_withMargin (indent : Text) (b : OpenBlock) :
    decide ((margin ++ indent).length ≤ (b.withMargin margin).width) =
      decide (indent.length ≤ b.width) := by
  rw [decide_eq_decide, b.width_withMargin, List.length_append, Nat.add_le_add_iff_left]

theorem enclosing_withMargin (indent : Text) :
    enclosing (n.map (OpenBlock.withMargin margin)) (margin ++ indent).length =
      (n.enclosing indent.length).map (OpenBlock.withMargin margin) := by
  unfold enclosing
  rw [List.dropWhile_map, Function.comp_def]
  simp only [width_le_withMargin]

theorem placement_withMargin (indent : Text) :
    placement (n.map (OpenBlock.withMargin margin)) (margin ++ indent) =
      (n.placement indent).withMargin margin := by
  have hclosed : (closeAll (n.map (OpenBlock.withMargin margin))).takeWhile
      (fun c => decide ((margin ++ indent).length ≤ c.block.width)) =
        (n.closeAll.takeWhile fun c => decide (indent.length ≤ c.block.width)).map
          (ClosedBlock.withMargin margin) := by
    rw [closeAll_withMargin, List.takeWhile_map]
    congr 2
    funext c
    exact width_le_withMargin margin indent c.block
  unfold placement Placement.withMargin
  dsimp only
  rw [enclosing_withMargin, hclosed]
  -- the margin is cut off together with the indentation of the innermost block, if there is one
  cases n.enclosing indent.length with
  | nil => rfl
  | cons innermost outer =>
    simp [depth, OpenBlock.width_withMargin, List.drop_append]

theorem answer_withMargin (unit : Nat) (step : Step) :
    answer unit (n.map (OpenBlock.withMargin margin)) (step.withMargin margin) =
      (n.answer unit step).withMargin margin := by
  cases step with
  | line indent opens =>
    show Answer.line _ (placement _ (margin ++ indent)) = _
    rw [placement_withMargin]
    rfl
  | continuation =>
    show Answer.continuation (indentText unit (depth (n.map _))) = _
    rw [depth, List.length_map]
    rfl
  | closeAll =>
    show Answer.closeAll (closeAll (n.map _)) = _
    rw [closeAll_withMargin]
    rfl

theorem next_withMargin (step : Step) :
    next (n.map (OpenBlock.withMargin margin)) (step.withMargin margin) =
      (n.next step).map (OpenBlock.withMargin margin) := by
  cases step with
  | line indent opens =>
    show afterLine (n.map _) (margin ++ indent) opens = (n.afterLine indent opens).map _
    unfold afterLine
    rw [enclosing_withMargin]
    cases opens with
    | none => rfl
    | some kind => rfl
  | continuation => rfl
  | closeAll => rfl

/-- A run behind a margin goes as the run without it, from blocks behind the margin. -/
theorem run_withMargin (unit : Nat) (steps : List Step) (n : Nesting) :
    answers unit (n.map (OpenBlock.withMargin margin)) (steps.map (Step.withMargin margin)) =
        (n.answers unit steps).map (Answer.withMargin margin) ∧
      (steps.map (Step.withMargin margin)).foldl next (n.map (OpenBlock.withMargin margin)) =
        (steps.foldl next n).map (OpenBlock.withMargin margin) := by
  induction steps generalizing n with
  | nil => exact ⟨rfl, rfl⟩
  | cons step rest ih =>
    obtain ⟨hanswers, hafter⟩ := ih (n.next step)
    rw [List.map_cons, answers, List.foldl_cons, answer_withMargin, next_withMargin, hanswers,
      hafter]
    exact ⟨rfl, rfl⟩

/-- **A common margin is invisible to the block structure.** Behind a margin every step of a run
answers what it answers without it: the same indentation for the statement, and the same blocks
closed at the same depths. The margin is seen only on the blocks themselves and in what is left over
where no block is open. -/
theorem answers_withMargin (unit : Nat) (steps : List Step) :
    answers unit [] (steps.map (Step.withMargin margin)) =
        (answers unit [] steps).map (Answer.withMargin margin) ∧
      after (steps.map (Step.withMargin margin)) =
        (after steps).map (OpenBlock.withMargin margin) :=
  run_withMargin margin unit steps []

/-- A loop in a conditional, behind a margin of a tab. -/
example :
    answers 2 [] ([.line [] (some .conditional), .line " " (some .loop), .line "   " none,
        .line [] none].map (Step.withMargin "\t")) =
      [.line [] ⟨0, [], "\t"⟩, .line "  " ⟨1, [], " "⟩, .line "    " ⟨2, [], "  "⟩,
        .line [] ⟨0, [⟨1, ⟨"\t ", .loop⟩⟩, ⟨0, ⟨"\t", .conditional⟩⟩], "\t"⟩] := by
  decide

end Nesting
end Stencil
