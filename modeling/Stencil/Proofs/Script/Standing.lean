import Mathlib.Data.List.Induction
import Mathlib.Data.List.Nodup
import Stencil.Proofs.Script.Nesting

/-! The open blocks, from the history of a run.

A block that a line has opened stands as long as every line behind it is indented more and no
template has ended. The open blocks are those that stand (`after_eq_standing`), each indented more
than those around it (`pairwise_width_standing`), so a step closes the innermost of them, as many as
it does not keep (`standing_eq_append`), and a line stands at the depth of the others
(`placement_after`). -/
namespace Stencil.Nesting

/-! ### Blocks that stand -/

/-- A block and the step that opened it, by its number. -/
structure Opening where
  step : Nat
  block : OpenBlock
deriving Repr, DecidableEq

def Opening.width (o : Opening) : Nat := o.block.width

namespace Step

/-- The block that the step opens. -/
def opens? : Step → Option OpenBlock
  | line indent opens => opens.map (⟨indent, ·⟩)
  | continuation | closeAll => none

/-- Whether an open block stays open: a line has to be indented more than the block. -/
def keeps (o : Opening) : Step → Bool
  | line indent _ => decide (o.width < indent.length)
  | continuation => true
  | closeAll => false

end Step

/-- The blocks that have been opened, from the first to the last. -/
def openings (history : List Step) : List Opening :=
  history.zipIdx.filterMap fun (s, k) => s.opens?.map (Opening.mk k)

/-- The blocks that every step behind their opening has kept open. -/
def standing (history : List Step) : List Opening :=
  (openings history).filter fun o => (history.drop (o.step + 1)).all (Step.keeps o)

/-- What the step behind a history opens. -/
def openedBy (history : List Step) (s : Step) : List Opening :=
  (s.opens?.map (Opening.mk history.length)).toList

def keptBy (history : List Step) (s : Step) : List Opening := (standing history).filter (s.keeps ·)

/-- What the step behind a history closes, innermost first. -/
def closedBy (history : List Step) (s : Step) : List Opening :=
  ((standing history).filter fun o => !s.keeps o).reverse

/-- What the line that opened a block left open around it. -/
def around (history : List Step) (o : Opening) : List Opening :=
  keptBy (history.take o.step) (.line o.block.indent (some o.block.kind))

/-- The closing of a block, at the depth of the line that opened it. -/
def reported (history : List Step) (o : Opening) : ClosedBlock :=
  ⟨(around history o).length, o.block⟩

theorem keptBy_continuation (history : List Step) :
    keptBy history .continuation = standing history := List.filter_eq_self.2 fun _ _ => rfl

theorem keptBy_closeAll (history : List Step) : keptBy history .closeAll = [] :=
  List.filter_eq_nil_iff.2 fun _ _ => Bool.false_ne_true

theorem closedBy_continuation (history : List Step) : closedBy history .continuation = [] := by
  have hnone : (standing history).filter (fun o => !Step.keeps o .continuation) = [] :=
    List.filter_eq_nil_iff.2 fun _ _ => Bool.false_ne_true
  rw [closedBy, hnone, List.reverse_nil]

theorem closedBy_closeAll (history : List Step) :
    closedBy history .closeAll = (standing history).reverse :=
  congrArg List.reverse (List.filter_eq_self.2 fun _ _ => rfl)

section

variable {history : List Step} {s : Step} {o : Opening}

theorem openings_concat (history : List Step) (s : Step) :
    openings (history ++ [s]) = openings history ++ openedBy history s := by
  rw [openings, List.zipIdx_append, List.filterMap_append, Nat.zero_add]
  cases h : s.opens? <;> simp [openings, openedBy, h]

theorem mem_openedBy : o ∈ openedBy history s ↔
    o.step = history.length ∧ s.opens? = some o.block := by
  obtain ⟨step, block⟩ := o
  cases h : s.opens? <;> simp [openedBy, h, eq_comm, and_comm]

/-- A step opens one block at most. -/
theorem pairwise_openedBy (history : List Step) (s : Step) (R : Opening → Opening → Prop) :
    (openedBy history s).Pairwise R := by
  unfold openedBy
  cases s.opens? <;> simp

theorem step_lt_length (h : o ∈ openings history) : o.step < history.length := by
  induction history using List.reverseRecOn with
  | nil => cases h
  | append_singleton history s ih =>
    rw [openings_concat, List.mem_append] at h
    rw [List.length_append, List.length_singleton]
    cases h with
    | inl h => exact Nat.lt_succ_of_lt (ih h)
    | inr h =>
      have := (mem_openedBy.1 h).1
      omega

theorem mem_openings_of_mem_standing (h : o ∈ standing history) : o ∈ openings history :=
  List.mem_of_mem_filter h

theorem nodup_openings (history : List Step) : (openings history).Nodup := by
  induction history using List.reverseRecOn with
  | nil => exact .nil
  | append_singleton history s ih =>
    rw [openings_concat, List.nodup_append']
    refine ⟨ih, pairwise_openedBy history s _, fun o hold hnew => ?_⟩
    have := step_lt_length hold
    have := (mem_openedBy.1 hnew).1
    omega

theorem standing_concat (history : List Step) (s : Step) :
    standing (history ++ [s]) = keptBy history s ++ openedBy history s := by
  rw [standing, openings_concat, List.filter_append, keptBy, standing, List.filter_filter]
  congr 1
  · apply List.filter_congr
    intro o ho
    have hstep := step_lt_length ho
    rw [List.drop_append_of_le_length hstep, List.all_append, List.all_cons, List.all_nil,
      Bool.and_true, Bool.and_comm]
  · rw [List.filter_eq_self]
    intro o ho
    rw [(mem_openedBy.1 ho).1, List.drop_of_length_le (by simp)]
    rfl

/-! ### Widths -/

/-- A step that keeps a block keeps those that are indented less. -/
theorem Step.keeps_mono {outer inner : Opening} (hwidth : outer.width < inner.width)
    (h : s.keeps inner = true) : s.keeps outer = true := by
  cases s with
  | line indent opens => exact decide_eq_true (Nat.lt_trans hwidth (of_decide_eq_true h))
  | continuation => rfl
  | closeAll => cases h

/-- A line that opens a block keeps what is indented less than the block. -/
theorem keeps_iff_of_mem_openedBy {outer : Opening} (h : o ∈ openedBy history s) :
    s.keeps outer = true ↔ outer.width < o.width := by
  have hopens := (mem_openedBy.1 h).2
  cases s with
  | line indent opens =>
    obtain ⟨kind, _, hblock⟩ := Option.map_eq_some_iff.1 hopens
    rw [Opening.width, Opening.width, ← hblock]
    exact decide_eq_true_iff
  | continuation => cases hopens
  | closeAll => cases hopens

/-- **Each block that stands is indented more than those around it.** -/
theorem pairwise_width_standing (history : List Step) :
    (standing history).Pairwise fun outer inner => outer.width < inner.width := by
  induction history using List.reverseRecOn with
  | nil => exact .nil
  | append_singleton history s ih =>
    rw [standing_concat, List.pairwise_append]
    refine ⟨ih.filter _, pairwise_openedBy history s _, fun outer houter inner hinner => ?_⟩
    exact (keeps_iff_of_mem_openedBy hinner).1 (List.mem_filter.1 houter).2

theorem nodup_standing (history : List Step) : (standing history).Nodup :=
  (nodup_openings history).filter _

/-- What a step closes is further in than what it keeps. -/
theorem standing_eq_append (history : List Step) (s : Step) :
    standing history = keptBy history s ++ (closedBy history s).reverse := by
  have hmono : (standing history).Pairwise fun outer inner =>
      s.keeps inner = true → s.keeps outer = true :=
    (pairwise_width_standing history).imp fun hwidth => Step.keeps_mono hwidth
  obtain ⟨htake, hdrop⟩ := takeWhile_dropWhile_eq_filter hmono
  rw [keptBy, closedBy, List.reverse_reverse, ← htake, ← hdrop, List.takeWhile_append_dropWhile]

/-- What stands around a block that still stands is what stood around it at first. -/
theorem around_eq_filter (h : o ∈ standing history) :
    around history o = (standing history).filter fun a => decide (a.width < o.width) := by
  induction history using List.reverseRecOn with
  | nil => cases h
  | append_singleton history s ih =>
    rw [standing_concat] at h ⊢
    rw [List.mem_append] at h
    -- the step keeps all that is indented less than the block, and opens nothing of that kind
    have hkeeps : ∀ a : Opening, a.width < o.width → s.keeps a = true := by
      intro a hwidth
      cases h with
      | inl h => exact Step.keeps_mono hwidth (List.mem_filter.1 h).2
      | inr h => exact (keeps_iff_of_mem_openedBy h).2 hwidth
    have hkept : (keptBy history s).filter (fun a => decide (a.width < o.width)) =
        (standing history).filter fun a => decide (a.width < o.width) := by
      rw [keptBy, List.filter_filter]
      apply List.filter_congr
      intro a _
      rw [Bool.eq_iff_iff, Bool.and_eq_true, decide_eq_true_eq]
      exact ⟨And.left, fun hwidth => ⟨hwidth, hkeeps a hwidth⟩⟩
    have hnone : (openedBy history s).filter (fun a => decide (a.width < o.width)) = [] := by
      rw [List.filter_eq_nil_iff]
      intro a ha hwidth
      exact Nat.lt_irrefl _
        ((keeps_iff_of_mem_openedBy ha).1 (hkeeps a (of_decide_eq_true hwidth)))
    rw [List.filter_append, hkept, hnone, List.append_nil]
    cases h with
    | inl h =>
      have hstanding := (List.mem_filter.1 h).1
      have hstep := step_lt_length (mem_openings_of_mem_standing hstanding)
      rw [around, List.take_append_of_le_length (Nat.le_of_lt hstep), ← around, ih hstanding]
    | inr h =>
      rw [around, (mem_openedBy.1 h).1, List.take_left]
      rfl

/-- The blocks further out than one that stands are those around it. -/
theorem eq_around {outer inner : List Opening} (h : standing history = outer ++ o :: inner) :
    outer = around history o := by
  have hstanding : o ∈ standing history := by
    rw [h]
    exact List.mem_append_right _ List.mem_cons_self
  have hpairwise := pairwise_width_standing history
  rw [h, List.pairwise_append, List.pairwise_cons] at hpairwise
  obtain ⟨_, ⟨hinner, _⟩, houter⟩ := hpairwise
  have hself : outer.filter (fun a => decide (a.width < o.width)) = outer := by
    rw [List.filter_eq_self]
    exact fun a ha => decide_eq_true (houter a ha o List.mem_cons_self)
  have hnone : (o :: inner).filter (fun a => decide (a.width < o.width)) = [] := by
    rw [List.filter_eq_nil_iff, List.forall_mem_cons]
    refine ⟨by simp, fun a ha => ?_⟩
    have := hinner a ha
    rw [decide_eq_true_eq]
    omega
  rw [around_eq_filter hstanding, h, List.filter_append, hself, hnone, List.append_nil]

/-! ### The stack -/

theorem enclosing_standing (history : List Step) (width : Nat) :
    enclosing ((standing history).reverse.map Opening.block) width =
      ((standing history).filter fun o => decide (o.width < width)).reverse.map Opening.block := by
  rw [enclosing, List.dropWhile_map]
  exact congrArg _ (split_reverse (pairwise_width_standing history) width).2

/-- **The open blocks are those that stand**, innermost first. -/
theorem after_eq_standing (history : List Step) :
    after history = (standing history).reverse.map Opening.block := by
  induction history using List.reverseRecOn with
  | nil => rfl
  | append_singleton history s ih =>
    rw [after_concat, ih, standing_concat, List.reverse_append, List.map_append]
    cases s with
    | line indent opens =>
      show afterLine _ indent opens = _
      unfold afterLine
      rw [enclosing_standing]
      cases opens with
      | none => rfl
      | some kind => rfl
    | continuation =>
      rw [keptBy_continuation]
      rfl
    | closeAll =>
      rw [keptBy_closeAll]
      rfl

theorem closeAll_after (history : List Step) :
    (after history).closeAll = (standing history).reverse.map (reported history) := by
  rw [after_eq_standing]
  apply closeAll_map
  intro o outer hsuffix
  obtain ⟨inner, hinner⟩ := hsuffix
  have hsplit : standing history = outer.reverse ++ o :: inner.reverse := by
    rw [← List.reverse_reverse (standing history), ← hinner]
    simp
  rw [← eq_around hsplit, List.length_reverse]

/-- **Where a line goes.** -/
theorem placement_after (history : List Step) (indent : Text) (opens : Option BlockKind) :
    (after history).placement indent =
      { depth := (keptBy history (.line indent opens)).length
        closed := (closedBy history (.line indent opens)).map (reported history)
        leftover := indent.drop (((keptBy history (.line indent opens)).getLast?.map
          Opening.width).getD 0) } := by
  have henclosing : (after history).enclosing indent.length =
      (keptBy history (.line indent opens)).reverse.map Opening.block := by
    rw [after_eq_standing, enclosing_standing]
    rfl
  have hclosed : (after history).closeAll.takeWhile
      (fun c => decide (indent.length ≤ c.block.width)) =
        (closedBy history (.line indent opens)).map (reported history) := by
    have hnot : (fun o => !Step.keeps o (.line indent opens)) =
        fun o => decide (indent.length ≤ o.width) := by
      funext o
      rw [Step.keeps, ← decide_not, decide_eq_decide, Nat.not_lt]
    rw [closeAll_after, List.takeWhile_map, closedBy, hnot]
    exact congrArg _ (split_reverse (pairwise_width_standing history) indent.length).1
  unfold placement Nesting.depth
  dsimp only
  rw [hclosed, henclosing, List.length_map, List.length_reverse, List.head?_map,
    List.head?_reverse, Option.map_map]
  rfl

end

end Stencil.Nesting
