import Mathlib.Data.List.DropRight
import Mathlib.Data.List.Nodup
import Stencil.Proofs.Script.Extent
import Stencil.Proofs.Script.Nesting

/-! Every block is closed once, where the indentation says so.

`Item.segment` puts down what appears at a line, from the extents of the blocks alone: the closings
of the blocks that are over, innermost first and without those that the line takes over, the blank
lines that wait, and the statements of the line itself, at the depth of as many blocks as contain
the line. `lay_stateAt` is one step: the layout, whose stack holds the blocks that reach up to the
line, puts out exactly the segment. `compile_closes` says it of a whole template. -/
namespace Stencil

/-! ### Lines that take a block over -/

namespace BlockKind

/-- The words by which a line continues or closes a block of a kind itself. -/
def Fits (kind : BlockKind) (code : Text) : Prop :=
  (kind = conditional ∧ (code.startsWithWord "else" ∨ code.startsWithWord "elseif")) ∨
  (kind = repetition ∧ code.startsWithWord "until") ∨
  (kind ≠ repetition ∧ code.startsWithWord "end")

instance (kind : BlockKind) (code : Text) : Decidable (kind.Fits code) := by
  unfold Fits
  infer_instance

theorem eq_append_of_startsWithWord {code word : Text} (h : code.startsWithWord word = true) :
    ∃ rest, code = word ++ rest := by
  unfold Text.startsWithWord at h
  split at h
  · next rest hrest => exact ⟨rest, Text.after?_eq_some_iff.1 hrest⟩
  · cases h

/-- A line cannot start with two words that part in their first two characters. -/
theorem not_startsWithWord {code : Text} {a b c d : Char} {word other : Text}
    (h : code.startsWithWord (a :: b :: word) = true) (hne : a ≠ c ∨ b ≠ d) :
    code.startsWithWord (c :: d :: other) = false := by
  rw [← Bool.not_eq_true]
  intro hother
  obtain ⟨_, rfl⟩ := eq_append_of_startsWithWord h
  obtain ⟨_, heq⟩ := eq_append_of_startsWithWord hother
  simp only [List.cons_append, List.cons.injEq] at heq
  exact hne.elim (· heq.1) (· heq.2.1)

theorem takenOverBy_iff {kind : BlockKind} {code : Text} :
    kind.takenOverBy code = true ↔ kind.Fits code := by
  have huntil : code.startsWithWord "else" = true ∨ code.startsWithWord "elseif" = true →
      code.startsWithWord "until" = false := fun h =>
    h.elim (not_startsWithWord · (.inl (by decide))) (not_startsWithWord · (.inl (by decide)))
  have hend : code.startsWithWord "else" = true ∨ code.startsWithWord "elseif" = true →
      code.startsWithWord "end" = false := fun h =>
    h.elim (not_startsWithWord · (.inr (by decide))) (not_startsWithWord · (.inr (by decide)))
  have hboth : code.startsWithWord "until" = true → code.startsWithWord "end" = false :=
    (not_startsWithWord · (.inl (by decide)))
  unfold takenOverBy Fits
  generalize code.startsWithWord "else" = startsElse at *
  generalize code.startsWithWord "elseif" = startsElseif at *
  generalize code.startsWithWord "until" = startsUntil at *
  generalize code.startsWithWord "end" = startsEnd at *
  cases kind <;> grind

end BlockKind

namespace Item

/-! ### What appears at a line -/

/-- Whether line `j` takes over the block of an opener: a code line at its very indentation that
continues or closes a block of its kind. -/
def takesOver (items : List Item) (j : Nat) (o : Opener) : Bool :=
  match items[j]? with
  | some (code indent text _) => indent.length == o.block.width && decide (o.block.kind.Fits text)
  | _ => false

/-- The openers whose blocks are closed before line `j`, innermost first. -/
def dueAt (items : List Item) (j : Nat) : List Opener :=
  ((endingAt items j).filter fun o => !takesOver items j o).reverse

/-- What closes the block of an opener, at the depth of the opener itself. -/
def closer (items : List Item) (o : Opener) : Statement :=
  ⟨depthAt items o.line, o.block.kind.closer, .phantom⟩

/-- The statements of the blank lines right before line `j`. -/
def waitingAt (items : List Item) (j : Nat) : List Text :=
  ((items.take j).rtakeWhile isBlank).flatMap (texts [])

/-- The indentation of a line beyond that of the innermost block that contains it. -/
def leftoverAt (items : List Item) (j : Nat) (indent : Text) : Text :=
  indent.drop (((containing items j).getLast?.map (·.block.width)).getD 0)

/-- The statements that line `j` itself generates, and none at the end of the template. -/
def ownAt (items : List Item) (j : Nat) : List Statement :=
  match items[j]? with
  | some item =>
    realThenPhantoms (depthAt items j) (item.texts (leftoverAt items j item.indent))
  | none => []

/-- What appears at line `j`, or at the end of the template when there is no such line. A blank
line waits for a line that is not. -/
def segment (items : List Item) (j : Nat) : List Statement :=
  if (items[j]?).any isBlank then []
  else (dueAt items j).map (closer items) ++ (waitingAt items j).map (realAt (depthAt items j))
    ++ ownAt items j

/-! ### The stack of open blocks -/

/-- Where the layout stands before line `j`. -/
def stateAt (items : List Item) (j : Nat) : State :=
  ⟨(reaching items j).reverse.map Opener.block, waitingAt items j⟩

end Item

namespace Item

variable {items : List Item} {j : Nat}

/-- The blocks on the stack have the depths of their openers. -/
theorem closeAll_stateAt (hj : j ≤ items.length) :
    (stateAt items j).nesting.closeAll =
      (reaching items j).reverse.map fun o => ⟨depthAt items o.line, o.block⟩ := by
  apply Nesting.closeAll_map
  intro o outer hsuffix
  obtain ⟨inner, hinner⟩ := hsuffix
  have hsplit : reaching items j = outer.reverse ++ o :: inner.reverse := by
    rw [← List.reverse_reverse (reaching items j), ← hinner]
    simp
  rw [depthAt, containing_line hj hsplit, List.length_reverse]

/-- The blocks around a line of this width and those not around it, both innermost first. -/
theorem split_reaching (items : List Item) (j width : Nat) :
    (reaching items j).reverse.takeWhile (fun o => decide (width ≤ o.block.width)) =
        ((reaching items j).filter fun o => decide (width ≤ o.block.width)).reverse ∧
      (reaching items j).reverse.dropWhile (fun o => decide (width ≤ o.block.width)) =
        ((reaching items j).filter fun o => decide (o.block.width < width)).reverse :=
  split_reverse (pairwise_width_reaching items j) width

variable {item : Item}

theorem within_eq (hblank : item.isBlank = false) :
    (fun o : Opener => item.within o.block.width) =
      fun o => decide (o.block.width < item.indent.length) :=
  funext fun _ => within_of_isBlank_eq_false hblank _

/-- The blocks that a line leaves open are those that contain it. -/
theorem enclosing_stateAt (hitem : items[j]? = some item) (hblank : item.isBlank = false) :
    (stateAt items j).nesting.enclosing item.indent.length =
      (containing items j).reverse.map Opener.block := by
  rw [Nesting.enclosing, stateAt, List.dropWhile_map, Function.comp_def, (split_reaching _ _ _).2,
    containing_eq_filter hitem, within_eq hblank]

/-- The blocks that a line closes are those that end there. -/
theorem closed_stateAt (hitem : items[j]? = some item) (hblank : item.isBlank = false) :
    ((stateAt items j).nesting.placement item.indent).closed =
      (endingAt items j).reverse.map fun o => ⟨depthAt items o.line, o.block⟩ := by
  have hj : j < items.length := (List.getElem?_eq_some_iff.1 hitem).1
  have hnot : (fun o : Opener => !item.within o.block.width) =
      fun o => decide (item.indent.length ≤ o.block.width) := by
    funext o
    rw [within_of_isBlank_eq_false hblank, ← decide_not, decide_eq_decide, Nat.not_lt]
  show (stateAt items j).nesting.closeAll.takeWhile _ = _
  rw [closeAll_stateAt (Nat.le_of_lt hj), List.takeWhile_map, Function.comp_def,
    (split_reaching _ _ _).1, endingAt_eq_filter hitem, hnot]

/-- Where a line goes. -/
theorem placement_stateAt (hitem : items[j]? = some item) (hblank : item.isBlank = false) :
    (stateAt items j).nesting.placement item.indent =
      { depth := depthAt items j
        closed := (endingAt items j).reverse.map fun o => ⟨depthAt items o.line, o.block⟩
        leftover := leftoverAt items j item.indent } := by
  have hclosed := closed_stateAt hitem hblank
  rw [Nesting.placement] at hclosed ⊢
  rw [Placement.mk.injEq]
  refine ⟨?_, hclosed, ?_⟩
  · rw [enclosing_stateAt hitem hblank, Nesting.depth, List.length_map, List.length_reverse]
    rfl
  · rw [enclosing_stateAt hitem hblank, leftoverAt, List.head?_map, List.head?_reverse,
      Option.map_map]
    rfl

/-- The line that a block ends at is indented as far as the outermost of the blocks that end there
at most, so no other block can be taken over. -/
theorem closedBefore_endingAt {indent text : Text} {line : CodeLine}
    (hitem : items[j]? = some (code indent text line)) :
    closedBefore ((endingAt items j).reverse.map fun o => ⟨depthAt items o.line, o.block⟩)
        indent text =
      (dueAt items j).map fun o => ⟨depthAt items o.line, o.block⟩ := by
  have htakes : ∀ o, takesOver items j o =
      (indent.length == o.block.width && decide (o.block.kind.Fits text)) := by
    intro o
    rw [takesOver, hitem]
  have hends : ∀ o ∈ endingAt items j, indent.length ≤ o.block.width := by
    intro o ho
    rw [endingAt_eq_filter hitem] at ho
    have hnot := (List.mem_filter.1 ho).2
    rw [within_of_isBlank_eq_false rfl, ← decide_not, decide_eq_true_eq, Nat.not_lt] at hnot
    exact hnot
  have hpairwise : (endingAt items j).Pairwise fun a b => a.block.width < b.block.width := by
    rw [endingAt_eq_filter hitem]
    exact (pairwise_width_reaching items j).filter _
  rw [dueAt]
  generalize endingAt items j = ending at *
  cases ending with
  | nil => rfl
  | cons outermost inner =>
    obtain ⟨houtermost, _⟩ := List.pairwise_cons.1 hpairwise
    have hinner : inner.filter (fun o => !takesOver items j o) = inner := by
      rw [List.filter_eq_self]
      intro o ho
      have := houtermost o ho
      have := hends outermost List.mem_cons_self
      rw [htakes, Bool.not_eq_true', Bool.and_eq_false_iff, beq_eq_false_iff_ne]
      exact .inl (by omega)
    rw [List.reverse_cons, List.map_append, List.map_singleton, closedBefore,
      List.getLast?_append_of_ne_nil _ (by simp)]
    simp only [List.getLast?_singleton, List.dropLast_concat]
    by_cases hover : takesOver items j outermost = true
    · have hfits := htakes outermost ▸ hover
      rw [Bool.and_eq_true, beq_iff_eq, decide_eq_true_eq] at hfits
      rw [if_pos ⟨hfits.1.symm, BlockKind.takenOverBy_iff.2 hfits.2⟩,
        List.filter_cons_of_neg (by simpa using hover), hinner]
    · have hfits := htakes outermost ▸ hover
      rw [Bool.and_eq_true, beq_iff_eq, decide_eq_true_eq] at hfits
      rw [if_neg fun h => hfits ⟨h.1.symm, BlockKind.takenOverBy_iff.1 h.2⟩,
        List.filter_cons_of_pos (by simpa using hover), hinner, List.reverse_cons, List.map_append,
        List.map_singleton]

/-- The blocks on the stack behind a line. -/
theorem afterLine_stateAt (hitem : items[j]? = some item) (hblank : item.isBlank = false) :
    (stateAt items j).nesting.afterLine item.indent (item.opens?.map OpenBlock.kind) =
      (reaching items (j + 1)).reverse.map Opener.block := by
  unfold Nesting.afterLine
  rw [enclosing_stateAt hitem hblank, reaching_succ hitem]
  cases hopens : item.opens? with
  | none => simp
  | some block =>
    obtain ⟨_, hindent⟩ := of_opens? hopens
    simp [hindent]

theorem waitingAt_succ (hitem : items[j]? = some item) :
    waitingAt items (j + 1) =
      if item.isBlank then waitingAt items j ++ item.texts [] else [] := by
  obtain ⟨hj, rfl⟩ := List.getElem?_eq_some_iff.1 hitem
  rw [waitingAt, List.take_succ_eq_append_getElem hj, List.rtakeWhile_concat]
  by_cases hblank : items[j].isBlank = true
  · rw [if_pos hblank, if_pos hblank, List.flatMap_append, waitingAt]
    simp
  · rw [if_neg hblank, if_neg hblank]
    rfl

theorem segment_of_isBlank_eq_false (hitem : items[j]? = some item) (hblank : item.isBlank = false) :
    segment items j = (dueAt items j).map (closer items)
      ++ (waitingAt items j).map (realAt (depthAt items j))
      ++ realThenPhantoms (depthAt items j) (item.texts (leftoverAt items j item.indent)) := by
  rw [segment, ownAt, hitem, Option.any_some, hblank, if_neg Bool.false_ne_true]

/-- **A line puts out its segment**, and the stack is left with the blocks that reach up to the
next line. -/
theorem lay_stateAt (hitem : items[j]? = some item) :
    lay (stateAt items j) item = (segment items j, stateAt items (j + 1)) := by
  cases item with
  | blank statement =>
    have hsegment : segment items j = [] := by
      rw [segment, hitem]
      rfl
    have hreaching : reaching items (j + 1) = reaching items j := by
      rw [reaching_succ hitem, containing_eq_filter hitem]
      simp [within, isBlank, opens?]
    have hwaiting : waitingAt items (j + 1) = waitingAt items j ++ [statement] :=
      waitingAt_succ hitem
    rw [lay, hsegment, stateAt, stateAt, hreaching, hwaiting]
  | output indent statements =>
    have hplace : (stateAt items j).nesting.placement indent = _ := placement_stateAt hitem rfl
    have hnext : (stateAt items j).nesting.afterLine indent none = _ := afterLine_stateAt hitem rfl
    have hwaiting : waitingAt items (j + 1) = [] := waitingAt_succ hitem
    have hdue : (endingAt items j).reverse = dueAt items j := by
      rw [dueAt, List.filter_eq_self.2]
      intro o _
      rw [takesOver, hitem]
      rfl
    rw [lay, hplace, hnext, segment_of_isBlank_eq_false hitem rfl, hdue, List.map_map,
      stateAt, stateAt, hwaiting]
    rfl
  | code indent text line =>
    have hplace : (stateAt items j).nesting.placement indent = _ := placement_stateAt hitem rfl
    have hopens : (code indent text line).opens?.map OpenBlock.kind = BlockKind.opening? text := by
      simp [opens?, Function.comp_def]
    have hnext : (stateAt items j).nesting.afterLine indent (BlockKind.opening? text) = _ :=
      hopens ▸ afterLine_stateAt hitem rfl
    have hwaiting : waitingAt items (j + 1) = [] := waitingAt_succ hitem
    rw [lay, hplace, hnext, segment_of_isBlank_eq_false hitem rfl]
    dsimp only
    rw [closedBefore_endingAt hitem, List.map_map, stateAt, stateAt, hwaiting]
    rfl

/-- At the end everything that is open is closed, and the last blank lines follow. -/
theorem finish_stateAt : finish (stateAt items items.length) = segment items items.length := by
  have hnone : items[items.length]? = none := by simp
  have hdue : dueAt items items.length = (reaching items items.length).reverse := by
    rw [dueAt, endingAt_length, List.filter_eq_self.2]
    intro o _
    rw [takesOver, hnone]
    rfl
  have hdepth : depthAt items items.length = 0 := by
    rw [depthAt, containing_length]
    rfl
  rw [finish, closeAll_stateAt (Nat.le_refl _), segment, ownAt, hnone, hdue, hdepth, List.map_map,
    List.append_nil]
  rfl

/-- **The layout puts out the segments**, from any line on. -/
theorem statementsFrom_stateAt (rest : List Item) :
    ∀ j, items.drop j = rest → j ≤ items.length →
      statementsFrom (stateAt items j) rest =
        (List.range' j (rest.length + 1)).flatMap (segment items) := by
  induction rest with
  | nil =>
    intro j hrest hj
    obtain rfl : j = items.length := by
      have := congrArg List.length hrest
      rw [List.length_drop, List.length_nil] at this
      omega
    rw [statementsFrom, finish_stateAt]
    simp [List.range']
  | cons item rest ih =>
    intro j hrest hj
    have hitem : items[j]? = some item := by
      rw [← Nat.add_zero j, ← List.getElem?_drop, hrest]
      rfl
    have hj' : j < items.length := (List.getElem?_eq_some_iff.1 hitem).1
    have hdrop : items.drop (j + 1) = rest := by
      rw [← List.drop_drop, hrest]
      rfl
    rw [statementsFrom, lay_stateAt hitem]
    dsimp only
    rw [ih (j + 1) hdrop hj', List.length_cons, List.range'_succ (n := rest.length + 1),
      List.flatMap_cons]

theorem statements_eq_flatMap_segment (items : List Item) :
    statements items = (List.range (items.length + 1)).flatMap (segment items) := by
  have hstart : State.start = stateAt items 0 := by
    rw [stateAt, reaching_zero]
    rfl
  rw [statements, hstart, statementsFrom_stateAt items 0 rfl (Nat.zero_le _),
    List.range_eq_range']

/-! ### Each block once -/

theorem mem_dueAt {o : Opener} :
    o ∈ dueAt items j ↔ o ∈ openers items ∧ o.ends items = j ∧ takesOver items j o = false := by
  rw [dueAt, endingAt, List.mem_reverse, List.mem_filter, List.mem_filter, and_assoc, beq_iff_eq,
    Bool.not_eq_true']

theorem nodup_openers (items : List Item) : (openers items).Nodup :=
  (pairwise_line_openers items).imp fun {a b} hlt heq => by
    rw [heq] at hlt
    exact Nat.lt_irrefl _ hlt

/-- All the closings together are one for each block that no line takes over. -/
theorem perm_flatMap_dueAt (items : List Item) :
    ((List.range (items.length + 1)).flatMap (dueAt items)).Perm
      ((openers items).filter fun o => !takesOver items (o.ends items) o) := by
  have hdue : ((List.range (items.length + 1)).flatMap (dueAt items)).Nodup := by
    rw [List.nodup_flatMap]
    refine ⟨fun j _ => ?_, List.nodup_range.imp fun {i j} hne o hi hj => ?_⟩
    · exact List.nodup_reverse.2 (((nodup_openers items).filter _).filter _)
    · exact hne ((mem_dueAt.1 hi).2.1.symm.trans (mem_dueAt.1 hj).2.1)
  rw [List.perm_ext_iff_of_nodup hdue ((nodup_openers items).filter _)]
  intro o
  rw [List.mem_flatMap, List.mem_filter, Bool.not_eq_true']
  constructor
  · rintro ⟨j, _, ho⟩
    obtain ⟨hopener, rfl, htakes⟩ := mem_dueAt.1 ho
    exact ⟨hopener, htakes⟩
  · rintro ⟨hopener, htakes⟩
    have := Opener.ends_le_length hopener
    exact ⟨o.ends items, List.mem_range.2 (by omega), mem_dueAt.2 ⟨hopener, rfl, htakes⟩⟩

/-- The line that ends a block is not blank and not indented more than the opener. -/
theorem not_within_ends {o : Opener} (hitem : items[o.ends items]? = some item) :
    item.isBlank = false ∧ item.indent.length ≤ o.block.width := by
  have hwithin : ¬ item.within o.block.width = true := fun h =>
    Nat.lt_irrefl _ ((Opener.lt_ends_iff hitem Opener.line_lt_ends (Nat.le_refl _)).2 h)
  rw [within, Bool.or_eq_true, not_or, decide_eq_true_eq, Bool.not_eq_true] at hwithin
  exact ⟨hwithin.1, Nat.not_lt.1 hwithin.2⟩

end Item

namespace Template

/-- **Every block is closed once, where its indentation says so.** Of the lines that a template is
read into, each puts out its segment and nothing else does. A block ends at the first line behind
its opener that is neither blank nor indented more, or at the end of the template, and over the
whole script the closings are one for each block that the line at its end does not take over. -/
theorem compile_closes {d : Delimiters} {unit : Nat} {t : Template} {script : Script}
    (h : t.compile d unit = .ok script) :
    ∃ items, List.Forall₂ (fun line item => Item.ofLine d t.description line = .ok item)
        (Line.ofSource t.source) items ∧
      script.lines =
        script.statements.map (fun s => Text.spaces (script.indentUnit * s.depth) ++ s.text) ∧
      script.statements = (List.range (items.length + 1)).flatMap (Item.segment items) ∧
      (∀ o ∈ Item.openers items, o.line < o.ends items ∧ o.ends items ≤ items.length ∧
        (∀ k item, o.line < k → k < o.ends items → items[k]? = some item →
          item.isBlank = true ∨ o.block.width < item.indent.length) ∧
        ∀ item, items[o.ends items]? = some item →
          item.isBlank = false ∧ item.indent.length ≤ o.block.width) ∧
      ((List.range (items.length + 1)).flatMap (Item.dueAt items)).Perm
        ((Item.openers items).filter fun o => !Item.takesOver items (o.ends items) o) := by
  obtain ⟨items, hitems, hstatements⟩ := items_of_compile h
  refine ⟨items, hitems, rfl, ?_, ?_, Item.perm_flatMap_dueAt items⟩
  · rw [hstatements, Item.statements_eq_flatMap_segment]
  · intro o ho
    refine ⟨Opener.line_lt_ends, Opener.ends_le_length ho, ?_, fun _ => Item.not_within_ends⟩
    intro k item hline hk hitem
    have hwithin := Opener.within_of_lt_ends hitem hline hk
    rwa [Item.within, Bool.or_eq_true, decide_eq_true_eq] at hwithin

/-- Two blocks end at one line, which takes over the outer one; its own ends at the next line. -/
theorem compile_closes_else :
    ∃ script, (inline "<% if a then\n <% for i = 1, 2 do\n  x\n<% else\ny".toList).compile
        .standard 2 = .ok script ∧
      script.lines = ["if a then".toList, "  for i = 1, 2 do".toList, "    print('  x')".toList,
        "  end".toList, "else".toList, "end".toList, "print('y', \"\")".toList] ∧
      ∃ items : List Item, items.length = 5 ∧
        script.statements = (List.range (items.length + 1)).flatMap (Item.segment items) := by
  have hcompile : (inline "<% if a then\n <% for i = 1, 2 do\n  x\n<% else\ny".toList).compile
        .standard 2 = .ok ⟨2, [⟨0, "if a then", .real⟩, ⟨1, "for i = 1, 2 do", .real⟩,
          ⟨2, "print('  x')", .real⟩, ⟨1, "end", .phantom⟩, ⟨0, "else", .real⟩,
          ⟨0, "end", .phantom⟩, ⟨0, "print('y', \"\")", .real⟩]⟩ :=
    compile_eq_of_toOption (by decide +kernel)
  obtain ⟨items, hitems, hlines, hstatements, _⟩ := compile_closes hcompile
  exact ⟨_, hcompile, hlines, items, hitems.length_eq.symm, hstatements⟩

end Template
end Stencil
