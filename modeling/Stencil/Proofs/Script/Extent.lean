import Stencil.Proofs.Script.Items

/-! Blocks as the indentation of a template shows them.

Nothing here looks at a stack. A block begins at a code line that opens one, its extent are the
lines behind that are blank or indented more, and the line behind the extent ends it. The blocks
that reach up to a line are known from those of the line before (`reaching_succ`), and each of them
stands further to the right than those that began before it (`pairwise_width_reaching`). -/
namespace Stencil

/-- A line that opens a block. -/
structure Opener where
  line : Nat
  block : OpenBlock
deriving Repr, DecidableEq

namespace Item

def isBlank : Item → Bool
  | blank _ => true
  | output _ _ | code _ _ _ => false

/-- The block that the line opens. -/
def opens? : Item → Option OpenBlock
  | code indent text _ => (BlockKind.opening? text).map (⟨indent, ·⟩)
  | blank _ | output _ _ => none

/-- Whether the line is blank or indented by more than `width` characters. -/
def within (width : Nat) (item : Item) : Bool := item.isBlank || decide (width < item.indent.length)

/-- A line that opens a block is not blank, and the block stands where the line does. -/
theorem of_opens? {item : Item} {block : OpenBlock} (h : item.opens? = some block) :
    item.isBlank = false ∧ item.indent = block.indent := by
  cases item with
  | blank statement => cases h
  | output indent statements => cases h
  | code indent text line =>
    obtain ⟨kind, _, rfl⟩ := Option.map_eq_some_iff.1 h
    exact ⟨rfl, rfl⟩

theorem within_of_isBlank_eq_false {item : Item} (h : item.isBlank = false) (width : Nat) :
    item.within width = decide (width < item.indent.length) := by
  rw [within, h, Bool.false_or]

/-! ### Openers -/

/-- The openers among some lines, the first of which is line `line`. -/
def openersFrom (line : Nat) : List Item → List Opener
  | [] => []
  | item :: rest => (item.opens?.map (Opener.mk line)).toList ++ openersFrom (line + 1) rest

/-- The lines that open a block, from the first to the last. -/
def openers (items : List Item) : List Opener := openersFrom 0 items

theorem openersFrom_append (line : Nat) (before items : List Item) :
    openersFrom line (before ++ items) =
      openersFrom line before ++ openersFrom (line + before.length) items := by
  induction before generalizing line with
  | nil => simp [openersFrom]
  | cons item rest ih =>
    rw [List.cons_append, openersFrom, ih, openersFrom, List.append_assoc, List.length_cons,
      show line + 1 + rest.length = line + (rest.length + 1) by omega]

theorem mem_openersFrom {line : Nat} {items : List Item} {o : Opener} :
    o ∈ openersFrom line items ↔
      ∃ k item, o.line = line + k ∧ items[k]? = some item ∧ item.opens? = some o.block := by
  induction items generalizing line with
  | nil => simp [openersFrom]
  | cons item rest ih =>
    rw [openersFrom, List.mem_append, ih]
    constructor
    · rintro (h | ⟨k, found, hline, hfound, hopens⟩)
      · obtain ⟨block, hblock, rfl⟩ := Option.map_eq_some_iff.1 (Option.mem_toList.1 h)
        exact ⟨0, item, rfl, rfl, hblock⟩
      · exact ⟨k + 1, found, by omega, hfound, hopens⟩
    · rintro ⟨k, found, hline, hfound, hopens⟩
      cases k with
      | zero =>
        cases hfound
        refine .inl (Option.mem_toList.2 (Option.map_eq_some_iff.2 ⟨o.block, hopens, ?_⟩))
        rw [Nat.add_zero] at hline
        rw [← hline]
      | succ k => exact .inr ⟨k, found, by omega, hfound, hopens⟩

theorem mem_openers {items : List Item} {o : Opener} :
    o ∈ openers items ↔ ∃ item, items[o.line]? = some item ∧ item.opens? = some o.block := by
  rw [openers, mem_openersFrom]
  constructor
  · rintro ⟨k, item, hline, hitem, hopens⟩
    rw [Nat.zero_add] at hline
    exact ⟨item, hline ▸ hitem, hopens⟩
  · rintro ⟨item, hitem, hopens⟩
    exact ⟨o.line, item, (Nat.zero_add _).symm, hitem, hopens⟩

theorem pairwise_line_openersFrom (line : Nat) (items : List Item) :
    (openersFrom line items).Pairwise fun a b => a.line < b.line := by
  induction items generalizing line with
  | nil => exact .nil
  | cons item rest ih =>
    rw [openersFrom, List.pairwise_append]
    refine ⟨?_, ih (line + 1), ?_⟩
    · cases item.opens? <;> simp
    · intro a ha b hb
      obtain ⟨block, _, rfl⟩ := Option.map_eq_some_iff.1 (Option.mem_toList.1 ha)
      obtain ⟨k, _, hline, _⟩ := mem_openersFrom.1 hb
      show line < b.line
      omega

theorem pairwise_line_openers (items : List Item) :
    (openers items).Pairwise fun a b => a.line < b.line := pairwise_line_openersFrom 0 items

theorem line_lt_of_mem_openers {items : List Item} {o : Opener} (h : o ∈ openers items) :
    o.line < items.length := by
  obtain ⟨item, hitem, _⟩ := mem_openers.1 h
  exact (List.getElem?_eq_some_iff.1 hitem).1

end Item

/-! ### Extents -/

theorem lt_length_takeWhile_iff {α : Type} {p : α → Bool} {l : List α} {k : Nat} {a : α}
    (ha : l[k]? = some a) (hk : k ≤ (l.takeWhile p).length) :
    k < (l.takeWhile p).length ↔ p a = true := by
  induction l generalizing k with
  | nil => cases ha
  | cons b l ih =>
    by_cases hb : p b = true
    · rw [List.takeWhile_cons_of_pos hb, List.length_cons] at hk ⊢
      cases k with
      | zero =>
        cases ha
        simp [hb]
      | succ k =>
        rw [Nat.add_lt_add_iff_right]
        exact ih ha (by omega)
    · rw [List.takeWhile_cons_of_neg hb] at hk ⊢
      obtain rfl : k = 0 := by simpa using hk
      cases ha
      simpa using hb

namespace Opener

/-- The lines behind the opener, as long as every one that is not blank is indented more. -/
def extent (items : List Item) (o : Opener) : List Item :=
  (items.drop (o.line + 1)).takeWhile (Item.within o.block.width)

/-- The line behind the extent; the number of lines when the extent goes on to the last one. -/
def ends (items : List Item) (o : Opener) : Nat := o.line + 1 + (o.extent items).length

variable {items : List Item} {o : Opener}

theorem line_lt_ends : o.line < o.ends items := by
  rw [ends]
  omega

theorem ends_le_length (h : o ∈ Item.openers items) : o.ends items ≤ items.length := by
  have hline := Item.line_lt_of_mem_openers h
  have := (List.takeWhile_sublist (Item.within o.block.width) (l := items.drop (o.line + 1))).length_le
  rw [List.length_drop] at this
  rw [ends, extent]
  omega

/-- A line that the extent reaches up to is in the extent if it is blank or indented more. -/
theorem lt_ends_iff {j : Nat} {item : Item} (hitem : items[j]? = some item) (hline : o.line < j)
    (hj : j ≤ o.ends items) : j < o.ends items ↔ item.within o.block.width = true := by
  rw [ends, extent] at *
  have hdrop : (items.drop (o.line + 1))[j - (o.line + 1)]? = some item := by
    rw [List.getElem?_drop, show o.line + 1 + (j - (o.line + 1)) = j by omega, hitem]
  rw [← lt_length_takeWhile_iff hdrop (by omega)]
  omega

theorem within_of_lt_ends {k : Nat} {item : Item} (hitem : items[k]? = some item)
    (hline : o.line < k) (hk : k < o.ends items) : item.within o.block.width = true :=
  (lt_ends_iff hitem hline (Nat.le_of_lt hk)).1 hk

/-- The extent reaches up to a line if all lines between are blank or indented more. -/
theorem le_ends_of_within {j : Nat} (hj : j ≤ items.length)
    (h : ∀ k item, o.line < k → k < j → items[k]? = some item →
      item.within o.block.width = true) : j ≤ o.ends items := by
  by_contra hlt
  have hends : o.ends items < items.length := by omega
  have hitem := List.getElem?_eq_getElem hends
  have := (lt_ends_iff hitem line_lt_ends (Nat.le_refl _)).2 (h _ _ line_lt_ends (by omega) hitem)
  omega

end Opener

namespace Item

/-! ### Blocks at a line -/

/-- The openers whose extent contains line `j`. -/
def containing (items : List Item) (j : Nat) : List Opener :=
  (openers items).filter fun o => o.line < j && j < o.ends items

/-- The openers whose extent is over at line `j`. -/
def endingAt (items : List Item) (j : Nat) : List Opener :=
  (openers items).filter fun o => o.ends items == j

/-- The openers whose extent goes on up to line `j`. -/
def reaching (items : List Item) (j : Nat) : List Opener :=
  (openers items).filter fun o => o.line < j && j ≤ o.ends items

def depthAt (items : List Item) (j : Nat) : Nat := (containing items j).length

variable {items : List Item} {j : Nat} {item : Item}

/-- Of the openers that reach up to a line, its indentation tells which contain it. -/
theorem containing_eq_filter (hitem : items[j]? = some item) :
    containing items j = (reaching items j).filter fun o => item.within o.block.width := by
  rw [containing, reaching, List.filter_filter]
  apply List.filter_congr
  intro o _
  rw [Bool.eq_iff_iff]
  simp only [Bool.and_eq_true, decide_eq_true_eq]
  constructor
  · rintro ⟨hline, hlt⟩
    exact ⟨Opener.within_of_lt_ends hitem hline hlt, hline, Nat.le_of_lt hlt⟩
  · rintro ⟨hwithin, hline, hle⟩
    exact ⟨hline, (Opener.lt_ends_iff hitem hline hle).2 hwithin⟩

theorem endingAt_eq_filter (hitem : items[j]? = some item) :
    endingAt items j = (reaching items j).filter fun o => !item.within o.block.width := by
  rw [endingAt, reaching, List.filter_filter]
  apply List.filter_congr
  intro o _
  rw [Bool.eq_iff_iff]
  simp only [Bool.and_eq_true, Bool.not_eq_true', decide_eq_true_eq, beq_iff_eq]
  constructor
  · rintro rfl
    refine ⟨?_, Opener.line_lt_ends, Nat.le_refl _⟩
    rw [← Bool.not_eq_true]
    intro hwithin
    exact absurd ((Opener.lt_ends_iff hitem Opener.line_lt_ends (Nat.le_refl _)).2 hwithin) (Nat.lt_irrefl _)
  · rintro ⟨hwithin, hline, hle⟩
    have hlt : ¬ j < o.ends items := by
      rw [Opener.lt_ends_iff hitem hline hle, hwithin]
      exact Bool.false_ne_true
    omega

/-- What is left at the end of the template ends there. -/
theorem endingAt_length : endingAt items items.length = reaching items items.length := by
  apply List.filter_congr
  intro o ho
  have := Opener.ends_le_length ho
  have := line_lt_of_mem_openers ho
  rw [Bool.eq_iff_iff]
  simp only [Bool.and_eq_true, decide_eq_true_eq, beq_iff_eq]
  omega

theorem containing_length : containing items items.length = [] := by
  rw [containing, List.filter_eq_nil_iff]
  intro o ho
  have := Opener.ends_le_length ho
  simp only [Bool.and_eq_true, decide_eq_true_eq, not_and, Nat.not_lt]
  omega

theorem reaching_zero : reaching items 0 = [] := by
  simp [reaching]

/-- The openers in front of a line, the one at it and those behind it. -/
theorem openers_eq_append (hj : j < items.length) :
    openers items = openers (items.take j) ++
      ((items[j].opens?.map (Opener.mk j)).toList ++ openersFrom (j + 1) (items.drop (j + 1))) := by
  have happend := openersFrom_append 0 (items.take j) (items.drop j)
  rw [List.take_append_drop, List.drop_eq_getElem_cons hj, List.length_take_of_le (Nat.le_of_lt hj),
    openersFrom, Nat.zero_add] at happend
  exact happend

theorem line_eq_of_mem_opens? {o : Opener} (ho : o ∈ (item.opens?.map (Opener.mk j)).toList) :
    o.line = j := by
  obtain ⟨block, _, rfl⟩ := Option.map_eq_some_iff.1 (Option.mem_toList.1 ho)
  rfl

/-- No opener behind a line satisfies what only those up to the line do. -/
theorem filter_openersFrom_eq_nil {p : Opener → Bool} (hp : ∀ o, p o = true → o.line ≤ j) :
    (openersFrom (j + 1) (items.drop (j + 1))).filter p = [] := by
  rw [List.filter_eq_nil_iff]
  intro o ho hpo
  obtain ⟨k, _, hline, _⟩ := mem_openersFrom.1 ho
  have := hp o hpo
  omega

/-- From one line to the next, those that contain the line go on, and the line may open one. -/
theorem reaching_succ (hitem : items[j]? = some item) :
    reaching items (j + 1) = containing items j ++ (item.opens?.map (Opener.mk j)).toList := by
  obtain ⟨hj, rfl⟩ := List.getElem?_eq_some_iff.1 hitem
  -- the three parts of the openers are filtered one by one
  rw [reaching, containing, openers_eq_append hj, List.filter_append, List.filter_append,
    List.filter_append, List.filter_append, List.append_assoc]
  congr 1
  · apply List.filter_congr
    intro o ho
    have hline : o.line < j :=
      Nat.lt_of_lt_of_le (line_lt_of_mem_openers ho) (List.length_take_le j items)
    rw [Bool.eq_iff_iff]
    simp only [Bool.and_eq_true, decide_eq_true_eq]
    omega
  · have hkeep : (items[j].opens?.map (Opener.mk j)).toList.filter
        (fun o => o.line < j + 1 && j + 1 ≤ o.ends items) =
          (items[j].opens?.map (Opener.mk j)).toList := by
      rw [List.filter_eq_self]
      intro o ho
      have := line_eq_of_mem_opens? ho
      have hends : o.line < o.ends items := Opener.line_lt_ends
      simp only [Bool.and_eq_true, decide_eq_true_eq]
      omega
    have hdrop : (items[j].opens?.map (Opener.mk j)).toList.filter
        (fun o => o.line < j && j < o.ends items) = [] := by
      rw [List.filter_eq_nil_iff]
      intro o ho
      have := line_eq_of_mem_opens? ho
      simp only [Bool.and_eq_true, decide_eq_true_eq]
      omega
    rw [hkeep, hdrop, filter_openersFrom_eq_nil (by simp; omega),
      filter_openersFrom_eq_nil (by simp; omega)]
    simp

/-- A block is indented more than those around it. -/
theorem pairwise_width_reaching (items : List Item) (j : Nat) :
    (reaching items j).Pairwise fun a b => a.block.width < b.block.width := by
  refine List.Pairwise.imp_of_mem ?_ ((pairwise_line_openers items).filter _)
  intro a b ha hb hlt
  obtain ⟨_, hareach⟩ := List.mem_filter.1 ha
  obtain ⟨hbopener, hbreach⟩ := List.mem_filter.1 hb
  simp only [Bool.and_eq_true, decide_eq_true_eq] at hareach hbreach
  obtain ⟨item, hitem, hopens⟩ := mem_openers.1 hbopener
  obtain ⟨hblank, hindent⟩ := of_opens? hopens
  have hwithin := Opener.within_of_lt_ends hitem hlt (by omega)
  rw [within_of_isBlank_eq_false hblank, hindent] at hwithin
  exact of_decide_eq_true hwithin

/-- The openers around one that reaches up to a line are those whose extent contains its own
line. -/
theorem containing_line {outer inner : List Opener} {o : Opener} (hj : j ≤ items.length)
    (h : reaching items j = outer ++ o :: inner) : containing items o.line = outer := by
  have hpairwise : (reaching items j).Pairwise fun a b => a.line < b.line :=
    (pairwise_line_openers items).filter _
  have hmem : o ∈ reaching items j := by
    rw [h]
    exact List.mem_append_right _ List.mem_cons_self
  obtain ⟨hopener, hreach⟩ := List.mem_filter.1 hmem
  simp only [Bool.and_eq_true, decide_eq_true_eq] at hreach
  obtain ⟨item, hitem, hopens⟩ := mem_openers.1 hopener
  obtain ⟨hblank, hindent⟩ := of_opens? hopens
  have hcontaining : containing items o.line =
      (reaching items j).filter fun a => decide (a.line < o.line) := by
    rw [containing, reaching, List.filter_filter]
    apply List.filter_congr
    intro a _
    rw [Bool.eq_iff_iff]
    simp only [Bool.and_eq_true, decide_eq_true_eq]
    constructor
    · rintro ⟨hline, hlt⟩
      have hwidth := Opener.within_of_lt_ends hitem hline hlt
      rw [within_of_isBlank_eq_false hblank, hindent, decide_eq_true_eq] at hwidth
      refine ⟨hline, by omega, Opener.le_ends_of_within hj ?_⟩
      intro k found hk hkj hfound
      -- up to the opener the lines are in the extent of `a`, behind it in that of `o`
      by_cases hbefore : k ≤ o.line
      · exact Opener.within_of_lt_ends hfound hk (by omega)
      · have hinner := Opener.within_of_lt_ends (o := o) hfound (by omega) (by omega)
        rw [within, Bool.or_eq_true, decide_eq_true_eq] at hinner ⊢
        exact hinner.imp_right fun hlt => Nat.lt_trans hwidth hlt
    · rintro ⟨hline, _, hle⟩
      exact ⟨hline, by omega⟩
  rw [h] at hcontaining hpairwise
  obtain ⟨_, hinner, houter⟩ := List.pairwise_append.1 hpairwise
  rw [hcontaining, List.filter_append, List.filter_cons_of_neg (by simp)]
  have hself : outer.filter (fun a => decide (a.line < o.line)) = outer := by
    rw [List.filter_eq_self]
    intro a ha
    simpa using houter a ha o List.mem_cons_self
  have hnone : inner.filter (fun a => decide (a.line < o.line)) = [] := by
    rw [List.filter_eq_nil_iff]
    intro a ha
    have := (List.pairwise_cons.1 hinner).1 a ha
    simp only [decide_eq_true_eq, Nat.not_lt]
    omega
  rw [hself, hnone, List.append_nil]

end Item
end Stencil
