import Stencil.Proofs.Lua.Program.Script
import Stencil.Proofs.Outline.Lines

/-! The layout of an outline.

The open blocks at a line are those that the line is inside of in the tree, for two reasons: a line
that is inside of all open blocks changes none of them (`lay_output`, `lay_opener`), and a line
behind a block first closes that block (`lay_leaves`). An `else` at the indentation of
its conditional takes the place of the block before it (`lay_else`). By induction on the tree the
statements are the lines of its program (`placedFrom_items`). -/
namespace Stencil

open Lua

/-! ### Lines inside of all open blocks -/

section Inside

variable {n : Nesting} {indent : Text}

theorem Nesting.enclosing_of_inside {width : Nat} (h : ∀ b ∈ n, b.width < width) :
    n.enclosing width = n := by
  unfold enclosing
  cases n with
  | nil => rfl
  | cons b outer =>
    have hb := h b (List.mem_cons_self ..)
    rw [List.dropWhile_cons_of_neg (by simp [Nat.not_le.2 hb])]

theorem Nesting.closed_of_inside (h : ∀ b ∈ n, b.width < indent.length) :
    (n.placement indent).closed = [] := by
  unfold placement
  cases n with
  | nil => rfl
  | cons b outer =>
    have hb := h b (List.mem_cons_self ..)
    dsimp only
    rw [closeAll, List.takeWhile_cons_of_neg (by simp [Nat.not_le.2 hb])]

theorem Nesting.depth_of_inside (h : ∀ b ∈ n, b.width < indent.length) :
    (n.placement indent).depth = n.length := by
  unfold placement
  dsimp only
  rw [enclosing_of_inside h]
  rfl

namespace Item

theorem lay_output (h : ∀ b ∈ n, b.width < indent.length) (statement : Text) :
    lay ⟨n, []⟩ (.output indent [statement]) = ([realAt n.length statement], ⟨n, []⟩) := by
  unfold lay
  dsimp only
  rw [Nesting.closed_of_inside h, Nesting.depth_of_inside h, Nesting.afterLine,
    Nesting.enclosing_of_inside h]
  rfl

theorem lay_opener {code : Text} {kind : BlockKind} (h : ∀ b ∈ n, b.width < indent.length)
    (hopens : BlockKind.opening? code = some kind) :
    lay ⟨n, []⟩ (.code indent code (.plain code)) =
      ([realAt n.length code], ⟨⟨indent, kind⟩ :: n, []⟩) := by
  unfold lay
  dsimp only
  rw [Nesting.closed_of_inside h, Nesting.depth_of_inside h, hopens, Nesting.afterLine,
    Nesting.enclosing_of_inside h]
  rfl

/-- An `else` goes on with the conditional at its indentation. -/
theorem lay_else {b : OpenBlock} (hkind : b.kind = .conditional)
    (hwidth : indent.length = b.width) (h : ∀ b' ∈ n, b'.width < b.width) :
    lay ⟨b :: n, []⟩ (.code indent "else" (.plain "else")) =
      ([realAt n.length "else"], ⟨⟨indent, .conditional⟩ :: n, []⟩) := by
  rw [← hwidth] at h
  have henclosing : Nesting.enclosing (b :: n) indent.length = n := by
    unfold Nesting.enclosing
    rw [List.dropWhile_cons_of_pos (by simp [hwidth])]
    exact Nesting.enclosing_of_inside h
  have hclosed : (Nesting.placement (b :: n) indent).closed = [⟨n.length, b⟩] := by
    have hn := Nesting.closed_of_inside h
    unfold Nesting.placement at hn ⊢
    dsimp only at hn ⊢
    rw [Nesting.closeAll, List.takeWhile_cons_of_pos (by simp [hwidth]), hn]
  have hdepth : (Nesting.placement (b :: n) indent).depth = n.length := by
    unfold Nesting.placement
    dsimp only
    rw [henclosing]
    rfl
  have hbefore : closedBefore [⟨n.length, b⟩] indent "else" = [] := by
    unfold closedBefore
    dsimp only [List.getLast?_singleton]
    rw [hkind, if_pos ⟨hwidth.symm, by decide⟩]
    rfl
  have hopens : BlockKind.opening? "else" = some .conditional := by decide
  unfold lay
  dsimp only
  rw [hclosed, hbefore, hdepth, hopens, Nesting.afterLine, henclosing]
  rfl

end Item

end Inside

/-! ### Lines behind a block -/

namespace Item

/-- A line that closes a block without taking it over. -/
def Leaves (b : OpenBlock) : Item → Prop
  | blank _ => False
  | output indent _ => indent.length ≤ b.width
  | code indent text _ =>
    indent.length ≤ b.width ∧ (b.kind.takenOverBy text = true → indent.length ≠ b.width)

/-- A line that is indented less. -/
def Narrower (width : Nat) : Item → Prop
  | blank _ => False
  | output indent _ | code indent _ _ => indent.length < width

variable {b : OpenBlock} {n : Nesting} {item : Item} {width : Nat}

theorem Narrower.leaves (h : Narrower b.width item) : Leaves b item := by
  cases item with
  | blank statement => exact h
  | output indent statements => exact Nat.le_of_lt h
  | code indent text line => exact ⟨Nat.le_of_lt h, fun _ => Nat.ne_of_lt h⟩

theorem Leaves.narrower (h : Leaves b item) (hwidth : b.width < width) : Narrower width item := by
  cases item with
  | blank statement => exact h
  | output indent statements => exact Nat.lt_of_le_of_lt h hwidth
  | code indent text line => exact Nat.lt_of_le_of_lt h.1 hwidth

theorem placement_leaves {indent : Text} (h : indent.length ≤ b.width) :
    Nesting.placement (b :: n) indent =
      { n.placement indent with closed := ⟨n.length, b⟩ :: (n.placement indent).closed } := by
  have henclosing : Nesting.enclosing (b :: n) indent.length = n.enclosing indent.length := by
    unfold Nesting.enclosing
    rw [List.dropWhile_cons_of_pos (by simp [h])]
  unfold Nesting.placement
  dsimp only
  rw [henclosing, Nesting.closeAll, List.takeWhile_cons_of_pos (by simp [h])]

theorem afterLine_leaves {indent : Text} (h : indent.length ≤ b.width)
    (opens : Option BlockKind) :
    Nesting.afterLine (b :: n) indent opens = n.afterLine indent opens := by
  unfold Nesting.afterLine Nesting.enclosing
  rw [List.dropWhile_cons_of_pos (by simp [h])]

theorem closedBefore_leaves {closed : List ClosedBlock} {indent text : Text} (depth : Nat)
    (h : b.kind.takenOverBy text = true → indent.length ≠ b.width) :
    closedBefore (⟨depth, b⟩ :: closed) indent text =
      ⟨depth, b⟩ :: closedBefore closed indent text := by
  cases closed with
  | nil =>
    have hnot : ¬ (b.width = indent.length ∧ b.kind.takenOverBy text = true) :=
      fun hover => h hover.2 hover.1.symm
    unfold closedBefore
    dsimp only [List.getLast?_singleton, List.getLast?_nil]
    rw [if_neg hnot]
  | cons c closed =>
    unfold closedBefore
    rw [List.getLast?_cons_cons, List.dropLast_cons_cons]
    cases (c :: closed).getLast? with
    | none => rfl
    | some outermost =>
      dsimp only
      split
      · rfl
      · rfl

/-- A line that leaves a block puts out the end of it first. -/
theorem lay_leaves (h : Leaves b item) :
    lay ⟨b :: n, []⟩ item =
      (closing ⟨n.length, b⟩ :: (lay ⟨n, []⟩ item).1, (lay ⟨n, []⟩ item).2) := by
  cases item with
  | blank statement => exact h.elim
  | output indent statements =>
    unfold lay
    dsimp only
    rw [placement_leaves h, afterLine_leaves h]
    rfl
  | code indent text line =>
    unfold lay
    dsimp only
    rw [placement_leaves h.1, afterLine_leaves h.1, closedBefore_leaves n.length h.2]
    rfl

/-! ### Steps of the layout -/

/-- The statements of some items, as lines of a program. -/
def placedFrom (n : Nesting) (items : List Item) : List (Nat × Text) :=
  (statementsFrom ⟨n, []⟩ items).map Statement.placed

variable {indent : Text} {items : List Item}

theorem placedFrom_output (h : ∀ b ∈ n, b.width < indent.length) (statement : Text) :
    placedFrom n (.output indent [statement] :: items) =
      (n.length, statement) :: placedFrom n items := by
  rw [placedFrom, statementsFrom_cons, lay_output h]
  rfl

theorem placedFrom_opener {code : Text} {kind : BlockKind} (h : ∀ b ∈ n, b.width < indent.length)
    (hopens : BlockKind.opening? code = some kind) :
    placedFrom n (.code indent code (.plain code) :: items) =
      (n.length, code) :: placedFrom (⟨indent, kind⟩ :: n) items := by
  rw [placedFrom, statementsFrom_cons, lay_opener h hopens]
  rfl

theorem placedFrom_else (hkind : b.kind = .conditional) (hwidth : indent.length = b.width)
    (h : ∀ b' ∈ n, b'.width < b.width) :
    placedFrom (b :: n) (.code indent "else" (.plain "else") :: items) =
      (n.length, "else".toList) :: placedFrom (⟨indent, .conditional⟩ :: n) items := by
  rw [placedFrom, statementsFrom_cons, lay_else hkind hwidth h]
  rfl

/-- A block ends at the line behind it, or at the end of the template. -/
theorem placedFrom_leaves (h : ∀ item ∈ items.head?, Leaves b item)
    (hcloser : b.kind.closer = "end") :
    placedFrom (b :: n) items = (n.length, "end".toList) :: placedFrom n items := by
  have hstatements : statementsFrom ⟨b :: n, []⟩ items =
      closing ⟨n.length, b⟩ :: statementsFrom ⟨n, []⟩ items := by
    cases items with
    | nil => rfl
    | cons item items =>
      rw [statementsFrom_cons, statementsFrom_cons, lay_leaves (h item rfl)]
      rfl
  have hclosing : (closing ⟨n.length, b⟩).placed = (n.length, "end".toList) := by
    rw [closing, Statement.placed, hcloser]
  rw [placedFrom, hstatements, List.map_cons, hclosing]
  rfl

end Item

/-! ### Outlines -/

namespace Outline

open Item

variable {conditions : List Text} {n : Nesting} {more : List Item} {b : OpenBlock}

theorem takenOverBy_countHeader (kind : BlockKind) (name : Text) (start limit : Literal) :
    kind.takenOverBy (countHeader name start limit) = false := rfl

theorem takenOverBy_whenHeader (kind : BlockKind) (condition : Text) :
    kind.takenOverBy (whenHeader condition) = false := rfl

/-- What comes behind a block leaves it. -/
theorem leaves_items {o : Outline} (h : o.Behind b.width)
    (hmore : ∀ item ∈ more.head?, Narrower b.width item) :
    ∀ item ∈ (o.items ++ more).head?, Leaves b item := by
  cases o with
  | done => exact fun item hitem => (hmore item hitem).leaves
  | text indent content rest =>
    rintro _ ⟨⟩
    exact h _ rfl
  | placeholder indent name rest =>
    rintro _ ⟨⟩
    exact h _ rfl
  | loop indent name start limit body rest =>
    rintro _ ⟨⟩
    exact ⟨h _ rfl, fun hover => nomatch (takenOverBy_countHeader b.kind ..).symm.trans hover⟩
  | when indent condition body rest =>
    rintro _ ⟨⟩
    exact ⟨h _ rfl, fun hover => nomatch (takenOverBy_whenHeader b.kind _).symm.trans hover⟩
  | choose indent condition body elseIndent otherwise rest =>
    rintro _ ⟨⟩
    exact ⟨h _ rfl, fun hover => nomatch (takenOverBy_whenHeader b.kind _).symm.trans hover⟩

/-- The lines at a level are inside of all open blocks, and the line behind them is not at that
level. -/
structure Fits (n : Nesting) (more : List Item) (o : Outline) : Prop where
  inside : ∀ w ∈ o.widths, ∀ b ∈ n, b.width < w
  behind : ∀ w ∈ o.widths, ∀ item ∈ more.head?, Narrower w item

theorem Fits.rest {o rest : Outline} (h : o.Fits n more) (hrest : rest.widths ⊆ o.widths) :
    rest.Fits n more :=
  ⟨fun w hw => h.inside w (hrest hw), fun w hw => h.behind w (hrest hw)⟩

/-- The body of a block fits between the block and a line that is not in it. -/
theorem Fits.body {body : Outline} (h : ∀ b' ∈ n, b'.width < b.width)
    (hbody : body.Inside b.width)
    (hmore : ∀ item ∈ more.head?, ∀ {w}, b.width < w → Narrower w item) :
    body.Fits (b :: n) more := by
  refine ⟨fun w hw b' hb' => ?_, fun w hw item hitem => hmore item hitem (hbody w hw)⟩
  rcases List.mem_cons.1 hb' with rfl | hb'
  · exact hbody w hw
  · exact Nat.lt_trans (h b' hb') (hbody w hw)

/-- The body of a block, up to the line that leaves the block. -/
theorem placedFrom_body {body rest : Outline} (hinside : ∀ b' ∈ n, b'.width < b.width)
    (hbody : body.Inside b.width) (hrest : rest.Behind b.width)
    (hmore : ∀ item ∈ more.head?, Narrower b.width item) (hcloser : b.kind.closer = "end")
    (hlines : body.Fits (b :: n) (rest.items ++ more) →
      placedFrom (b :: n) (body.items ++ (rest.items ++ more)) =
        body.program.lines (n.length + 1) ++ placedFrom (b :: n) (rest.items ++ more)) :
    placedFrom (b :: n) (body.items ++ (rest.items ++ more)) =
      body.program.lines (n.length + 1) ++
        (n.length, "end".toList) :: placedFrom n (rest.items ++ more) := by
  have hleaves : ∀ item ∈ (rest.items ++ more).head?, Leaves b item := leaves_items hrest hmore
  rw [hlines (.body hinside hbody fun item hitem => (hleaves item hitem).narrower),
    placedFrom_leaves hleaves hcloser]

/-- **The statements of an outline are the lines of its program**, in front of what comes behind. -/
theorem placedFrom_items (o : Outline)
    (hconditions : ∀ name ∈ conditions, isVariableName name = true) :
    ∀ {counters : List Text} {n : Nesting} {more : List Item}, o.Laid →
      o.program.Closed conditions counters → o.Fits n more →
      placedFrom n (o.items ++ more) = o.program.lines n.length ++ placedFrom n more := by
  have hword : ∀ {name}, isVariableName name = true → IsWord name :=
    fun h => (isWord_of_isVariableName h).1
  induction o with
  | done => exact fun _ _ _ => rfl
  | text indent content rest ih =>
    intro counters n more hlaid hclosed hfits
    have hinside := hfits.inside _ (List.mem_cons_self ..)
    rw [items, List.cons_append, placedFrom_output hinside,
      ih hlaid hclosed (hfits.rest (List.subset_cons_self ..))]
    rfl
  | placeholder indent name rest ih =>
    rintro counters n more hlaid ⟨_, hclosed⟩ hfits
    have hinside := hfits.inside _ (List.mem_cons_self ..)
    rw [items, List.cons_append, placedFrom_output hinside,
      ih hlaid hclosed (hfits.rest (List.subset_cons_self ..))]
    rfl
  | loop indent name start limit body rest ihBody ihRest =>
    rintro counters n more ⟨hbodyInside, hbodyLaid, hrestBehind, hrestLaid⟩
      ⟨⟨hname, _⟩, hbody, hrest⟩ hfits
    have hinside := hfits.inside _ (List.mem_cons_self ..)
    rw [items, List.cons_append, List.append_assoc, placedFrom_opener hinside
      (BlockKind.opening?_countHeader (hword hname) start limit),
      placedFrom_body (b := ⟨indent.text, .loop⟩) hinside hbodyInside hrestBehind
        (hfits.behind _ (List.mem_cons_self ..)) rfl (ihBody hbodyLaid hbody),
      ihRest hrestLaid hrest (hfits.rest (List.subset_cons_self ..)), program, Program.lines,
      List.cons_append, List.append_assoc, List.cons_append]
  | when indent condition body rest ihBody ihRest =>
    rintro counters n more ⟨hbodyInside, hbodyLaid, hrestBehind, hrestLaid⟩
      ⟨hcondition, hbody, hrest⟩ hfits
    have hinside := hfits.inside _ (List.mem_cons_self ..)
    rw [items, List.cons_append, List.append_assoc, placedFrom_opener hinside
      (BlockKind.opening?_whenHeader (hword (hconditions condition hcondition))),
      placedFrom_body (b := ⟨indent.text, .conditional⟩) hinside hbodyInside hrestBehind
        (hfits.behind _ (List.mem_cons_self ..)) rfl (ihBody hbodyLaid hbody),
      ihRest hrestLaid hrest (hfits.rest (List.subset_cons_self ..)), program, Program.lines,
      List.cons_append, List.append_assoc, List.cons_append]
  | choose indent condition body elseIndent otherwise rest ihBody ihOtherwise ihRest =>
    rintro counters n more ⟨hwidth, hbodyInside, hbodyLaid, hotherwiseInside, hotherwiseLaid,
      hrestBehind, hrestLaid⟩ ⟨hcondition, hbody, hotherwise, hrest⟩ hfits
    have hinside := hfits.inside _ (List.mem_cons_self ..)
    have helse : elseIndent.text.length = OpenBlock.width ⟨indent.text, .conditional⟩ := hwidth
    have hfitsBody : body.Fits (⟨indent.text, .conditional⟩ :: n)
        (.code elseIndent.text "else" (.plain "else") ::
          (otherwise.items ++ (rest.items ++ more))) := by
      refine .body hinside hbodyInside ?_
      rintro _ ⟨⟩ w hw
      exact Nat.lt_of_le_of_lt (Nat.le_of_eq hwidth) hw
    -- what stood inside or behind the conditional does so for the `else`, which is as wide
    have helseInside : ∀ b ∈ n, b.width < elseIndent.width := by rwa [hwidth]
    have hotherwiseInside : otherwise.Inside elseIndent.width := by rwa [hwidth]
    have hrestBehind : rest.Behind elseIndent.width := by rwa [hwidth]
    have hmore : ∀ item ∈ more.head?, Narrower elseIndent.width item := by
      rw [hwidth]
      exact hfits.behind _ (List.mem_cons_self ..)
    rw [items, List.cons_append, List.append_assoc, List.cons_append, List.append_assoc,
      placedFrom_opener hinside
        (BlockKind.opening?_whenHeader (hword (hconditions condition hcondition))),
      ihBody hbodyLaid hbody hfitsBody, placedFrom_else rfl helse hinside,
      placedFrom_body (b := ⟨elseIndent.text, .conditional⟩) helseInside hotherwiseInside
        hrestBehind hmore rfl (ihOtherwise hotherwiseLaid hotherwise),
      ihRest hrestLaid hrest (hfits.rest (List.subset_cons_self ..)), program, Program.lines,
      List.cons_append, List.append_assoc, List.cons_append, List.append_assoc, List.cons_append]
    rfl

end Outline

end Stencil
