import Mathlib.Algebra.GroupWithZero.Nat
import Stencil.Proofs.Script.Blocks

/-! Conditionals over several lines.

A line that starts with `else` or `elseif` at the indentation of a conditional takes it over: the
conditional is not closed before the line. Whether a conditional is open behind the line goes by how
the line ends (`exists_openBehind_iff`). A line that ends in `then` or `else` has one opened again,
and the conditionals that follow each other so are a chain, which is closed once
(`exists_chain`). Any other `else` or `elseif` line breaks the chain off: nothing is open behind it,
and no `end` is put down for the chain. -/
namespace Stencil
namespace Item

/-! ### What is open behind a line -/

/-- What is open behind the first `j` lines. -/
def openBehind (items : List Item) (j : Nat) : Nesting :=
  ((items.take j).foldl (fun s item => (lay s item).2) .start).nesting

variable {items : List Item} {j : Nat}

theorem foldl_lay (hj : j ≤ items.length) :
    (items.take j).foldl (fun s item => (lay s item).2) .start = stateAt items j := by
  induction j with
  | zero =>
    rw [stateAt, reaching_zero]
    rfl
  | succ j ih =>
    have hitem := List.getElem?_eq_getElem hj
    rw [List.take_succ_eq_append_getElem hj, List.foldl_concat, ih (Nat.le_of_lt hj),
      lay_stateAt hitem]

theorem mem_openBehind {b : OpenBlock} (hj : j ≤ items.length) :
    b ∈ openBehind items j ↔ ∃ o ∈ reaching items j, o.block = b := by
  rw [openBehind, foldl_lay hj, stateAt, List.mem_map]
  simp only [List.mem_reverse]

/-- What stands at the very indentation of a line and is open behind it was opened by the line. -/
theorem mem_openBehind_succ {item : Item} {b : OpenBlock} (hitem : items[j]? = some item)
    (hblank : item.isBlank = false) (hwidth : b.width = item.indent.length) :
    b ∈ openBehind items (j + 1) ↔ item.opens? = some b := by
  rw [mem_openBehind (List.getElem?_eq_some_iff.1 hitem).1, reaching_succ hitem]
  constructor
  · rintro ⟨o, ho, rfl⟩
    rcases List.mem_append.1 ho with ho | ho
    · rw [containing_eq_filter hitem] at ho
      have hwithin := (List.mem_filter.1 ho).2
      rw [within_of_isBlank_eq_false hblank, decide_eq_true_eq] at hwithin
      omega
    · obtain ⟨block, hblock, rfl⟩ := Option.map_eq_some_iff.1 (Option.mem_toList.1 ho)
      exact hblock
  · intro hopens
    refine ⟨⟨j, b⟩, List.mem_append_right _ (Option.mem_toList.2 ?_), rfl⟩
    rw [hopens]
    rfl

/-! ### Lines that continue a conditional -/

/-- A line that continues a conditional by how it starts. -/
def startsElse (text : Text) : Bool :=
  text.startsWithWord "else" || text.startsWithWord "elseif"

/-- A line that opens a conditional by how it ends. -/
def endsOpen (text : Text) : Bool :=
  (Lua.significantPrefix text).endsWithWord "then" ||
    (Lua.significantPrefix text).endsWithWord "else"

theorem opening?_eq_conditional_iff {text : Text} :
    BlockKind.opening? text = some .conditional ↔ endsOpen text = true := by
  unfold BlockKind.opening?
  change (if endsOpen text = true then some BlockKind.conditional else _) = _ ↔ _
  cases endsOpen text with
  | true => simp
  | false =>
    rw [if_neg Bool.false_ne_true]
    split_ifs <;> simp

/-- **Behind a line a conditional of its own indentation is open if the line ends in `then` or
`else`**, and only then. -/
theorem exists_openBehind_iff {indent text : Text} {line : CodeLine}
    (hitem : items[j]? = some (code indent text line)) :
    (∃ b ∈ openBehind items (j + 1), b.kind = .conditional ∧ b.width = indent.length) ↔
      endsOpen text = true := by
  rw [← opening?_eq_conditional_iff]
  constructor
  · rintro ⟨b, hb, hkind, hwidth⟩
    have hopens := (mem_openBehind_succ hitem rfl hwidth).1 hb
    obtain ⟨kind, hopening, rfl⟩ := Option.map_eq_some_iff.1 hopens
    rw [hopening]
    exact congrArg some hkind
  · intro hopening
    refine ⟨⟨indent, .conditional⟩, (mem_openBehind_succ hitem rfl rfl).2 ?_, rfl, rfl⟩
    rw [opens?, hopening]
    rfl

/-! ### Closings -/

/-- How often the block of an opener is closed by its indentation. -/
def closings (items : List Item) (o : Opener) : Nat :=
  ((List.range (items.length + 1)).flatMap (dueAt items)).count o

theorem closings_eq {o : Opener} (ho : o ∈ openers items) :
    closings items o = if takesOver items (o.ends items) o then 0 else 1 := by
  rw [closings, (perm_flatMap_dueAt items).count_eq]
  by_cases htakes : takesOver items (o.ends items) o = true
  · rw [if_pos htakes, List.count_eq_zero]
    intro hmem
    have := (List.mem_filter.1 hmem).2
    simp [htakes] at this
  · rw [if_neg htakes]
    refine List.count_eq_one_of_mem ((nodup_openers items).filter _) (List.mem_filter.2 ⟨ho, ?_⟩)
    simpa using htakes

/-! ### Chains -/

/-- Whether the line behind the extent of an opener is code at its very indentation, and such. -/
def isMet (items : List Item) (o : Opener) (p : Text → Bool) : Bool :=
  match items[o.ends items]? with
  | some (code indent text _) => indent.length == o.block.width && p text
  | _ => false

/-- One conditional goes on with another: the line behind it is an `else` or `elseif` at its
indentation that opens the other. -/
structure Continues (items : List Item) (o o' : Opener) : Prop where
  met : isMet items o startsElse = true
  mem : o' ∈ openers items
  line : o'.line = o.ends items
  kind : o'.block.kind = .conditional
  width : o'.block.width = o.block.width

/-- The line behind a conditional is an `else` or `elseif` at its indentation and opens none. -/
def isBrokenOff (items : List Item) (o : Opener) : Bool :=
  isMet items o fun text => startsElse text && !endsOpen text

/-- The line behind a conditional is an `end` at its indentation. -/
def isEnded (items : List Item) (o : Opener) : Bool :=
  isMet items o fun text => text.startsWithWord "end"

variable {o : Opener}

theorem exists_of_isMet {p : Text → Bool} (h : isMet items o p = true) :
    ∃ indent text line, items[o.ends items]? = some (code indent text line) ∧
      indent.length = o.block.width ∧ p text = true := by
  unfold isMet at h
  split at h
  · next indent text line hitem =>
    rw [Bool.and_eq_true, beq_iff_eq] at h
    exact ⟨indent, text, line, hitem, h⟩
  · cases h

theorem isMet_eq {indent text : Text} {line : CodeLine} (p : Text → Bool)
    (hitem : items[o.ends items]? = some (code indent text line))
    (hwidth : indent.length = o.block.width) : isMet items o p = p text := by
  rw [isMet, hitem]
  simp [hwidth]

theorem isMet_or (p q : Text → Bool) :
    (isMet items o fun text => p text || q text) = (isMet items o p || isMet items o q) := by
  unfold isMet
  split
  · rw [Bool.and_or_distrib_left]
  · rfl

theorem takesOver_eq_isMet (hkind : o.block.kind = .conditional) :
    takesOver items (o.ends items) o = (isMet items o startsElse || isEnded items o) := by
  have hfits : ∀ text, decide (o.block.kind.Fits text) =
      (startsElse text || text.startsWithWord "end") := by
    intro text
    rw [hkind, Bool.eq_iff_iff, decide_eq_true_eq]
    simp [BlockKind.Fits, startsElse]
  rw [isEnded, ← isMet_or]
  exact congrArg (isMet items o) (funext hfits)

theorem startsWithWord_end_of_startsElse {text : Text} (h : startsElse text = true) :
    text.startsWithWord "end" = false := by
  rcases Bool.or_eq_true_iff.1 h with h | h
  · exact BlockKind.not_startsWithWord h (.inr (by decide))
  · exact BlockKind.not_startsWithWord h (.inr (by decide))

/-- What goes on with a conditional opens at a line that ends in `then` or `else`. -/
theorem Continues.endsOpen {o' : Opener} {indent text : Text} {line : CodeLine}
    (h : Continues items o o') (hitem : items[o.ends items]? = some (code indent text line)) :
    endsOpen text = true := by
  obtain ⟨item, hitem', hopens⟩ := mem_openers.1 h.mem
  rw [h.line, hitem] at hitem'
  cases hitem'
  obtain ⟨kind, hopening, hblock⟩ := Option.map_eq_some_iff.1 hopens
  rw [← opening?_eq_conditional_iff, hopening, ← h.kind, ← hblock]

/-- **A conditional and those that go on with it are closed once**, unless the last of them is
broken off. -/
theorem exists_chain {o : Opener} (ho : o ∈ openers items) (hkind : o.block.kind = .conditional) :
    ∃ chain last, (o :: chain).IsChain (Continues items) ∧ (o :: chain).getLast? = some last ∧
      (∀ o', ¬Continues items last o') ∧
      ((o :: chain).map (closings items)).sum + (if isEnded items last then 1 else 0) =
        if isBrokenOff items last then 0 else 1 := by
  have hline := line_lt_of_mem_openers ho
  have hends : o.line < o.ends items := Opener.line_lt_ends
  have hclosings := closings_eq ho
  rw [takesOver_eq_isMet hkind] at hclosings
  by_cases hmet : isMet items o startsElse = true
  · obtain ⟨indent, text, line, hitem, hwidth, hstarts⟩ := exists_of_isMet hmet
    rw [hmet, Bool.true_or, if_pos rfl] at hclosings
    by_cases hopen : endsOpen text = true
    · -- the line opens the next conditional of the chain
      have hmem : ⟨o.ends items, ⟨indent, .conditional⟩⟩ ∈ openers items := by
        refine mem_openers.2 ⟨_, hitem, ?_⟩
        rw [opens?, opening?_eq_conditional_iff.2 hopen]
        rfl
      obtain ⟨chain, last, hchain, hlast, hnone, hsum⟩ := exists_chain hmem rfl
      refine ⟨_ :: chain, last, .cons_cons ⟨hmet, hmem, rfl, rfl, hwidth⟩ hchain, ?_, hnone, ?_⟩
      · rw [List.getLast?_cons_cons, hlast]
      · rw [List.map_cons, List.sum_cons, hclosings, Nat.zero_add]
        exact hsum
    · -- the line opens none, and there is no `end`
      refine ⟨[], o, .singleton o, rfl, fun o' h => hopen (h.endsOpen hitem), ?_⟩
      have hended : isEnded items o = false := by
        rw [isEnded, isMet_eq _ hitem hwidth, startsWithWord_end_of_startsElse hstarts]
      have hbroken : isBrokenOff items o = true := by
        rw [isBrokenOff, isMet_eq _ hitem hwidth, hstarts]
        simpa using hopen
      rw [hended, hbroken, List.map_singleton, List.sum_singleton, hclosings]
      rfl
  · -- the conditional is closed before the line or by the line
    refine ⟨[], o, .singleton o, rfl, fun o' h => hmet h.met, ?_⟩
    have hbroken : isBrokenOff items o = false := by
      rw [← Bool.not_eq_true]
      intro h
      obtain ⟨indent, text, line, hitem, hwidth, hstarts⟩ := exists_of_isMet h
      rw [isMet_eq _ hitem hwidth] at hmet
      exact hmet (Bool.and_eq_true_iff.1 hstarts).1
    rw [Bool.not_eq_true] at hmet
    rw [hmet, Bool.false_or] at hclosings
    rw [hbroken, List.map_singleton, List.sum_singleton, hclosings]
    cases isEnded items o <;> rfl
termination_by items.length - o.line

end Item

namespace Template

/-- Lines are read one way only. -/
theorem items_eq_of_forall₂ {d : Delimiters} {template : Text} {lines : List Line}
    {items read : List Item}
    (h : List.Forall₂ (fun line item => Item.ofLine d template line = .ok item) lines items)
    (hread : (lines.map fun line => (Item.ofLine d template line).toOption) = read.map some) :
    items = read := by
  induction h generalizing read with
  | nil => exact (List.map_eq_nil_iff.1 hread.symm).symm
  | cons hline _ ih =>
    cases read with
    | nil => cases hread
    | cons item rest =>
      rw [List.map_cons, List.map_cons, hline] at hread
      obtain ⟨hitem, hrest⟩ := List.cons.inj hread
      rw [ih hrest, Option.some.inj hitem]

/-- **What becomes of a conditional that a line takes over.** Every line of a template that starts
with `else` or `elseif` at the indentation of the conditional that ends there suppresses its closer;
behind the line a conditional of that indentation is open if the line ends in `then` or `else`, and
only then. The conditionals that go on with each other in this way are a chain, and of all its
members together one is closed, by its indentation or by an `end` line; none is when the last one is
broken off by an `else` or `elseif` line that does not end so. -/
theorem compile_chains {d : Delimiters} {unit : Nat} {t : Template} {script : Script}
    (h : t.compile d unit = .ok script) :
    ∃ items, List.Forall₂ (fun line item => Item.ofLine d t.description line = .ok item)
        (Line.ofSource t.source) items ∧
      script.statements = (List.range (items.length + 1)).flatMap (Item.segment items) ∧
      ∀ o ∈ Item.openers items, o.block.kind = .conditional →
        (∀ indent text line, items[o.ends items]? = some (.code indent text line) →
          indent.length = o.block.width → Item.startsElse text = true →
          Item.closings items o = 0 ∧
          ((∃ b ∈ Item.openBehind items (o.ends items + 1),
              b.kind = .conditional ∧ b.width = indent.length) ↔ Item.endsOpen text = true)) ∧
        ∃ chain last, (o :: chain).IsChain (Item.Continues items) ∧
          (o :: chain).getLast? = some last ∧ (∀ o', ¬Item.Continues items last o') ∧
          ((o :: chain).map (Item.closings items)).sum +
              (if Item.isEnded items last then 1 else 0) =
            if Item.isBrokenOff items last then 0 else 1 := by
  obtain ⟨items, hitems, hstatements⟩ := items_of_compile h
  refine ⟨items, hitems, hstatements.trans (Item.statements_eq_flatMap_segment items), ?_⟩
  intro o ho hkind
  refine ⟨fun indent text line hitem hwidth hstarts => ⟨?_, ?_⟩, Item.exists_chain ho hkind⟩
  · rw [Item.closings_eq ho, Item.takesOver_eq_isMet hkind, Item.isMet_eq _ hitem hwidth, hstarts]
    rfl
  · exact Item.exists_openBehind_iff hitem

/-- Two lines go on with a conditional; it is closed at the end of the second one's lines. -/
theorem compile_chains_elseif :
    ∃ script items, (inline "<% if a then\n x\n<% elseif b then\n y\n<% else\n z\nw".toList).compile
        .standard 2 = .ok script ∧
      script.statements = (List.range (items.length + 1)).flatMap (Item.segment items) ∧
      script.lines = ["if a then".toList, "  print(' x')".toList, "elseif b then".toList,
        "  print(' y')".toList, "else".toList, "  print(' z')".toList, "end".toList,
        "print('w', \"\")".toList] ∧
      ⟨0, ⟨[], .conditional⟩⟩ ∈ Item.openers items ∧
      Item.closings items ⟨0, ⟨[], .conditional⟩⟩ = 0 ∧
      ∃ b ∈ Item.openBehind items 3, b.kind = .conditional ∧ b.width = 0 := by
  have hcompile : (inline "<% if a then\n x\n<% elseif b then\n y\n<% else\n z\nw".toList).compile
      .standard 2 = .ok ⟨2, [⟨0, "if a then", .real⟩, ⟨1, "print(' x')", .real⟩,
        ⟨0, "elseif b then", .real⟩, ⟨1, "print(' y')", .real⟩, ⟨0, "else", .real⟩,
        ⟨1, "print(' z')", .real⟩, ⟨0, "end", .phantom⟩, ⟨0, "print('w', \"\")", .real⟩]⟩ :=
    compile_eq_of_toOption (by decide +kernel)
  obtain ⟨items, hitems, hstatements, hchains⟩ := compile_chains hcompile
  have hread : items = [.code [] "if a then" (.plain "if a then"), .output " " ["print(' x')"],
      .code [] "elseif b then" (.plain "elseif b then"), .output " " ["print(' y')"],
      .code [] "else" (.plain "else"), .output " " ["print(' z')"],
      .output [] ["print('w', \"\")"]] := by
    refine items_eq_of_forall₂ hitems ?_
    decide +kernel
  have hopener : (⟨0, ⟨[], .conditional⟩⟩ : Opener) ∈ Item.openers items := by
    rw [hread]
    decide +kernel
  obtain ⟨hline, -⟩ := hchains _ hopener rfl
  have hends : Opener.ends items ⟨0, ⟨[], .conditional⟩⟩ = 2 := by
    rw [hread]
    decide +kernel
  obtain ⟨hclosings, hopen⟩ := hline [] "elseif b then" (.plain "elseif b then")
    (by rw [hends, hread]; rfl) rfl (by decide +kernel)
  rw [hends] at hopen
  exact ⟨_, items, hcompile, hstatements, rfl, hopener, hclosings, hopen.2 (by decide +kernel)⟩

/-- An `else` line with a statement of its own takes the conditional over, and nothing is open
behind it: there is no `end` in the line and none in the script. -/
theorem compile_else_statement :
    ∃ script items o text line,
      (inline "<% if true then\n  a\n<% else x = 1\n".toList).compile .standard 4 = .ok script ∧
      List.Forall₂ (fun line item => Item.ofLine .standard "given template string" line = .ok item)
        (Line.ofSource "<% if true then\n  a\n<% else x = 1\n".toList) items ∧
      o ∈ Item.openers items ∧ o.block.kind = .conditional ∧
      items[o.ends items]? = some (.code [] text line) ∧ Item.startsElse text = true ∧
      Item.takesOver items (o.ends items) o = true ∧ Text.contains text "end" = false ∧
      (¬∃ b ∈ Item.openBehind items (o.ends items + 1), b.kind = .conditional ∧ b.width = 0) ∧
      script.lines = ["if true then".toList, "    print('  a')".toList, "else x = 1".toList] := by
  have hcompile : (inline "<% if true then\n  a\n<% else x = 1\n".toList).compile .standard 4 =
      .ok ⟨4, [⟨0, "if true then", .real⟩, ⟨1, "print('  a')", .real⟩, ⟨0, "else x = 1", .real⟩]⟩ :=
    compile_eq_of_toOption (by decide +kernel)
  obtain ⟨items, hitems, -⟩ := items_of_compile hcompile
  have hread : items = [.code [] "if true then" (.plain "if true then"),
      .output "  " ["print('  a')"], .code [] "else x = 1" (.plain "else x = 1")] := by
    refine items_eq_of_forall₂ hitems ?_
    decide +kernel
  subst hread
  refine ⟨_, _, ⟨0, ⟨[], .conditional⟩⟩, "else x = 1", .plain "else x = 1", hcompile, hitems, ?_⟩
  decide +kernel

end Template
end Stencil
