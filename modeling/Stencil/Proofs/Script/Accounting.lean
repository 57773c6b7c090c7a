import Mathlib.Data.List.Forall2
import Stencil.Proofs.Script.Items
import Stencil.Proofs.Script.LineMap

/-! How the lines of a script account for the lines of its template.

Every line of a template has a group of statements in the script: the statements that it generates
itself, the first of them real, and behind them the closings of blocks that come before the first
statement of the next line. Blank lines are held back, but they are held in order, so the groups
stand in the order of the lines (`exists_groups`). `compile_accounts` says what the line map of a
compiled template tells from that. -/
namespace Stencil

/-! ### Groups -/

theorem forall₂_comp {α β γ : Type} {R : α → β → Prop} {S : β → γ → Prop} {as : List α}
    {bs : List β} {cs : List γ} (hR : List.Forall₂ R as bs) (hS : List.Forall₂ S bs cs) :
    List.Forall₂ (fun a c => ∃ b, R a b ∧ S b c) as cs := by
  induction hR generalizing cs with
  | nil =>
    cases hS
    exact .nil
  | cons hab _ ih =>
    cases hS with
    | cons hbc hrest => exact .cons ⟨_, hab, hbc⟩ (ih hrest)

/-- A statement that closes a block which the template leaves by its indentation alone. -/
def Statement.IsClosing (s : Statement) : Prop :=
  s.kind = .phantom ∧ ∃ kind : BlockKind, s.text = kind.closer

/-- The statements of a line: those that it generates itself, and closings behind them. -/
structure Item.Accounts (item : Item) (group : List Statement) : Prop where
  split : ∃ depth leftover closings, group = realThenPhantoms depth (item.texts leftover) ++ closings
    ∧ leftover <:+ item.indent ∧ ∀ s ∈ closings, s.IsClosing

namespace Item

theorem isClosing_of_mem_map_closing {closed : List ClosedBlock} {s : Statement}
    (h : s ∈ closed.map closing) : s.IsClosing := by
  obtain ⟨c, _, rfl⟩ := List.mem_map.1 h
  exact ⟨rfl, c.block.kind, rfl⟩

theorem Accounts.isGroup {item : Item} {group : List Statement} (h : item.Accounts group)
    (hne : ∀ leftover, item.texts leftover ≠ []) : IsGroup group := by
  obtain ⟨depth, leftover, closings, rfl, _, hclosings⟩ := h.split
  cases htexts : item.texts leftover with
  | nil => exact absurd htexts (hne leftover)
  | cons first rest =>
    refine ⟨realAt depth first, rest.map (⟨depth, ·, .phantom⟩) ++ closings, rfl, rfl, ?_⟩
    intro s hs
    rcases List.mem_append.1 hs with hs | hs
    · obtain ⟨text, _, rfl⟩ := List.mem_map.1 hs
      rfl
    · exact (hclosings s hs).1

/-- Closings may be added behind the statements of a line. -/
theorem accounts_own (item : Item) (depth : Nat) {leftover : Text} (h : leftover <:+ item.indent)
    {closings : List Statement} (hclosings : ∀ s ∈ closings, s.IsClosing) :
    item.Accounts (realThenPhantoms depth (item.texts leftover) ++ closings) :=
  ⟨depth, leftover, closings, rfl, h, hclosings⟩

/-- The blank lines that are held back, each accounting for its own statement. -/
theorem accounts_held (depth : Nat) (held : List Text) :
    List.Forall₂ Accounts (held.map blank) (held.map fun text => [realAt depth text]) := by
  induction held with
  | nil => exact .nil
  | cons text rest ih =>
    exact .cons (accounts_own (blank text) depth (List.suffix_refl []) (by simp)) ih

theorem flatten_map_realAt (depth : Nat) (held : List Text) :
    (held.map fun text => [realAt depth text]).flatten = held.map (realAt depth) := by
  induction held with
  | nil => rfl
  | cons text rest ih => simpa using ih

/-- The statements for a line that is not blank, at a place, before and behind those of other
lines: what waits goes before the line, what the line closes before that. -/
theorem exists_groups_of_lay {s : State} (item : Item) (closings : List Statement)
    {place : Placement} (hleftover : place.leftover <:+ item.indent) {rest : List Item}
    {restStatements : List Statement}
    (hrest : ∃ lead groups, restStatements = lead ++ groups.flatten ∧ (∀ c ∈ lead, c.IsClosing) ∧
      List.Forall₂ Accounts rest groups) :
    ∃ groups, closings ++ s.held.map (realAt place.depth)
          ++ realThenPhantoms place.depth (item.texts place.leftover) ++ restStatements =
        closings ++ groups.flatten ∧
      List.Forall₂ Accounts (s.held.map blank ++ item :: rest) groups := by
  obtain ⟨lead, groups, rfl, hlead, haccounts⟩ := hrest
  refine ⟨(s.held.map fun text => [realAt place.depth text]) ++
    (realThenPhantoms place.depth (item.texts place.leftover) ++ lead) :: groups, ?_, ?_⟩
  · simp [flatten_map_realAt]
  · exact List.rel_append (accounts_held place.depth s.held)
      (.cons (accounts_own item place.depth hleftover hlead) haccounts)

theorem leftover_suffix (n : Nesting) (indent : Text) : (n.placement indent).leftover <:+ indent :=
  List.drop_suffix _ _

/-- **The script of some items is made of one group for each of them**, those that wait first. Only
blocks that are open already can be closed before the first group. -/
theorem exists_groups (s : State) (items : List Item) :
    ∃ lead groups, statementsFrom s items = lead ++ groups.flatten ∧
      ((∀ c ∈ lead, c.IsClosing) ∧ (s.nesting = [] → lead = [])) ∧
      List.Forall₂ Accounts (s.held.map blank ++ items) groups := by
  induction items generalizing s with
  | nil =>
    refine ⟨s.nesting.closeAll.map closing, s.held.map fun text => [realAt 0 text], ?_, ⟨?_, ?_⟩, ?_⟩
    · rw [flatten_map_realAt]
      rfl
    · exact fun c hc => isClosing_of_mem_map_closing hc
    · intro hnesting
      rw [hnesting]
      rfl
    · rw [List.append_nil]
      exact accounts_held 0 s.held
  | cons item rest ih =>
    cases item with
    | blank statement =>
      obtain ⟨lead, groups, hstatements, hlead, haccounts⟩ :=
        ih { s with held := s.held ++ [statement] }
      refine ⟨lead, groups, hstatements, hlead, ?_⟩
      simpa using haccounts
    | output indent statements =>
      obtain ⟨lead, groups, hrest, hlead, haccounts⟩ := ih ⟨s.nesting.afterLine indent none, []⟩
      obtain ⟨groups', hgroups, haccounts'⟩ := exists_groups_of_lay (s := s)
        (output indent statements) ((s.nesting.placement indent).closed.map closing)
        (leftover_suffix s.nesting indent)
        ⟨lead, groups, hrest, hlead.1, haccounts⟩
      refine ⟨_, groups', hgroups, ⟨fun c hc => isClosing_of_mem_map_closing hc, ?_⟩, haccounts'⟩
      intro hnesting
      rw [hnesting]
      rfl
    | code indent text line =>
      obtain ⟨lead, groups, hrest, hlead, haccounts⟩ :=
        ih ⟨s.nesting.afterLine indent (BlockKind.opening? text), []⟩
      obtain ⟨groups', hgroups, haccounts'⟩ := exists_groups_of_lay (s := s)
        (code indent text line)
        ((closedBefore (s.nesting.placement indent).closed indent text).map closing)
        (leftover_suffix s.nesting indent)
        ⟨lead, groups, hrest, hlead.1, haccounts⟩
      refine ⟨_, groups', hgroups, ⟨fun c hc => isClosing_of_mem_map_closing hc, ?_⟩, haccounts'⟩
      intro hnesting
      rw [hnesting]
      rfl

end Item

namespace Template

/-- The statements of a compiled template in groups, one for each of its lines. -/
theorem groups_of_compile {d : Delimiters} {unit : Nat} {t : Template} {script : Script}
    (h : t.compile d unit = .ok script) :
    ∃ groups, script.statements = groups.flatten ∧ (∀ g ∈ groups, IsGroup g) ∧
      List.Forall₂ (fun line group => ∃ item, Item.ofLine d t.description line = .ok item ∧
        item.Accounts group) (Line.ofSource t.source) groups := by
  obtain ⟨items, hitems, hstatements⟩ := items_of_compile h
  obtain ⟨lead, groups, hgroups, ⟨_, hlead⟩, haccounts⟩ := Item.exists_groups .start items
  rw [hlead rfl, List.nil_append] at hgroups
  have hlines := forall₂_comp hitems haccounts
  refine ⟨groups, hstatements.trans hgroups, ?_, hlines⟩
  intro g hg
  obtain ⟨i, hi, rfl⟩ := List.getElem_of_mem hg
  obtain ⟨item, hitem, hitemAccounts⟩ :=
    hlines.get (hlines.length_eq ▸ hi : i < (Line.ofSource t.source).length) hi
  exact hitemAccounts.isGroup (Item.texts_ne_nil hitem)

end Template

/-! ### Counting -/

theorem count_real_flatten (groups : List (List Statement)) (h : ∀ g ∈ groups, IsGroup g) :
    (groups.flatten.map Statement.kind).count .real = groups.length := by
  induction groups with
  | nil => rfl
  | cons g groups ih =>
    obtain ⟨first, rest, hg, hfirst, hrest⟩ := (h g List.mem_cons_self).split
    have hphantoms : (rest.map Statement.kind).count .real = 0 := by
      rw [List.count_eq_zero]
      intro hmem
      obtain ⟨s, hs, hkind⟩ := List.mem_map.1 hmem
      rw [hrest s hs] at hkind
      cases hkind
    rw [List.flatten_cons, List.map_append, List.count_append,
      ih fun g hg => h g (List.mem_cons_of_mem _ hg), hg, List.map_cons, hfirst,
      List.count_cons_self, hphantoms, List.length_cons]
    omega

/-- The first line of a script is real if its statements are in groups. -/
theorem one_le_count_take {groups : List (List Statement)} (h : ∀ g ∈ groups, IsGroup g)
    {i : Nat} (hi : 1 ≤ i) (hle : i ≤ groups.flatten.length) :
    1 ≤ ((groups.flatten.map Statement.kind).take i).count .real := by
  cases groups with
  | nil => simp at hle; omega
  | cons g groups =>
    obtain ⟨first, rest, hg, hfirst, _⟩ := (h g List.mem_cons_self).split
    rw [List.flatten_cons, hg, List.cons_append, List.map_cons, hfirst,
      show i = i - 1 + 1 by omega, List.take_succ_cons, List.count_cons_self]
    omega

theorem number_getElem_ofSource (source : Text) (i : Nat) (hi : i < (Line.ofSource source).length) :
    (Line.ofSource source)[i].number = i + 1 := by
  simp [Line.ofSource]

/-! ### The end of the code -/

theorem Text.trimEnd_append_blanks (t : Text) :
    ∃ blanks : Text, blanks.all isBlank ∧ t = t.trimEnd ++ blanks := by
  obtain ⟨blanks, hsplit, hblanks, _⟩ := exists_dropEndWhile isBlank t
  exact ⟨blanks, List.all_eq_true.2 hblanks, hsplit⟩

/-- Nothing that is left of a text behind its last character that is no blank. -/
theorem Text.getLast?_trimEnd (t : Text) : ∀ c ∈ t.trimEnd.getLast?, isBlank c = false := by
  obtain ⟨_, _, _, hlast⟩ := exists_dropEndWhile isBlank t
  exact hlast

namespace Template

/-- **Line accounting.** Of the lines that a template is compiled to, the map counts as many real
ones as the template has lines; the code is those lines and nothing else, up to blanks at its end;
going down the script the source line begins at the first line, goes up in steps of one and leaves
none out; and the script lines of a template line are its own statements in their order, with
nothing but implicit closings behind them. -/
theorem compile_accounts {d : Delimiters} {unit : Nat} {t : Template} {script : Script}
    (h : t.compile d unit = .ok script) :
    script.lineMap.real = (Line.ofSource t.source).length ∧
    (script.lines.length = script.lineMap.total ∧
      (∃ blanks : Text, blanks.all isBlank ∧
        Text.join "\n" script.lines = script.code ++ blanks) ∧
      ∀ c ∈ script.code.getLast?, isBlank c = false) ∧
    ((∀ i, 1 ≤ i → i ≤ script.lineMap.total → 1 ≤ script.lineMap.sourceLine i ∧
        script.lineMap.sourceLine i ≤ (Line.ofSource t.source).length) ∧
      (∀ i, 1 ≤ i → i < script.lineMap.total →
        script.lineMap.sourceLine i ≤ script.lineMap.sourceLine (i + 1) ∧
        script.lineMap.sourceLine (i + 1) ≤ script.lineMap.sourceLine i + 1) ∧
      ∀ k, 1 ≤ k → k ≤ (Line.ofSource t.source).length →
        ∃ i, 1 ≤ i ∧ i ≤ script.lineMap.total ∧ script.lineMap.sourceLine i = k) ∧
    ∀ line ∈ Line.ofSource t.source, ∃ item, Item.ofLine d t.description line = .ok item ∧
      ∃ depth leftover closings, leftover <:+ item.indent ∧ item.texts leftover ≠ [] ∧
        (∀ s ∈ closings, s.IsClosing) ∧
        script.linesOf line.number =
          Item.realThenPhantoms depth (item.texts leftover) ++ closings := by
  obtain ⟨groups, hstatements, hgroups, hlines⟩ := groups_of_compile h
  have hmap : script.lineMap = LineMap.ofLines (groups.flatten.map Statement.kind) := by
    rw [Script.lineMap, hstatements]
  have htotal : script.lineMap.total = groups.flatten.length := by
    rw [hmap, LineMap.total_ofLines, List.length_map]
  have hreal : (groups.flatten.map Statement.kind).count .real = (Line.ofSource t.source).length := by
    rw [count_real_flatten groups hgroups, hlines.length_eq]
  have hsource : ∀ i ≤ script.lineMap.total,
      script.lineMap.sourceLine i = ((groups.flatten.map Statement.kind).take i).count .real := by
    intro i hi
    rw [hmap, LineMap.sourceLine_ofLines]
    rwa [List.length_map, ← htotal]
  have hlinesOf : ∀ k, script.linesOf (k + 1) = (groups[k]?).getD [] := by
    intro k
    rw [← Script.linesOf_flatten script.indentUnit k groups hgroups, ← hstatements]
  refine ⟨?_, ⟨?_, ?_, ?_⟩, ⟨?_, ?_, ?_⟩, ?_⟩
  · rw [hmap, LineMap.ofLines_eq]
    exact hreal
  · rw [htotal, Script.lines, List.length_map, hstatements]
  · exact Text.trimEnd_append_blanks _
  · exact Text.getLast?_trimEnd _
  · intro i hi hle
    rw [hsource i hle]
    refine ⟨one_le_count_take hgroups hi (htotal ▸ hle), ?_⟩
    rw [← hreal]
    exact (List.take_sublist i _).count_le _
  · intro i _ hlt
    rw [hmap]
    exact LineMap.sourceLine_step _ i (by rwa [List.length_map, ← htotal])
  · intro k hk hle
    obtain ⟨k, rfl⟩ : ∃ j, k = j + 1 := ⟨k - 1, by omega⟩
    have hlt : k < groups.length := by rw [← hlines.length_eq]; omega
    obtain ⟨first, rest, hgroup, _⟩ := (hgroups groups[k] (List.getElem_mem hlt)).split
    have hmem : first ∈ script.linesOf (k + 1) := by
      rw [hlinesOf, List.getElem?_eq_getElem hlt, Option.getD_some, hgroup]
      exact List.mem_cons_self
    obtain ⟨⟨_, i⟩, he, rfl⟩ := List.mem_map.1 hmem
    obtain ⟨hzip, hline⟩ := List.mem_filter.1 he
    obtain ⟨hlow, hhigh, _⟩ := List.mem_zipIdx hzip
    rw [hstatements, ← htotal] at hhigh
    exact ⟨i, hlow, by omega, by simpa using hline⟩
  · intro line hline
    obtain ⟨k, hk, rfl⟩ := List.getElem_of_mem hline
    have hlt : k < groups.length := by rw [← hlines.length_eq]; exact hk
    obtain ⟨item, hitem, haccounts⟩ := hlines.get hk hlt
    obtain ⟨depth, leftover, closings, hgroup, hleftover, hclosings⟩ := haccounts.split
    refine ⟨item, hitem, depth, leftover, closings, hleftover, Item.texts_ne_nil hitem leftover,
      hclosings, ?_⟩
    rw [number_getElem_ofSource, hlinesOf, List.getElem?_eq_getElem hlt, Option.getD_some]
    exact hgroup

/-- In a block with a blank line and a line of three pieces, seven script lines go back to four. -/
theorem compile_accounts_block :
    ∃ script, (inline "<% if x then\n\n  a<% x %>b\nc".toList).compile .standard 4 = .ok script ∧
      script.lineMap.real = 4 ∧ script.lines.length = script.lineMap.total ∧
      (List.range' 1 7).map script.lineMap.sourceLine = [1, 2, 3, 3, 3, 3, 4] := by
  have hcompile : (inline "<% if x then\n\n  a<% x %>b\nc".toList).compile .standard 4 =
      .ok ⟨4, [⟨0, "if x then", .real⟩, ⟨1, "print('')", .real⟩, ⟨1, "print('  a', \"\")", .real⟩,
        ⟨1, "print(str(x), \"\")", .phantom⟩, ⟨1, "print('b')", .phantom⟩, ⟨0, "end", .phantom⟩,
        ⟨0, "print('c', \"\")", .real⟩]⟩ :=
    compile_eq_of_toOption (by decide +kernel)
  obtain ⟨hreal, ⟨htotal, _⟩, _⟩ := compile_accounts hcompile
  exact ⟨_, hcompile, hreal, htotal, by decide +kernel⟩
end Template
end Stencil
