import Stencil.Proofs.Lua.Visible
import Stencil.Proofs.Script.Chains
import Stencil.Proofs.Script.Headers

/-! Which lines open a block.

A line of code opens a function when it ends in a rough header, strings and comments included
(`opening?_eq_function_iff`). That is a header of the script language as the line reads without
strings and comments, unless the code is `Misread` or a string or comment stands in the header
(`Interrupted`). A line in which every word that opens a block has one behind it that closes a block
opens nothing, unless it is misread; `compile_headers` says all of this for every code, and what it
means for a template. -/
namespace Stencil

open Lua

/-! ### Words that open and close blocks -/

def opensBlock (word : Text) : Bool :=
  ["do".toList, "then".toList, "else".toList, "repeat".toList, "function".toList].contains word

def closesBlock (word : Text) : Bool := ["end".toList, "until".toList].contains word

/-- Every word that opens a block has one behind it that closes a block. -/
def areMatched : List Text → Bool
  | [] => true
  | word :: rest => (!opensBlock word || rest.any closesBlock) && areMatched rest

theorem exists_closesBlock {before rest : List Text} {word : Text}
    (h : areMatched (before ++ word :: rest) = true) (hword : opensBlock word = true) :
    ∃ w ∈ rest, closesBlock w = true := by
  induction before with
  | nil =>
    rw [List.nil_append, areMatched, hword, Bool.not_true, Bool.false_or, Bool.and_eq_true] at h
    exact List.any_eq_true.1 h.1
  | cons w ws ih =>
    rw [List.cons_append, areMatched, Bool.and_eq_true] at h
    exact ih h.2

theorem closesBlock_of_isVariableName {word : Text} (h : isVariableName word = true) :
    closesBlock word = false := by
  rw [← Bool.not_eq_true]
  intro hcloses
  simp only [closesBlock, List.contains_iff_mem, List.mem_cons, List.not_mem_nil, or_false]
    at hcloses
  rcases hcloses with rfl | rfl
  all_goals exact absurd h (by decide)

/-- A header is open at the end of the code. -/
theorem areMatched_of_endsInHeader {t : Text}
    (h : EndsInHeader IsFunctionName IsParameterList t) : areMatched t.words = false := by
  obtain ⟨before, names, hwords, hnames⟩ := words_of_endsInHeader h
  rw [← Bool.not_eq_true, hwords]
  intro hmatched
  obtain ⟨word, hword, hcloses⟩ := exists_closesBlock hmatched (by decide)
  rw [closesBlock_of_isVariableName (hnames word hword)] at hcloses
  cases hcloses

/-- So is a block whose body begins at the end of the code. -/
theorem areMatched_of_endsWithWord {code word : Text} (hopens : opensBlock word = true)
    (h : (significantPrefix code).endsWithWord word = true) :
    areMatched (visible code).words = false := by
  obtain ⟨hne, hletters, hplain⟩ :
      word ≠ [] ∧ word.all isWordChar = true ∧ word.any isHiddenEnd = false := by
    simp only [opensBlock, List.contains_iff_mem, List.mem_cons, List.not_mem_nil, or_false]
      at hopens
    rcases hopens with rfl | rfl | rfl | rfl | rfl
    all_goals decide +kernel
  rw [List.any_eq_false] at hplain
  obtain ⟨before, hvisible, hbefore⟩ := visible_of_endsWithWord h hne fun c hc =>
    Bool.eq_false_iff.2 (hplain c hc)
  rw [← Bool.not_eq_true, hvisible, Text.words_append (.inl hbefore),
    Text.words_of_forall hne (List.all_eq_true.1 hletters)]
  intro hmatched
  obtain ⟨w, hw, -⟩ := exists_closesBlock hmatched hopens
  cases hw

/-! ### Code that ends in parentheses -/

/-- No string or comment ends within a rough head. -/
theorem isHiddenEnd_of_mem_head {t : Text} {c : Char} (h : IsHead IsRoughName t) (hc : c ∈ t) :
    isHiddenEnd c = false := by
  rw [← Bool.not_eq_true]
  intro hend
  have hnot : c ∉ "function".toList ∧ isBlank c = false ∧ isRoughNameChar c = false := by
    simp only [isHiddenEnd, List.contains_iff_mem, List.mem_cons, List.not_mem_nil, or_false]
      at hend
    rcases hend with rfl | rfl | rfl
    all_goals decide +kernel
  obtain ⟨hletter, hblank, hrough⟩ := hnot
  have hgap : ∀ gap : Text, (∀ d ∈ gap, isBlank d = true) → c ∉ gap := fun gap hgap hmem =>
    Bool.false_ne_true (hblank.symm.trans (hgap c hmem))
  cases h with
  | @unnamed gap hblanks => exact (List.mem_append.1 hc).elim hletter (hgap gap hblanks)
  | @named gap name gap' _ hblanks hname hblanks' =>
    rcases List.mem_append.1 hc with hc | hc
    · exact hletter hc
    · rcases List.mem_append.1 hc with hc | hc
      · exact hgap gap hblanks hc
      · rcases List.mem_append.1 hc with hc | hc
        · exact Bool.false_ne_true (hrough.symm.trans (hname.2 c hc))
        · exact hgap gap' hblanks' hc

/-- Code that ends in a closing parenthesis, cut at an opening one and where a header may begin,
with its marks. -/
structure Cut where
  before : List (Char × Bool)
  head : List (Char × Bool)
  /-- Whether the opening parenthesis stands outside strings and comments. -/
  isOpen : Bool
  inside : List (Char × Bool)

namespace Cut

variable {code : Text} {cut : Cut}

def marked (cut : Cut) : List (Char × Bool) :=
  cut.before ++ (cut.head ++ ('(', cut.isOpen) :: (cut.inside ++ [(')', true)]))

/-- The cut is one at a rough header, strings and comments included. -/
structure IsRough (cut : Cut) : Prop where
  before : Text.EndsOutsideWord (cut.before.map Prod.fst)
  head : IsHead IsRoughName (cut.head.map Prod.fst)
  inside : '(' ∉ cut.inside.map Prod.fst

/-- The cut is one at a header of the script language, without strings and comments. -/
structure IsProper (cut : Cut) : Prop where
  isOpen : cut.isOpen = true
  before : Text.EndsOutsideWord (cut.before.map shown)
  head : IsHead IsFunctionName (cut.head.map shown)
  inside : IsParameterList (cut.inside.map shown)

/-- Parentheses that are read are those of the code. -/
theorem exists_of_map {f : Char × Bool → Char} {before head inside : Text}
    (hf : ∀ m, f m ≠ ' ' → f m = m.1)
    (h : (ending code).map f = before ++ (head ++ '(' :: (inside ++ [')']))) :
    ∃ cut : Cut, ending code = cut.marked ∧ cut.before.map f = before ∧ cut.head.map f = head ∧
      f ('(', cut.isOpen) = '(' ∧ cut.inside.map f = inside := by
  obtain ⟨ms, rest, hending, hbefore, h⟩ := List.map_eq_append_iff.1 h
  obtain ⟨name, rest, rfl, hhead, h⟩ := List.map_eq_append_iff.1 h
  obtain ⟨⟨c, isOpen⟩, rest, rfl, hopening, h⟩ := List.map_eq_cons_iff.1 h
  obtain ⟨ns, rest, rfl, hinside, h⟩ := List.map_eq_append_iff.1 h
  obtain ⟨⟨d, mark⟩, rest, rfl, hclosing, h⟩ := List.map_eq_cons_iff.1 h
  rw [List.map_eq_nil_iff] at h
  subst h
  obtain rfl : '(' = c := by
    rw [← hopening]
    exact hf _ (by rw [hopening]; decide)
  obtain rfl : ')' = d := by
    rw [← hclosing]
    exact hf _ (by rw [hclosing]; decide)
  have hmem : (')', mark) ∈ (ending code).getLast? := by
    rw [hending]
    simp [List.getLast?_cons]
  cases significant_of_mem_getLast?_ending hmem
  exact ⟨⟨ms, name, isOpen, ns⟩, hending, hbefore, hhead, hopening, hinside⟩

theorem endsInHeader_significantPrefix_iff :
    EndsInHeader IsRoughName ('(' ∉ ·) (significantPrefix code) ↔
      ∃ cut : Cut, ending code = cut.marked ∧ cut.IsRough := by
  rw [← map_fst_ending]
  constructor
  · rintro ⟨before, head, inside, h, hbefore, hhead, hinside⟩
    obtain ⟨cut, hcut, rfl, rfl, -, rfl⟩ := exists_of_map (fun _ _ => rfl) h
    exact ⟨cut, hcut, hbefore, hhead, hinside⟩
  · rintro ⟨cut, hcut, h⟩
    exact ⟨_, _, _, by rw [hcut]; simp [marked], h.before, h.head, h.inside⟩

theorem endsInHeader_visible_iff :
    EndsInHeader IsFunctionName IsParameterList (visible code) ↔
      ∃ cut : Cut, ending code = cut.marked ∧ cut.IsProper := by
  have hshown : ∀ m, shown m ≠ ' ' → shown m = m.1 := by
    rintro ⟨c, significant⟩ hm
    cases significant with
    | true => rfl
    | false => exact absurd rfl hm
  constructor
  · rintro ⟨before, head, inside, h, hbefore, hhead, hinside⟩
    obtain ⟨cut, hcut, rfl, rfl, hopening, rfl⟩ := exists_of_map hshown h
    have hopen : cut.isOpen = true := by
      cases hopen : cut.isOpen with
      | true => rfl
      | false =>
        rw [hopen] at hopening
        exact absurd hopening (by decide)
    exact ⟨cut, hcut, hopen, hbefore, hhead, hinside⟩
  · rintro ⟨cut, hcut, h⟩
    refine ⟨_, _, _, ?_, h.before, h.head, h.inside⟩
    rw [visible, hcut, marked, h.isOpen]
    simp [shown]

/-- Code with one opening parenthesis is cut there. -/
theorem eq_of_notMem {front inside : List (Char × Bool)}
    (hcode : ending code = front ++ ('(', true) :: (inside ++ [(')', true)]))
    (hfront : '(' ∉ front.map Prod.fst) (hinside : '(' ∉ inside.map Prod.fst)
    (hcut : ending code = cut.marked) :
    cut.before ++ cut.head = front ∧ cut.isOpen = true ∧ cut.inside = inside := by
  have hfront : ('(', cut.isOpen) ∉ front := fun hmem => hfront (List.mem_map_of_mem hmem)
  have hbehind : ('(', cut.isOpen) ∉ inside ++ [(')', true)] := by
    intro hmem
    rcases List.mem_append.1 hmem with hmem | hmem
    · exact hinside (List.mem_map_of_mem hmem)
    · cases List.mem_singleton.1 hmem
  rw [hcode, marked, ← List.append_assoc,
    List.append_cons_inj_of_notMem hfront hbehind] at hcut
  obtain ⟨hhead, hopen, hinside⟩ := hcut
  exact ⟨hhead.symm, (congrArg Prod.snd hopen).symm, (List.append_cancel_right hinside).symm⟩

theorem endsOutsideWord_iff (hcut : ending code = cut.marked) (hne : cut.head ≠ [])
    (h : ∀ m ∈ cut.head, m.2 = true) :
    Text.EndsOutsideWord (cut.before.map shown) ↔
      Text.EndsOutsideWord (cut.before.map Prod.fst) := by
  have hchain := isChain_ending code
  rw [hcut, marked] at hchain
  obtain ⟨⟨c, mark⟩, cs, hhead⟩ := List.exists_cons_of_ne_nil hne
  rw [hhead] at hchain h
  cases h _ List.mem_cons_self
  exact Lua.endsOutsideWord_iff hchain

/-- Before a significant parenthesis a rough head is significant. -/
theorem IsRough.significant (h : cut.IsRough) (hcut : ending code = cut.marked)
    (hopen : cut.isOpen = true) : ∀ m ∈ cut.head, m.2 = true := by
  have hchain := isChain_ending code
  rw [hcut, marked, hopen] at hchain
  refine significant_of_behind hchain.right_of_append fun m hm => ?_
  exact isHiddenEnd_of_mem_head h.head (List.mem_map_of_mem hm)

end Cut

/-! ### Headers that are misread -/

/-- The code ends in a rough header which is none of the script language: its opening parenthesis
stands in a string or comment, or what is taken for a name or for parameters is none. So it is when
a function is closed again within the parentheses that the code ends in. -/
def Misread (code : Text) : Prop :=
  ∃ cut : Cut, ending code = cut.marked ∧ cut.IsRough ∧
    (cut.isOpen = false ∨ ¬IsHead IsFunctionName (cut.head.map Prod.fst) ∨
      ¬IsParameterList (cut.inside.map shown))

/-- The code ends in a header of the script language, with a string or comment before its opening
parenthesis, blanks within its name, or an opening parenthesis in a comment behind. -/
def Interrupted (code : Text) : Prop :=
  ∃ cut : Cut, ending code = cut.marked ∧ cut.IsProper ∧
    ((∃ m ∈ cut.head, m.2 = false) ∨ ¬IsHead IsRoughName (cut.head.map shown) ∨
      '(' ∈ cut.inside.map Prod.fst)

variable {code : Text}

theorem endsInHeader_visible_of_not_misread
    (h : EndsInHeader IsRoughName ('(' ∉ ·) (significantPrefix code)) (hread : ¬Misread code) :
    EndsInHeader IsFunctionName IsParameterList (visible code) := by
  obtain ⟨cut, hcut, hrough⟩ := Cut.endsInHeader_significantPrefix_iff.1 h
  have hopen : cut.isOpen = true := by
    by_contra hopen
    exact hread ⟨cut, hcut, hrough, .inl (Bool.eq_false_iff.2 hopen)⟩
  have hhead : IsHead IsFunctionName (cut.head.map Prod.fst) := by
    by_contra hhead
    exact hread ⟨cut, hcut, hrough, .inr (.inl hhead)⟩
  have hinside : IsParameterList (cut.inside.map shown) := by
    by_contra hinside
    exact hread ⟨cut, hcut, hrough, .inr (.inr hinside)⟩
  have hsignificant := hrough.significant hcut hopen
  have hne : cut.head ≠ [] := mt List.map_eq_nil_iff.2 hrough.head.ne_nil
  refine Cut.endsInHeader_visible_iff.2 ⟨cut, hcut, hopen, ?_, ?_, hinside⟩
  · exact (Cut.endsOutsideWord_iff hcut hne hsignificant).2 hrough.before
  · rw [map_shown_of_significant hsignificant]
    exact hhead

/-- Code that does not end in a closing parenthesis is read as it is. -/
theorem not_misread_of_getLast? (h : (significantPrefix code).getLast? ≠ some ')') :
    ¬Misread code := by
  rintro ⟨cut, hcut, -⟩
  refine h ?_
  rw [← map_fst_ending, hcut, Cut.marked]
  simp [List.getLast?_cons]

theorem endsInHeader_significantPrefix_of_not_interrupted
    (h : EndsInHeader IsFunctionName IsParameterList (visible code))
    (hwhole : ¬Interrupted code) :
    EndsInHeader IsRoughName ('(' ∉ ·) (significantPrefix code) := by
  obtain ⟨cut, hcut, hproper⟩ := Cut.endsInHeader_visible_iff.1 h
  have hsignificant : ∀ m ∈ cut.head, m.2 = true := by
    intro m hm
    by_contra hmark
    exact hwhole ⟨cut, hcut, hproper, .inl ⟨m, hm, Bool.eq_false_iff.2 hmark⟩⟩
  have hhead : IsHead IsRoughName (cut.head.map shown) := by
    by_contra hhead
    exact hwhole ⟨cut, hcut, hproper, .inr (.inl hhead)⟩
  have hinside : '(' ∉ cut.inside.map Prod.fst := fun hinside =>
    hwhole ⟨cut, hcut, hproper, .inr (.inr hinside)⟩
  have hne : cut.head ≠ [] := mt List.map_eq_nil_iff.2 hproper.head.ne_nil
  refine Cut.endsInHeader_significantPrefix_iff.2 ⟨cut, hcut, ?_, ?_, hinside⟩
  · exact (Cut.endsOutsideWord_iff hcut hne hsignificant).1 hproper.before
  · rwa [map_shown_of_significant hsignificant] at hhead

/-! ### What a line opens -/

namespace BlockKind

theorem opening?_eq_function_iff :
    opening? code = some function ↔
      EndsInHeader IsRoughName ('(' ∉ ·) (significantPrefix code) := by
  rw [← endsInFunctionHeader_iff]
  constructor
  · intro h
    dsimp only [opening?] at h
    split_ifs at h
    · cases h
    · cases h
    · cases h
    · assumption
  · intro h
    have hlast : (significantPrefix code).getLast? = some ')' := by
      obtain ⟨before, head, inside, heq, -⟩ := endsInFunctionHeader_iff.1 h
      rw [heq]
      simp [List.getLast?_cons]
    have hword : ∀ word : Text, word ≠ [] → word.getLast? ≠ some ')' →
        (significantPrefix code).endsWithWord word = false := fun word hne hword =>
      Text.endsWithWord_of_getLast?_ne hne (by rw [hlast]; exact hword.symm)
    rw [opening?, hword "then" (by decide) (by decide), hword "else" (by decide) (by decide),
      hword "do" (by decide) (by decide), hword "repeat" (by decide) (by decide), h]
    rfl

/-- A line in which every block is closed again opens one only if it is misread. -/
theorem opening?_eq_none_iff (h : areMatched (visible code).words = true) :
    opening? code = none ↔ ¬Misread code := by
  constructor
  · rintro hnone ⟨cut, hcut, hrough, -⟩
    have hopens := opening?_eq_function_iff.2
      (Cut.endsInHeader_significantPrefix_iff.2 ⟨cut, hcut, hrough⟩)
    rw [hnone] at hopens
    cases hopens
  · intro hread
    have hword : ∀ word, opensBlock word = true →
        (significantPrefix code).endsWithWord word = false := by
      intro word hopens
      rw [← Bool.not_eq_true]
      intro hends
      rw [areMatched_of_endsWithWord hopens hends] at h
      cases h
    have hheader : endsInFunctionHeader (significantPrefix code) = false := by
      rw [← Bool.not_eq_true, endsInFunctionHeader_iff]
      intro hheader
      rw [areMatched_of_endsInHeader (endsInHeader_visible_of_not_misread hheader hread)] at h
      cases h
    rw [opening?, hword "then" (by decide), hword "else" (by decide), hword "do" (by decide),
      hword "repeat" (by decide), hheader]
    rfl

end BlockKind

/-- What opens nothing is not closed. -/
theorem Item.closings_eq_zero {items : List Item} {indent : Text} {line : CodeLine} {j : Nat}
    (hitem : items[j]? = some (.code indent code line)) (hnone : BlockKind.opening? code = none)
    {o : Opener} (ho : o.line = j) : closings items o = 0 := by
  rw [closings, (perm_flatMap_dueAt items).count_eq, List.count_eq_zero]
  intro hmem
  obtain ⟨item, hitem', hopens⟩ := mem_openers.1 (List.mem_filter.1 hmem).1
  rw [ho, hitem] at hitem'
  cases hitem'
  rw [opens?, hnone] at hopens
  cases hopens

/-- **Which lines open a function, and which open nothing.** For every code: it is taken to open a
function exactly when it ends in a rough header, strings and comments included. Unless it is
misread or its header is interrupted, that is when it ends in a header of the script language as it
reads without strings and comments. And if as it reads so every word that opens a block has one
behind it that closes a block, then the code opens nothing and is closed by nothing in a template,
unless it is misread; if it is misread, it does open a block. -/
theorem Template.compile_headers (code : Text) :
    (BlockKind.opening? code = some .function ↔
      EndsInHeader IsRoughName ('(' ∉ ·) (significantPrefix code)) ∧
    (¬Misread code → ¬Interrupted code →
      (BlockKind.opening? code = some .function ↔
        EndsInHeader IsFunctionName IsParameterList (visible code))) ∧
    (areMatched (visible code).words = true →
      (BlockKind.opening? code = none ↔ ¬Misread code) ∧
      (¬Misread code → ∀ (d : Delimiters) (unit : Nat) (t : Template) (script : Script),
        t.compile d unit = .ok script →
        ∃ items, List.Forall₂ (fun line item => Item.ofLine d t.description line = .ok item)
            (Line.ofSource t.source) items ∧
          script.statements = (List.range (items.length + 1)).flatMap (Item.segment items) ∧
          ∀ j indent line, items[j]? = some (.code indent code line) →
            ∀ o : Opener, o.line = j → Item.closings items o = 0)) := by
  refine ⟨BlockKind.opening?_eq_function_iff, fun hread hwhole => ?_, fun hmatched => ?_⟩
  · rw [BlockKind.opening?_eq_function_iff]
    exact ⟨(endsInHeader_visible_of_not_misread · hread),
      (endsInHeader_significantPrefix_of_not_interrupted · hwhole)⟩
  · refine ⟨BlockKind.opening?_eq_none_iff hmatched, fun hread d unit t script hcompile => ?_⟩
    have hnone := (BlockKind.opening?_eq_none_iff hmatched).2 hread
    obtain ⟨items, hitems, hstatements⟩ := items_of_compile hcompile
    refine ⟨items, hitems, hstatements.trans (Item.statements_eq_flatMap_segment items), ?_⟩
    exact fun j indent line hitem o ho => Item.closings_eq_zero hitem hnone ho

/-- A line that ends in a header opens a function, and one with the whole function opens nothing. -/
theorem Template.compile_headers_local :
    (¬Misread "local function f(a, ...) -- (" ∧ ¬Interrupted "local function f(a, ...) -- (" ∧
      EndsInHeader IsFunctionName IsParameterList (visible "local function f(a, ...) -- (")) ∧
    areMatched (visible "f = function(a) return a end").words = true ∧
    ¬Misread "f = function(a) return a end" ∧
    BlockKind.opening? "f = function(a) return a end" = none ∧
    ∃ script items, (inline "<% f = function(a) return a end\nx".toList).compile .standard 2 =
        .ok script ∧
      script.statements = (List.range (items.length + 1)).flatMap (Item.segment items) ∧
      script.lines = ["f = function(a) return a end".toList, "print('x', \"\")".toList] ∧
      ∀ o : Opener, o.line = 0 → Item.closings items o = 0 := by
  have hending : ending "local function f(a, ...) -- (" =
      "local function f".toList.map (·, true) ++
        ('(', true) :: ("a, ...".toList.map (·, true) ++ [(')', true)]) := by
    decide +kernel
  have hfunction : ∀ k ≤ 16, "function".toList <+: "local function f".toList.drop k → k = 6 := by
    decide +kernel
  have hhead : ∀ {isName : Text → Prop} {before head : List (Char × Bool)},
      before ++ head = "local function f".toList.map (·, true) →
      IsHead isName (head.map Prod.fst) → head = "function f".toList.map (·, true) := by
    intro isName before head heq h
    have hfst : before.map Prod.fst ++ head.map Prod.fst = "local function f".toList := by
      rw [← List.map_append, heq]
      rfl
    have hlength := congrArg List.length hfst
    rw [List.length_append, List.length_map] at hlength
    have hbefore : before.length = 6 := by
      refine hfunction before.length ?_ ?_
      · exact Nat.le_trans (Nat.le_add_right _ _) (Nat.le_of_eq hlength)
      · rw [← hfst, List.drop_left' (List.length_map _)]
        exact h.isPrefix
    have hdrop : (before ++ head).drop 6 = head := List.drop_left' hbefore
    rw [← hdrop, heq]
    rfl
  have hblank : ∀ c ∈ [' '], isBlank c = true := List.all_eq_true.1 rfl
  have hnone : ∀ c ∈ ([] : Text), isBlank c = true := List.all_eq_true.1 rfl
  have hrough : IsHead IsRoughName ("function".toList ++ ([' '] ++ (['f'] ++ []))) :=
    .named (by decide) hblank ⟨by decide, List.all_eq_true.1 rfl⟩ hnone
  have hproper : IsHead IsFunctionName ("function".toList ++ ([' '] ++ (['f'] ++ []))) :=
    .named (by decide) hblank (.path (.name (by decide))) hnone
  have hlist : IsParameterList ([] ++ (['a'] ++ []) ++ ',' :: ([' '] ++ ("...".toList ++ []))) :=
    .inr (.cons hnone (by decide) hnone (.last hblank (.inr rfl) hnone))
  have hread : ¬Misread "local function f(a, ...) -- (" := by
    rintro ⟨cut, hmarked, hcutRough, hbad⟩
    obtain ⟨heq, hopen, hinside⟩ :=
      Cut.eq_of_notMem hending (by decide) (by decide) hmarked
    rw [hopen, hhead heq hcutRough.head, hinside] at hbad
    rcases hbad with hbad | hbad | hbad
    · cases hbad
    · exact hbad hproper
    · exact hbad hlist
  have hwhole : ¬Interrupted "local function f(a, ...) -- (" := by
    rintro ⟨cut, hmarked, hcutProper, hbad⟩
    obtain ⟨heq, hopen, hinside⟩ :=
      Cut.eq_of_notMem hending (by decide) (by decide) hmarked
    have hsignificant : ∀ m ∈ cut.head, m.2 = true := by
      intro m hm
      have hmem : m ∈ "local function f".toList.map (·, true) :=
        heq ▸ List.mem_append_right _ hm
      obtain ⟨c, -, rfl⟩ := List.mem_map.1 hmem
      rfl
    have hcutHead := hcutProper.head
    rw [map_shown_of_significant hsignificant] at hcutHead
    rw [hhead heq hcutHead, hinside] at hbad
    rcases hbad with hbad | hbad | hbad
    · exact absurd hbad (by decide)
    · exact hbad hrough
    · exact absurd hbad (by decide)
  have hclosed : ¬Misread "f = function(a) return a end" :=
    not_misread_of_getLast? (by decide +kernel)
  have hmatched : areMatched (visible "f = function(a) return a end").words = true := by
    decide +kernel
  have hcompile : (inline "<% f = function(a) return a end\nx".toList).compile .standard 2 =
      .ok ⟨2, [⟨0, "f = function(a) return a end", .real⟩, ⟨0, "print('x', \"\")", .real⟩]⟩ :=
    compile_eq_of_toOption (by decide +kernel)
  obtain ⟨-, hheader, -⟩ := Template.compile_headers "local function f(a, ...) -- ("
  obtain ⟨-, -, hcomplete⟩ := Template.compile_headers "f = function(a) return a end"
  obtain ⟨hnothing, hclosings⟩ := hcomplete hmatched
  obtain ⟨items, hitems, hstatements, hclosings⟩ := hclosings hclosed _ _ _ _ hcompile
  have hitem : items = [.code [] "f = function(a) return a end"
      (.plain "f = function(a) return a end"), .output [] ["print('x', \"\")"]] := by
    refine Template.items_eq_of_forall₂ hitems ?_
    decide +kernel
  refine ⟨⟨hread, hwhole, (hheader hread hwhole).1 (by decide +kernel)⟩, hmatched, hclosed,
    hnothing.2 hclosed, _, items, hcompile, hstatements, rfl, ?_⟩
  exact hclosings 0 [] (.plain "f = function(a) return a end") (by rw [hitem]; rfl)

/-- The parenthesis that the line ends in closes the call and not the parameters, and the function
is closed within the call. The line is taken to open a function all the same. -/
theorem Template.compile_headers_argument :
    BlockKind.opening? "f(function(a) return a end)" = some .function ∧
      ¬EndsInHeader IsFunctionName IsParameterList (visible "f(function(a) return a end)") ∧
      areMatched (visible "f(function(a) return a end)").words = true := by
  have hmatched : areMatched (visible "f(function(a) return a end)").words = true := by
    decide +kernel
  refine ⟨by decide +kernel, fun h => ?_, hmatched⟩
  rw [areMatched_of_endsInHeader h] at hmatched
  cases hmatched

end Stencil
