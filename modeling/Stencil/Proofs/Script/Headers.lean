import Stencil.Proofs.Outline.Lines
import Stencil.Proofs.Text.Words
import Stencil.Script.Block

/-! Headers of functions.

A header is `function`, an optional name and a list of parameters in parentheses. `EndsInHeader`
says that a text ends in one, for any notion of a name and of what may stand in the parentheses.
The library looks for a rough one, with anything in between that has no opening parenthesis
(`endsInFunctionHeader_iff`); the script language has names and parameters of its own
(`IsFunctionName`, `IsParameterList`), and all words of such a header behind `function` are names of
variables (`words_of_endsInHeader`). -/
namespace Stencil

variable {t name gap gap' : Text} {isName : Text → Prop}

/-! ### Headers -/

/-- A header up to its opening parenthesis. -/
inductive IsHead (isName : Text → Prop) : Text → Prop
  | unnamed {gap : Text} (hgap : ∀ c ∈ gap, isBlank c = true) : IsHead isName ("function" ++ gap)
  | named {gap name gap' : Text} (hne : gap ≠ []) (hgap : ∀ c ∈ gap, isBlank c = true)
      (hname : isName name) (hgap' : ∀ c ∈ gap', isBlank c = true) :
      IsHead isName ("function" ++ (gap ++ (name ++ gap')))

theorem IsHead.isPrefix (h : IsHead isName t) : "function".toList <+: t := by
  cases h with
  | unnamed => exact ⟨_, rfl⟩
  | named => exact ⟨_, rfl⟩

theorem IsHead.ne_nil (h : IsHead isName t) : t ≠ [] := by
  rintro rfl
  exact absurd (List.prefix_nil.1 h.isPrefix) (by decide)

/-- The text ends in a header, and `function` is a word of its own. -/
def EndsInHeader (isName isInside : Text → Prop) (t : Text) : Prop :=
  ∃ before head inside, t = before ++ (head ++ '(' :: (inside ++ [')'])) ∧
    before.EndsOutsideWord ∧ IsHead isName head ∧ isInside inside

/-! ### What the library looks for -/

/-- A character of what is taken for the name of a function. -/
def isRoughNameChar (c : Char) : Bool := isLetterOrDigit c || c ∈ ['_', '.', ':']

def IsRoughName (name : Text) : Prop := name ≠ [] ∧ ∀ c ∈ name, isRoughNameChar c = true

theorem isRoughNameChar_of_isBlank {c : Char} (h : isBlank c = true) :
    isRoughNameChar c = false := by
  have hc : c ∉ ['_', '.', ':'] := by
    simp only [List.mem_cons, List.not_mem_nil, or_false, not_or]
    refine ⟨?_, ?_, ?_⟩
    all_goals
      rintro rfl
      exact absurd h (by decide)
  rw [isRoughNameChar, Text.isLetterOrDigit_of_isBlank h, Bool.false_or]
  exact decide_eq_false hc

theorem isBlank_of_isRoughNameChar {c : Char} (h : isRoughNameChar c = true) :
    isBlank c = false := by
  rw [← Bool.not_eq_true]
  intro hblank
  rw [isRoughNameChar_of_isBlank hblank] at h
  cases h

theorem endsInk_function (before : Text) : (before ++ "function").EndsInk := by
  intro c hc
  rw [List.getLast?_append] at hc
  cases hc
  decide

/-- A text that ends in the head of a header, as the library finds it out. -/
def endsInHead (before : Text) : Bool :=
  let before := before.trimEnd
  let unnamed := before.dropEndWhile isRoughNameChar
  before.endsWithWord "function"
    || (unnamed.length < before.length && unnamed.trimEnd.endsWithWord "function")

theorem endsWithWord_trimEnd_iff :
    t.trimEnd.endsWithWord "function" = true ↔
      ∃ before gap, t = before ++ ("function" ++ gap) ∧ before.EndsOutsideWord ∧
        ∀ c ∈ gap, isBlank c = true := by
  rw [Text.endsWithWord_iff]
  constructor
  · rintro ⟨before, htrim, hbefore⟩
    obtain ⟨gap, ht, hgap, -⟩ := Text.exists_dropEndWhile isBlank t
    change t = t.trimEnd ++ gap at ht
    exact ⟨before, gap, by rw [ht, htrim, List.append_assoc], hbefore, hgap⟩
  · rintro ⟨before, gap, rfl, hbefore, hgap⟩
    refine ⟨before, ?_, hbefore⟩
    rw [← List.append_assoc, Text.trimEnd_append hgap (endsInk_function before)]

theorem endsInHead_iff :
    endsInHead t = true ↔
      ∃ before head, t = before ++ head ∧ before.EndsOutsideWord ∧ IsHead IsRoughName head := by
  unfold endsInHead
  rw [Bool.or_eq_true, Bool.and_eq_true, decide_eq_true_eq, endsWithWord_trimEnd_iff,
    endsWithWord_trimEnd_iff]
  constructor
  · rintro (⟨before, gap, rfl, hbefore, hgap⟩ | ⟨hlength, before, gap, hunnamed, hbefore, hgap⟩)
    · exact ⟨before, _, rfl, hbefore, .unnamed hgap⟩
    · obtain ⟨gap', ht, hgap', -⟩ := Text.exists_dropEndWhile isBlank t
      obtain ⟨name, hname, hrough, hlast⟩ := Text.exists_dropEndWhile isRoughNameChar t.trimEnd
      change t = t.trimEnd ++ gap' at ht
      rw [hunnamed] at hname hlast hlength
      have hne : gap ≠ [] := by
        rintro rfl
        rw [List.append_nil, List.getLast?_append] at hlast
        exact absurd (hlast 'n' rfl) (by decide)
      have hnamed : name ≠ [] := by
        rintro rfl
        rw [hname, List.append_nil] at hlength
        exact Nat.lt_irrefl _ hlength
      refine ⟨before, _, ?_, hbefore, .named hne hgap ⟨hnamed, hrough⟩ hgap'⟩
      rw [ht, hname]
      simp only [List.append_assoc]
  · rintro ⟨before, head, rfl, hbefore, hhead⟩
    cases hhead with
    | @unnamed gap hgap => exact .inl ⟨before, gap, rfl, hbefore, hgap⟩
    | @named gap name gap' hne hgap hname hgap' =>
      have hink : (before ++ ("function" ++ (gap ++ name))).EndsInk := by
        have hnameInk : name.EndsInk := fun c hc =>
          isBlank_of_isRoughNameChar (hname.2 c (List.mem_of_mem_getLast? hc))
        rw [← List.append_assoc, ← List.append_assoc]
        exact hnameInk.append hname.1 _
      have htrim := Text.trimEnd_append hgap' hink
      simp only [List.append_assoc] at htrim
      have hlast : ∀ c ∈ (before ++ ("function" ++ gap)).getLast?, isRoughNameChar c = false := by
        obtain ⟨last, hlast⟩ := Option.ne_none_iff_exists'.1 (mt List.getLast?_eq_none_iff.1 hne)
        intro c hc
        rw [← List.append_assoc, List.getLast?_append, hlast] at hc
        cases hc
        exact isRoughNameChar_of_isBlank (hgap _ (List.mem_of_getLast? hlast))
      have hunnamed := Text.dropEndWhile_append hlast hname.2
      simp only [List.append_assoc] at hunnamed
      rw [htrim, hunnamed]
      refine .inr ⟨?_, before, gap, rfl, hbefore, hgap⟩
      have := List.length_pos_iff.2 hname.1
      simp only [List.length_append]
      omega

/-- **The library takes code for one that opens a function if it ends in a rough header.** -/
theorem endsInFunctionHeader_iff :
    BlockKind.endsInFunctionHeader t = true ↔ EndsInHeader IsRoughName ('(' ∉ ·) t := by
  constructor
  · intro h
    unfold BlockKind.endsInFunctionHeader at h
    split at h
    · next head hreverse =>
      split at h
      · next front hfront =>
        obtain ⟨before, name, hbefore, hword, hname⟩ := endsInHead_iff.1 h
        refine ⟨before, name, (head.takeWhile (· != '(')).reverse, ?_, hword, hname, ?_⟩
        · have hhead : head.reverse =
              front.reverse ++ '(' :: (head.takeWhile (· != '(')).reverse := by
            rw [List.append_cons, ← List.reverse_cons, ← List.reverse_append, ← hfront,
              List.takeWhile_append_dropWhile]
          rw [← t.reverse_reverse, hreverse, List.reverse_cons, hhead, hbefore]
          simp only [List.append_assoc, List.cons_append]
        · intro hmem
          have := List.all_eq_true.1 List.all_takeWhile _ (List.mem_reverse.1 hmem)
          simp at this
      · cases h
    · cases h
  · rintro ⟨before, head, inside, rfl, hbefore, hhead, hinside⟩
    have hreverse : (before ++ (head ++ '(' :: (inside ++ [')']))).reverse =
        ')' :: (inside.reverse ++ '(' :: (before ++ head).reverse) := by
      simp
    have hdrop : (inside.reverse ++ '(' :: (before ++ head).reverse).dropWhile (· != '(') =
        '(' :: (before ++ head).reverse := by
      refine (Text.span_of_all (fun c hc => ?_) (by rintro _ ⟨⟩; rfl)).2
      rw [bne_iff_ne]
      rintro rfl
      exact hinside (List.mem_reverse.1 hc)
    unfold BlockKind.endsInFunctionHeader
    simp only [hreverse, hdrop, List.reverse_reverse]
    exact endsInHead_iff.2 ⟨before, head, rfl, hbefore, hhead⟩

/-! ### What the script language has -/

/-- Variable names with dots between. -/
inductive IsPath : Text → Prop
  | name {t : Text} (h : isVariableName t = true) : IsPath t
  | field {t gap gap' name : Text} (hpath : IsPath t) (hgap : ∀ c ∈ gap, isBlank c = true)
      (hgap' : ∀ c ∈ gap', isBlank c = true) (hname : isVariableName name = true) :
      IsPath (t ++ (gap ++ '.' :: (gap' ++ name)))

/-- A path, or a path with the name of a method behind a colon. -/
inductive IsFunctionName : Text → Prop
  | path {t : Text} (h : IsPath t) : IsFunctionName t
  | method {t gap gap' name : Text} (hpath : IsPath t) (hgap : ∀ c ∈ gap, isBlank c = true)
      (hgap' : ∀ c ∈ gap', isBlank c = true) (hname : isVariableName name = true) :
      IsFunctionName (t ++ (gap ++ ':' :: (gap' ++ name)))

/-- Variable names with commas between; the last may be the dots. -/
inductive IsParameters : Text → Prop
  | last {gap name gap' : Text} (hgap : ∀ c ∈ gap, isBlank c = true)
      (hname : isVariableName name = true ∨ name = "...".toList)
      (hgap' : ∀ c ∈ gap', isBlank c = true) : IsParameters (gap ++ (name ++ gap'))
  | cons {gap name gap' rest : Text} (hgap : ∀ c ∈ gap, isBlank c = true)
      (hname : isVariableName name = true) (hgap' : ∀ c ∈ gap', isBlank c = true)
      (hrest : IsParameters rest) : IsParameters (gap ++ (name ++ gap') ++ ',' :: rest)

def IsParameterList (t : Text) : Prop := (∀ c ∈ t, isBlank c = true) ∨ IsParameters t

/-! ### The words of a header -/

theorem words_of_isBlank (hgap : ∀ c ∈ gap, isBlank c = true) : gap.words = [] :=
  Text.words_eq_nil fun c hc => Text.isWordChar_of_isBlank (hgap c hc)

theorem words_gap_append (hgap : ∀ c ∈ gap, isBlank c = true) (t : Text) :
    (gap ++ t).words = t.words := by
  have hends : gap.EndsOutsideWord := fun c hc =>
    Text.isWordChar_of_isBlank (hgap c (List.mem_of_mem_getLast? hc))
  rw [Text.words_append (.inl hends), words_of_isBlank hgap, List.nil_append]

theorem words_append_gap (hgap : ∀ c ∈ gap, isBlank c = true) (t : Text) :
    (t ++ gap).words = t.words := by
  have hstarts : gap.StartsOutsideWord := fun c hc =>
    Text.isWordChar_of_isBlank (hgap c (List.mem_of_mem_head? hc))
  rw [Text.words_append (.inr hstarts), words_of_isBlank hgap, List.append_nil]

/-- The words of two texts with a mark between them and blanks around it. -/
theorem words_separated {mark : Char} (hmark : isWordChar mark = false)
    (hgap : ∀ c ∈ gap, isBlank c = true) (hgap' : ∀ c ∈ gap', isBlank c = true) (t u : Text) :
    (t ++ (gap ++ mark :: (gap' ++ u))).words = t.words ++ u.words := by
  rw [← List.append_assoc, Text.words_append_cons hmark, words_append_gap hgap,
    words_gap_append hgap']

theorem isWordChar_of_isNameChar {c : Char} (h : Lua.isNameChar c = true) :
    isWordChar c = true := by
  have hascii : c.toNat < 128 := by
    have := (Lua.bounds_of_isNameChar h).2
    omega
  rw [isWordChar, isLetterOrDigit, if_pos hascii]
  exact h

theorem words_of_isVariableName (h : isVariableName name = true) : name.words = [name] := by
  obtain ⟨hword, -⟩ := Lua.isWord_of_isVariableName h
  exact Text.words_of_forall hword.ne_nil fun c hc => isWordChar_of_isNameChar (hword.chars c hc)

/-- Every word of the text is the name of a variable. -/
def HasNames (t : Text) : Prop := ∀ word ∈ t.words, isVariableName word = true

theorem hasNames_of_isVariableName (h : isVariableName name = true) : HasNames name := by
  intro word hword
  rw [words_of_isVariableName h] at hword
  exact List.mem_singleton.1 hword ▸ h

theorem HasNames.separated {u : Text} {mark : Char} (ht : HasNames t)
    (hmark : isWordChar mark = false) (hgap : ∀ c ∈ gap, isBlank c = true)
    (hgap' : ∀ c ∈ gap', isBlank c = true) (hu : HasNames u) :
    HasNames (t ++ (gap ++ mark :: (gap' ++ u))) := by
  intro word hword
  rw [words_separated hmark hgap hgap', List.mem_append] at hword
  exact hword.elim (ht word) (hu word)

theorem HasNames.padded (ht : HasNames t) (hgap : ∀ c ∈ gap, isBlank c = true)
    (hgap' : ∀ c ∈ gap', isBlank c = true) : HasNames (gap ++ (t ++ gap')) := by
  intro word hword
  rw [words_gap_append hgap, words_append_gap hgap'] at hword
  exact ht word hword

theorem IsPath.hasNames (h : IsPath t) : HasNames t := by
  induction h with
  | name h => exact hasNames_of_isVariableName h
  | field _ hgap hgap' hname ih =>
    exact ih.separated (by decide) hgap hgap' (hasNames_of_isVariableName hname)

theorem IsFunctionName.hasNames (h : IsFunctionName t) : HasNames t := by
  cases h with
  | path h => exact h.hasNames
  | method hpath hgap hgap' hname =>
    exact hpath.hasNames.separated (by decide) hgap hgap' (hasNames_of_isVariableName hname)

theorem IsParameters.hasNames (h : IsParameters t) : HasNames t := by
  induction h with
  | last hgap hname hgap' =>
    refine HasNames.padded ?_ hgap hgap'
    rcases hname with hname | rfl
    · exact hasNames_of_isVariableName hname
    · exact fun word hword => nomatch (show word ∈ [] from hword)
  | cons hgap hname hgap' _ ih =>
    have hfirst := (hasNames_of_isVariableName hname).padded hgap hgap'
    have hnone : ∀ c ∈ ([] : Text), isBlank c = true := fun _ h => nomatch h
    exact hfirst.separated (by decide) hnone hnone ih

theorem IsParameterList.hasNames (h : IsParameterList t) : HasNames t := by
  rcases h with h | h
  · intro word hword
    rw [words_of_isBlank h] at hword
    cases hword
  · exact h.hasNames

theorem words_of_isHead (h : IsHead IsFunctionName t) :
    ∃ names, t.words = "function".toList :: names ∧ ∀ word ∈ names, isVariableName word = true := by
  have hfunction : Text.words "function" = ["function".toList] := by decide +kernel
  cases h with
  | @unnamed gap hgap => exact ⟨[], by rw [words_append_gap hgap, hfunction], fun _ h => nomatch h⟩
  | @named gap name gap' hne hgap hname hgap' =>
    refine ⟨name.words, ?_, hname.hasNames⟩
    obtain ⟨c, cs, rfl⟩ := List.exists_cons_of_ne_nil hne
    obtain ⟨hc, hcs⟩ := List.forall_mem_cons.1 hgap
    rw [List.cons_append, Text.words_append_cons (Text.isWordChar_of_isBlank hc),
      words_gap_append hcs, words_append_gap hgap', hfunction]
    rfl

/-- Behind the `function` of a header come names of variables only. -/
theorem words_of_endsInHeader (h : EndsInHeader IsFunctionName IsParameterList t) :
    ∃ before names, t.words = before ++ "function".toList :: names ∧
      ∀ word ∈ names, isVariableName word = true := by
  obtain ⟨before, head, inside, rfl, hbefore, hhead, hinside⟩ := h
  obtain ⟨names, hwords, hnames⟩ := words_of_isHead hhead
  refine ⟨before.words, names ++ Text.words inside, ?_, ?_⟩
  · rw [Text.words_append (.inl hbefore), Text.words_append_cons (by decide), hwords,
      Text.words_append_cons (by decide), Text.words_nil, List.append_nil]
    rfl
  · intro word hword
    exact (List.mem_append.1 hword).elim (hnames word) (hinside.hasNames word)

end Stencil
