import Mathlib.Data.List.Forall2
import Stencil.Proofs.Line.Form
import Stencil.Proofs.Text.Occurrence

/-! The grammar of lines.

`Reading` says what a text and its fragments look like, and `Form.Reading` the same of a line and its
form, each with the characters that follow in place: whether a delimiter stands somewhere can depend
on them, as delimiters are any texts and can overlap. Exactly what has a reading is accepted
(`fragments_eq_ok_iff`, `ofLine_eq_ok_iff`), and what is refused has a piece that no reading can
account for (`Offending`). -/
namespace Stencil

variable {d : Delimiters}

/-- What is read as an expression. -/
structure Delimiters.IsExpr (d : Delimiters) (expr : Text) : Prop where
  ne_nil : expr ≠ []
  startsInk : expr.StartsInk
  endsInk : expr.EndsInk
  right : ¬ d.right <:+: expr

/-! ### Fragments -/

/-- The literal fragment of a text, if there is any text. -/
def literals (t : Text) : List Fragment := if t = [] then [] else [.literal t]

@[simp] theorem literals_nil : literals [] = [] := if_pos rfl

theorem literals_of_ne {t : Text} (h : t ≠ []) : literals t = [.literal t] := if_neg h

theorem literals_append (t : Text) (f : Fragment) (more : List Fragment) :
    (if t = [] then [f] else .literal t :: [f]) ++ more = literals t ++ f :: more := by
  by_cases h : t = []
  · rw [if_pos h, h, literals_nil]
    rfl
  · rw [if_neg h, literals_of_ne h]
    rfl

/-- A text and the fragments that it is made of. -/
inductive Reading (d : Delimiters) : Text → List Fragment → Prop
  | nil : Reading d [] []
  | literal {text : Text} (hne : text ≠ []) (hleft : ¬ d.left <:+: text) :
    Reading d text [.literal text]
  | escaped {before rest : Text} {fs : List Fragment} (hbefore : before.LeadsTo d.left)
    (hrest : Reading d rest fs) :
    Reading d (before ++ (d.left ++ (d.escape ++ rest))) (.escaped before :: fs)
  /-- The right delimiter is the first one behind the left one. -/
  | placeholder {before indent expr blanks rest : Text} {fs : List Fragment}
    (hbefore : before.LeadsTo d.left)
    (hescape : ¬ d.escape <+: indent ++ (expr ++ blanks) ++ (d.right ++ rest))
    (hright : (indent ++ (expr ++ blanks)).LeadsTo d.right)
    (hindent : ∀ c ∈ indent, isBlank c = true) (hexpr : d.IsExpr expr)
    (hblanks : ∀ c ∈ blanks, isBlank c = true) (hrest : Reading d rest fs) :
    Reading d (before ++ (d.left ++ (indent ++ (expr ++ blanks) ++ (d.right ++ rest))))
      (literals before ++ .placeholder expr :: fs)

/-- What a fragment is written as. -/
inductive Fragment.IsWritten (d : Delimiters) : Fragment → Text → Prop
  | literal {text : Text} (hne : text ≠ []) (hleft : ¬ d.left <:+: text) :
    IsWritten d (.literal text) text
  | escaped {before : Text} (hleft : ¬ d.left <:+: before) :
    IsWritten d (.escaped before) (before ++ d.left ++ d.escape)
  | placeholder {indent expr blanks : Text} (hindent : ∀ c ∈ indent, isBlank c = true)
    (hexpr : d.IsExpr expr) (hblanks : ∀ c ∈ blanks, isBlank c = true) :
    IsWritten d (.placeholder expr) (d.left ++ indent ++ expr ++ blanks ++ d.right)

/-- A piece of a text that cannot be read, behind a text that can. -/
inductive Offending (d : Delimiters) : Text → Text → Prop
  | unclosed {before inside : Text} {fs : List Fragment} (hbefore : Reading d before fs)
    (hescape : ¬ d.escape <+: inside) (hright : ¬ d.right <:+: inside) :
    Offending d (before ++ (d.left ++ inside)) (d.left ++ inside)
  | empty {before blanks rest : Text} {fs : List Fragment} (hbefore : Reading d before fs)
    (hescape : ¬ d.escape <+: blanks ++ (d.right ++ rest))
    (hblanks : ∀ c ∈ blanks, isBlank c = true) :
    Offending d (before ++ (d.left ++ (blanks ++ (d.right ++ rest)))) (d.left ++ blanks ++ d.right)

namespace Reading

theorem of_leadsTo {t : Text} (h : t.LeadsTo d.left) : Reading d t (literals t) := by
  by_cases hne : t = []
  · rw [hne, literals_nil]
    exact .nil
  · rw [literals_of_ne hne]
    exact .literal hne h.not_isInfix

/-- A text is made up of what its fragments are written as. -/
theorem exists_sources {t : Text} {fs : List Fragment} (h : Reading d t fs) :
    ∃ sources, List.Forall₂ (Fragment.IsWritten d) fs sources ∧ t = sources.flatten := by
  induction h with
  | nil => exact ⟨[], .nil, rfl⟩
  | literal hne hleft => exact ⟨[_], .cons (.literal hne hleft) .nil, by simp⟩
  | escaped hbefore _ ih =>
    obtain ⟨sources, hsources, rfl⟩ := ih
    exact ⟨_ :: sources, .cons (.escaped hbefore.not_isInfix) hsources, by simp⟩
  | @placeholder before _ _ _ _ _ hbefore _ _ hindent hexpr hblanks _ ih =>
    obtain ⟨sources, hsources, rfl⟩ := ih
    have hwritten := List.Forall₂.cons (Fragment.IsWritten.placeholder hindent hexpr hblanks) hsources
    by_cases hne : before = []
    · rw [hne, literals_nil]
      exact ⟨_, hwritten, by simp⟩
    · rw [literals_of_ne hne]
      exact ⟨_, .cons (.literal hne hbefore.not_isInfix) hwritten, by simp⟩

end Reading

theorem fragments_of_placeholder {t before inside between rest : Text} {fs : List Fragment}
    (hcut : Text.cut? d.left t = some (before, inside)) (hescape : Text.after? d.escape inside = none)
    (hright : Text.cut? d.right inside = some (between, rest)) (hexpr : between.trim ≠ [])
    (hrest : fragments d rest = .ok fs) :
    fragments d t = .ok (literals before ++ .placeholder between.trim :: fs) := by
  have ht : t ≠ [] := by
    rintro rfl
    rw [Text.cut?, if_neg d.left_ne] at hcut
    cases hcut
  rw [fragments, if_neg ht]
  split
  · next hnone => cases hcut.symm.trans hnone
  · next hsome =>
    cases hcut.symm.trans hsome
    split
    · next hfound => cases hescape.symm.trans hfound
    · split
      · next hnone => cases hright.symm.trans hnone
      · next hfound =>
        cases hright.symm.trans hfound
        dsimp only
        rw [if_neg hexpr, hrest, ← literals_append]
        rfl

theorem Reading.fragments_eq {t : Text} {fs : List Fragment} (h : Reading d t fs) :
    fragments d t = .ok fs := by
  induction h with
  | nil => exact fragments_nil
  | literal hne hleft => exact fragments_of_cut?_none hne ((Text.cut?_eq_none_iff d.left_ne).2 hleft)
  | escaped hbefore _ ih =>
    exact fragments_of_escape (Text.cut?_of_leadsTo d.left_ne hbefore _) (Text.after?_append _ _) ih
  | placeholder hbefore hescape hright hindent hexpr hblanks _ ih =>
    have htrim := Text.trim_append hindent hexpr.startsInk hexpr.endsInk hblanks
    have hfragments := fragments_of_placeholder (Text.cut?_of_leadsTo d.left_ne hbefore _)
      (Text.not_isPrefix_iff.1 hescape) (Text.cut?_of_leadsTo d.right_ne hright _)
      (by rw [htrim]; exact hexpr.ne_nil) ih
    rwa [htrim] at hfragments

/-- What is offending behind a text that can be read is offending in the whole. -/
theorem Offending.append (front : Text) {rest offending : Text} (h : Offending d rest offending)
    (hfront : ∀ t fs, t <+: rest → Reading d t fs → ∃ fs', Reading d (front ++ t) fs') :
    Offending d (front ++ rest) offending := by
  cases h with
  | unclosed hbefore hescape hright =>
    obtain ⟨fs', hread⟩ := hfront _ _ (List.prefix_append _ _) hbefore
    rw [← List.append_assoc]
    exact .unclosed hread hescape hright
  | empty hbefore hescape hblanks =>
    obtain ⟨fs', hread⟩ := hfront _ _ (List.prefix_append _ _) hbefore
    rw [← List.append_assoc]
    exact .empty hread hescape hblanks

/-- What stands between delimiters is an expression with blanks around it. -/
theorem isExpr_trim {between : Text} (h : ¬ d.right <:+: between) (hne : between.trim ≠ []) :
    d.IsExpr between.trim := by
  obtain ⟨before, behind, hsplit, _, _, hstart, hend⟩ := between.exists_trim
  refine ⟨hne, hstart, hend, fun hfound => h (hfound.trans ?_)⟩
  exact ⟨before, behind, by rw [List.append_assoc, ← hsplit]⟩

theorem Reading.of_between {before between rest : Text} {fs : List Fragment}
    (hbefore : before.LeadsTo d.left) (hescape : ¬ d.escape <+: between ++ (d.right ++ rest))
    (hright : between.LeadsTo d.right) (hne : between.trim ≠ []) (hrest : Reading d rest fs) :
    Reading d (before ++ (d.left ++ (between ++ (d.right ++ rest))))
      (literals before ++ .placeholder between.trim :: fs) := by
  have hexpr := isExpr_trim hright.not_isInfix hne
  obtain ⟨indent, blanks, hsplit, hindent, hblanks, _, _⟩ := between.exists_trim
  generalize between.trim = expr at hexpr hsplit
  subst hsplit
  exact .placeholder hbefore hescape hright hindent hexpr hblanks hrest

/-- What the fragments of a text are, and why it has none. -/
theorem fragments_spec (d : Delimiters) (t : Text) :
    match fragments d t with
    | .ok fs => Reading d t fs
    | .error offending => Offending d t offending.content := by
  fun_induction fragments d t with
  | case1 => exact .nil
  | case2 t ht hcut => exact .literal ht ((Text.cut?_eq_none_iff d.left_ne).1 hcut)
  | case3 t ht before inside hcut rest hescape ih =>
    obtain ⟨rfl, hbefore⟩ := (Text.cut?_eq_some_iff d.left_ne).1 hcut
    obtain rfl := Text.after?_eq_some_iff.1 hescape
    cases hrest : fragments d rest with
    | ok fs =>
      rw [hrest] at ih
      exact .escaped hbefore ih
    | error offending =>
      rw [hrest] at ih
      have hwhole := ih.append (before ++ (d.left ++ d.escape)) fun t fs _ hread =>
        ⟨.escaped before :: fs, by
          rw [List.append_assoc, List.append_assoc]
          exact .escaped hbefore hread⟩
      rwa [List.append_assoc, List.append_assoc] at hwhole
  | case4 t ht before inside hcut hescape hright =>
    obtain ⟨rfl, hbefore⟩ := (Text.cut?_eq_some_iff d.left_ne).1 hcut
    exact .unclosed (.of_leadsTo hbefore) (Text.not_isPrefix_iff.2 hescape)
      ((Text.cut?_eq_none_iff d.right_ne).1 hright)
  | case5 t ht before inside hcut hescape between rest hright expr hexpr =>
    obtain ⟨rfl, hbefore⟩ := (Text.cut?_eq_some_iff d.left_ne).1 hcut
    obtain ⟨rfl, _⟩ := (Text.cut?_eq_some_iff d.right_ne).1 hright
    exact .empty (.of_leadsTo hbefore) (Text.not_isPrefix_iff.2 hescape)
      (Text.isBlank_of_trim_eq_nil hexpr)
  | case6 t ht before inside hcut hescape between rest hright expr hexpr ih =>
    obtain ⟨rfl, hbefore⟩ := (Text.cut?_eq_some_iff d.left_ne).1 hcut
    obtain ⟨rfl, hbetween⟩ := (Text.cut?_eq_some_iff d.right_ne).1 hright
    have hread : ∀ t fs, t <+: rest → Reading d t fs →
        Reading d (before ++ (d.left ++ (between ++ (d.right ++ t))))
          (literals before ++ .placeholder expr :: fs) := by
      rintro t fs ⟨more, rfl⟩ hread
      refine .of_between hbefore (fun hstarts => ?_) hbetween hexpr hread
      exact Text.not_isPrefix_iff.2 hescape (hstarts.trans ⟨more, by simp⟩)
    cases hrest : fragments d rest with
    | ok fs =>
      rw [hrest] at ih
      have hok := hread rest fs List.prefix_rfl ih
      rwa [← literals_append] at hok
    | error offending =>
      rw [hrest] at ih
      have hwhole := ih.append (before ++ (d.left ++ (between ++ d.right))) fun t fs ht h =>
        ⟨_, by
          simp only [List.append_assoc]
          exact hread t fs ht h⟩
      simp only [List.append_assoc] at hwhole
      exact hwhole

theorem fragments_eq_ok_iff {t : Text} {fs : List Fragment} :
    fragments d t = .ok fs ↔ Reading d t fs := by
  refine ⟨fun h => ?_, Reading.fragments_eq⟩
  have hspec := fragments_spec d t
  rwa [h] at hspec

theorem offending_of_fragments {t offending : Text} (h : fragments d t = .error ⟨offending⟩) :
    Offending d t offending := by
  have hspec := fragments_spec d t
  rwa [h] at hspec

/-! ### Lines -/

/-- What stands behind the left delimiter of a placeholder that fills its line. There may be no
expression. Blanks at the end of the line are dropped before the right delimiter is looked for, so
one that ends in a blank is not found. -/
structure IsStandalone (d : Delimiters) (expr inside : Text) : Prop where
  split : ∃ before behind trailing, inside = before ++ (expr ++ behind) ++ (d.right ++ trailing) ∧
    (∀ c ∈ before, isBlank c = true) ∧ (∀ c ∈ behind, isBlank c = true) ∧
    ∀ c ∈ trailing, isBlank c = true
  startsInk : expr.StartsInk
  endsInk : expr.EndsInk
  right : ¬ d.right <:+: expr
  right_endsInk : d.right.EndsInk

theorem isStandalone_iff {expr inside : Text} :
    IsStandalone d expr inside ↔
      ∃ between, Text.before? d.right inside.trimEnd = some between ∧ between.trim = expr ∧
        expr.contains d.right = false := by
  rw [Text.contains_eq_false_iff d.right_ne]
  constructor
  · intro h
    obtain ⟨before, behind, trailing, rfl, hbefore, hbehind, htrailing⟩ := h.split
    refine ⟨before ++ (expr ++ behind), ?_,
      Text.trim_append hbefore h.startsInk h.endsInk hbehind, h.right⟩
    rw [Text.before?_eq_some_iff, ← List.append_assoc,
      Text.trimEnd_append htrailing (h.right_endsInk.append d.right_ne _)]
  · rintro ⟨between, hbetween, rfl, hright⟩
    rw [Text.before?_eq_some_iff] at hbetween
    obtain ⟨trailing, hinside, htrailing, hend⟩ := Text.exists_dropEndWhile isBlank inside
    rw [show inside.dropEndWhile isBlank = between ++ d.right from hbetween] at hinside hend
    obtain ⟨before, behind, hsplit, hbefore, hbehind, hstart, hlast⟩ := between.exists_trim
    refine ⟨⟨before, behind, trailing, ?_, hbefore, hbehind, htrailing⟩, hstart, hlast, hright, ?_⟩
    · rw [← hsplit, hinside, List.append_assoc]
    · obtain ⟨c, hc⟩ := Option.ne_none_iff_exists'.1 (mt List.getLast?_eq_none_iff.1 d.right_ne)
      intro last hlast
      refine hend last ?_
      rw [List.getLast?_append, hlast]
      rfl

namespace Form

/-- A line and what it is. -/
inductive Reading (d : Delimiters) : Text → Form → Prop
  | blank {content : Text} (hblank : ∀ c ∈ content, isBlank c = true) :
    Reading d content (.blank content)
  /-- The line does not start with a left delimiter, or only with a literal one. -/
  | text {indent body : Text} {fs : List Fragment} (hindent : ∀ c ∈ indent, isBlank c = true)
    (hne : body ≠ []) (hstart : body.StartsInk)
    (hleft : ∀ inside, body = d.left ++ inside → d.escape <+: inside)
    (hfs : Stencil.Reading d (indent ++ body) fs) :
    Reading d (indent ++ body) (.text indent fs)
  | placeholder {indent expr inside : Text} (hindent : ∀ c ∈ indent, isBlank c = true)
    (hleft : d.left.StartsInk) (hescape : ¬ d.escape <+: inside)
    (hinside : IsStandalone d expr inside) (hne : expr ≠ []) :
    Reading d (indent ++ (d.left ++ inside)) (.placeholder indent expr)
  | code {indent before code behind : Text} (hindent : ∀ c ∈ indent, isBlank c = true)
    (hleft : d.left.StartsInk) (hescape : ¬ d.escape <+: before ++ (code ++ behind))
    (hinside : ∀ expr, ¬ IsStandalone d expr (before ++ (code ++ behind)))
    (hbefore : ∀ c ∈ before, isBlank c = true) (hstart : code.StartsInk) (hend : code.EndsInk)
    (hbehind : ∀ c ∈ behind, isBlank c = true) :
    Reading d (indent ++ (d.left ++ (before ++ (code ++ behind)))) (.code indent code)

/-- The piece of a line that is told when nothing accounts for the line. -/
inductive Offending (d : Delimiters) : Text → Text → Prop
  | fragment {content offending : Text} (h : Stencil.Offending d content offending) :
    Offending d content offending
  | standalone {indent blanks trailing : Text} (hindent : ∀ c ∈ indent, isBlank c = true)
    (hblanks : ∀ c ∈ blanks, isBlank c = true) (htrailing : ∀ c ∈ trailing, isBlank c = true) :
    Offending d (indent ++ (d.left ++ blanks ++ d.right ++ trailing))
      (d.left ++ blanks ++ d.right ++ trailing)

section Delimited

variable {indent inside expr : Text}

theorem ofLine_standalone (hindent : ∀ c ∈ indent, isBlank c = true) (hleft : d.left.StartsInk)
    (hescape : Text.after? d.escape inside = none) (h : IsStandalone d expr inside) :
    ofLine d (indent ++ (d.left ++ inside)) =
      if expr = [] then .error ⟨d.left ++ inside⟩ else .ok (placeholder indent expr) := by
  obtain ⟨between, hbetween, htrim, hright⟩ := isStandalone_iff.1 h
  obtain ⟨hblank, hindentation, hstart, hliteral⟩ := delimited hindent hleft hescape
  simp [ofLine, hblank, hindentation, hstart, hliteral, hbetween, htrim, hright]

theorem ofLine_not_standalone (hindent : ∀ c ∈ indent, isBlank c = true) (hleft : d.left.StartsInk)
    (hescape : Text.after? d.escape inside = none) (h : ∀ expr, ¬ IsStandalone d expr inside) :
    ofLine d (indent ++ (d.left ++ inside)) = .ok (code indent inside.trim) := by
  cases hbetween : Text.before? d.right inside.trimEnd with
  | none => exact ofLine_code hindent hleft hescape hbetween
  | some between =>
    have hright : between.trim.contains d.right = true := by
      rw [← Bool.not_eq_false]
      exact fun hnot => h _ (isStandalone_iff.2 ⟨between, hbetween, rfl, hnot⟩)
    have hne : between.trim ≠ [] := by
      intro hnil
      rw [hnil, Text.contains, Text.cut?, if_neg d.right_ne] at hright
      cases hright
    obtain ⟨hblank, hindentation, hstart, hliteral⟩ := delimited hindent hleft hescape
    simp [ofLine, hblank, hindentation, hstart, hliteral, hbetween, hne, hright]

end Delimited

theorem Reading.ofLine_eq {content : Text} {form : Form} (h : Reading d content form) :
    ofLine d content = .ok form := by
  cases h with
  | blank hblank => exact ofLine_blank (List.all_eq_true.2 hblank)
  | @text indent body fs hindent hne hstart hleft hfs =>
    have htrim := Text.trimStart_append hindent hstart
    rw [ofLine_eq_map, hfs.fragments_eq, Text.indentation_append hindent hstart]
    · rfl
    · rwa [Text.isBlankLine_eq_false_iff, htrim]
    · intro inside hinside
      rw [htrim, Text.after?_eq_some_iff] at hinside
      exact fun hnone => Text.not_isPrefix_iff.2 hnone (hleft inside hinside)
  | placeholder hindent hleft hescape hinside hne =>
    rw [ofLine_standalone hindent hleft (Text.not_isPrefix_iff.1 hescape) hinside, if_neg hne]
  | code hindent hleft hescape hinside hbefore hstart hend hbehind =>
    rw [ofLine_not_standalone hindent hleft (Text.not_isPrefix_iff.1 hescape) hinside,
      Text.trim_append hbefore hstart hend hbehind]

/-- What a line is that starts with a left delimiter, and why it is nothing. -/
theorem ofLine_delimited_spec {indent inside : Text} (hindent : ∀ c ∈ indent, isBlank c = true)
    (hleft : d.left.StartsInk) (hescape : Text.after? d.escape inside = none) :
    match ofLine d (indent ++ (d.left ++ inside)) with
    | .ok form => Reading d (indent ++ (d.left ++ inside)) form
    | .error offending => Offending d (indent ++ (d.left ++ inside)) offending.content := by
  by_cases hstandalone : ∃ expr, IsStandalone d expr inside
  · obtain ⟨expr, hexpr⟩ := hstandalone
    rw [ofLine_standalone hindent hleft hescape hexpr]
    by_cases hne : expr = []
    · obtain ⟨before, behind, trailing, hparts, hbefore, hbehind, htrailing⟩ := hexpr.split
      have hblanks : ∀ c ∈ before ++ behind, isBlank c = true :=
        fun c hc => (List.mem_append.1 hc).elim (hbefore c) (hbehind c)
      rw [hne, List.nil_append, ← List.append_assoc] at hparts
      rw [if_pos hne, hparts]
      have hoffending := Offending.standalone (d := d) hindent hblanks htrailing
      simp only [List.append_assoc] at hoffending ⊢
      exact hoffending
    · rw [if_neg hne]
      exact .placeholder hindent hleft (Text.not_isPrefix_iff.2 hescape) hexpr hne
  · rw [not_exists] at hstandalone
    rw [ofLine_not_standalone hindent hleft hescape hstandalone]
    obtain ⟨before, behind, hparts, hbefore, hbehind, hstart, hend⟩ := inside.exists_trim
    have hread := Reading.code (d := d) hindent hleft (hparts ▸ Text.not_isPrefix_iff.2 hescape)
      (hparts ▸ hstandalone) hbefore hstart hend hbehind
    rwa [← hparts] at hread

/-- What a line is that does not start with a left delimiter, or only with a literal one, and why it
is nothing. -/
theorem ofLine_text_spec {content : Text} (hblank : content.isBlankLine = false)
    (htext : ∀ inside, Text.after? d.left content.trimStart = some inside →
      Text.after? d.escape inside ≠ none) :
    match ofLine d content with
    | .ok form => Reading d content form
    | .error offending => Offending d content offending.content := by
  have hsplit := Text.indentation_append_trimStart content
  rw [ofLine_eq_map hblank htext]
  have hfragments := fragments_spec d content
  cases hfs : fragments d content with
  | ok fs =>
    have hescape : ∀ inside, content.trimStart = d.left ++ inside → d.escape <+: inside :=
      fun inside hinside => not_not.1
        (mt Text.not_isPrefix_iff.1 (htext inside (Text.after?_eq_some_iff.2 hinside)))
    have hfs' : Stencil.Reading d (content.indentation ++ content.trimStart) fs := by
      rwa [hfs, ← hsplit] at hfragments
    have hread := Reading.text (fun c hc => Text.isBlank_of_mem_indentation hc)
      (Text.isBlankLine_eq_false_iff.1 hblank) (Text.startsInk_trimStart content) hescape hfs'
    rwa [hsplit] at hread
  | error offending =>
    rw [hfs] at hfragments
    exact .fragment hfragments

/-- What a line is, and why it is nothing. -/
theorem ofLine_spec (d : Delimiters) (content : Text) :
    match ofLine d content with
    | .ok form => Reading d content form
    | .error offending => Offending d content offending.content := by
  cases hblank : content.isBlankLine with
  | true =>
    rw [ofLine_blank hblank]
    exact .blank (List.all_eq_true.1 hblank)
  | false =>
    by_cases htext : ∀ inside, Text.after? d.left content.trimStart = some inside →
        Text.after? d.escape inside ≠ none
    · exact ofLine_text_spec hblank htext
    · obtain ⟨inside, hinside, hescape⟩ : ∃ inside,
          Text.after? d.left content.trimStart = some inside ∧ Text.after? d.escape inside = none := by
        simpa using htext
      rw [Text.after?_eq_some_iff] at hinside
      have hink := Text.startsInk_trimStart content
      rw [hinside] at hink
      have hleft : d.left.StartsInk := by
        intro c hc
        refine hink c ?_
        rw [List.head?_append, hc]
        rfl
      rw [← Text.indentation_append_trimStart content, hinside]
      exact ofLine_delimited_spec (fun c hc => Text.isBlank_of_mem_indentation hc) hleft hescape

theorem ofLine_eq_ok_iff {content : Text} {form : Form} :
    ofLine d content = .ok form ↔ Reading d content form := by
  refine ⟨fun h => ?_, Reading.ofLine_eq⟩
  have hspec := ofLine_spec d content
  rwa [h] at hspec

/-- **A line is accepted exactly if it has a reading, and nothing of it is lost.** The reading of a
line has every character of the line in it, and so have the sources of its fragments together. A
line or a text that is refused has a piece, behind what can be read, that begins with a left
delimiter and has no right one behind it, or nothing but blanks before the next right one. -/
theorem ofLine_grammar (d : Delimiters) (content : Text) :
    (∀ form, ofLine d content = .ok form ↔ Reading d content form) ∧
    (∀ fs, fragments d content = .ok fs ↔ Stencil.Reading d content fs) ∧
    (∀ fs, fragments d content = .ok fs →
      ∃ sources, List.Forall₂ (Fragment.IsWritten d) fs sources ∧ content = sources.flatten) ∧
    (∀ indent fs, ofLine d content = .ok (text indent fs) → fs ≠ []) ∧
    (∀ offending, ofLine d content = .error ⟨offending⟩ → Offending d content offending) ∧
    ∀ offending, fragments d content = .error ⟨offending⟩ → Stencil.Offending d content offending := by
  refine ⟨fun form => ofLine_eq_ok_iff, fun fs => fragments_eq_ok_iff, fun fs hfs => ?_,
    fun indent fs h => fragments_ne_nil_of_ofLine h, fun offending h => ?_,
    fun offending h => offending_of_fragments h⟩
  · exact (fragments_eq_ok_iff.1 hfs).exists_sources
  · have hspec := ofLine_spec d content
    rwa [h] at hspec

end Form
end Stencil
