import Stencil.Proofs.Lua.Quote
import Stencil.Proofs.Lua.Significance

/-! What code is made of.

A line of code is characters and, between them, strings and comments from their opening to their
closing; a line comment, and a string or long bracket that is not closed, take the rest of the line.
`IsCode` says this of a list of segments, by what may stand inside a string or a bracket, and
without a scanner. Every code is made of segments (`exists_isCode`), and the characters that the
scanner marks as significant are those that the segments do not hide (`IsCode.marked_eq`). -/
namespace Stencil.Lua

/-! ### Strings and comments -/

def IsQuote (c : Char) : Prop := c = '\'' ∨ c = '"'

/-- The inside of a short string: a backslash takes the next character with it. -/
inductive IsShort (quote : Char) : Text → Prop
  | nil : IsShort quote []
  | escape (c : Char) {t : Text} : IsShort quote t → IsShort quote ('\\' :: c :: t)
  | char {c : Char} {t : Text} : c ≠ '\\' → c ≠ quote → IsShort quote t → IsShort quote (c :: t)

def longOpening (level : Nat) : Text := '[' :: (Text.repeated '=' level ++ ['['])

/-- A string or comment from its opening to its closing. A long bracket ends at the first closing of
its level. -/
inductive Encloses : Text → Text → Text → Prop
  | short {quote : Char} {inside : Text} : IsQuote quote → IsShort quote inside →
    Encloses [quote] inside [quote]
  | long {level : Nat} {inside : Text} : inside.LeadsTo (longClosing level) →
    Encloses (longOpening level) inside (longClosing level)
  | comment {level : Nat} {inside : Text} : inside.LeadsTo (longClosing level) →
    Encloses ('-' :: '-' :: longOpening level) inside (longClosing level)

/-- A line comment, or a string or long bracket that is not closed. A backslash at the end of the
line takes nothing with it. -/
inductive IsUnclosed : Text → Prop
  | short {quote : Char} {inside : Text} : IsQuote quote → IsShort quote inside →
    IsUnclosed (quote :: inside)
  | escape {quote : Char} {inside : Text} : IsQuote quote → IsShort quote inside →
    IsUnclosed (quote :: (inside ++ ['\\']))
  | long {level : Nat} {inside : Text} : ¬ longClosing level <:+: inside →
    IsUnclosed (longOpening level ++ inside)
  | comment {level : Nat} {inside : Text} : ¬ longClosing level <:+: inside →
    IsUnclosed ('-' :: '-' :: (longOpening level ++ inside))
  | line {t : Text} : (∀ level, ¬ longOpening level <+: t) → IsUnclosed ('-' :: '-' :: t)

/-- The text begins like a string or a comment. -/
inductive BeginsHidden : Text → Prop
  | short {quote : Char} (t : Text) : IsQuote quote → BeginsHidden (quote :: t)
  | long (level : Nat) (t : Text) : BeginsHidden (longOpening level ++ t)
  | comment (t : Text) : BeginsHidden ('-' :: '-' :: t)

/-! ### Segments -/

inductive Segment
  | char (c : Char)
  | hidden (opening inside closing : Text)
  | unclosed (t : Text)
deriving Repr, DecidableEq

namespace Segment

def text : Segment → Text
  | char c => [c]
  | hidden opening inside closing => opening ++ (inside ++ closing)
  | unclosed t => t

/-- The characters of a segment; those of a string or comment are hidden. -/
def marked : Segment → List (Char × Bool)
  | char c => [(c, true)]
  | s => s.text.map (·, false)

end Segment

def segmentsText (segments : List Segment) : Text := segments.flatMap Segment.text

def segmentsMarked (segments : List Segment) : List (Char × Bool) := segments.flatMap Segment.marked

/-- The segments are those of a line of code. -/
inductive IsCode : List Segment → Prop
  | nil : IsCode []
  | char {c : Char} {rest : List Segment} : ¬ BeginsHidden (c :: segmentsText rest) → IsCode rest →
    IsCode (.char c :: rest)
  | hidden {opening inside closing : Text} {rest : List Segment} :
    Encloses opening inside closing → IsCode rest → IsCode (.hidden opening inside closing :: rest)
  | unclosed {t : Text} : IsUnclosed t → IsCode [.unclosed t]

/-! ### Short strings -/

section Short

variable {quote : Char} {inside : Text}

theorem IsQuote.ne_escape (h : IsQuote quote) : quote ≠ '\\' := by
  rcases h with rfl | rfl
  all_goals decide

theorem afterShort?_cons {c : Char} (hescape : c ≠ '\\') (hquote : c ≠ quote) (t : Text) :
    afterShort? quote (c :: t) = afterShort? quote t := by
  cases t with
  | nil =>
    show (if c = quote then some [] else none) = none
    rw [if_neg hquote]
  | cons d ds => rw [afterShort?, if_neg hescape, if_neg hquote]

theorem afterShort?_quote (h : quote ≠ '\\') (t : Text) :
    afterShort? quote (quote :: t) = some t := by
  cases t with
  | nil => rw [afterShort?, if_pos rfl]
  | cons d ds => rw [afterShort?, if_neg h, if_pos rfl]

theorem IsShort.afterShort?_append (h : IsShort quote inside) (t : Text) :
    afterShort? quote (inside ++ t) = afterShort? quote t := by
  induction h with
  | nil => rfl
  | escape c _ ih => rw [List.cons_append, List.cons_append, afterShort?, if_pos rfl, ih]
  | char hescape hquote _ ih => rw [List.cons_append, afterShort?_cons hescape hquote, ih]

/-- A text is the inside of a string up to the quote that ends it, or up to its own end. -/
theorem afterShort?_cases (quote : Char) (t : Text) :
    (∃ inside rest, t = inside ++ quote :: rest ∧ IsShort quote inside ∧
      afterShort? quote t = some rest) ∨
    (afterShort? quote t = none ∧
      (IsShort quote t ∨ ∃ inside, t = inside ++ ['\\'] ∧ IsShort quote inside)) := by
  induction t using afterShort?.induct quote with
  | case1 => exact .inr ⟨rfl, .inl .nil⟩
  | case2 => exact .inl ⟨[], [], rfl, .nil, by rw [afterShort?, if_pos rfl]⟩
  | case3 c hquote =>
    refine .inr ⟨by rw [afterShort?, if_neg hquote], ?_⟩
    by_cases hescape : c = '\\'
    · exact .inr ⟨[], by rw [hescape]; rfl, .nil⟩
    · exact .inl (.char hescape hquote .nil)
  | case4 e cs ih =>
    rw [afterShort?, if_pos rfl]
    rcases ih with ⟨inside, rest, rfl, hinside, hafter⟩ | ⟨hafter, hinside | ⟨inside, rfl, hinside⟩⟩
    · exact .inl ⟨'\\' :: e :: inside, rest, rfl, .escape e hinside, hafter⟩
    · exact .inr ⟨hafter, .inl (.escape e hinside)⟩
    · exact .inr ⟨hafter, .inr ⟨'\\' :: e :: inside, rfl, .escape e hinside⟩⟩
  | case5 e cs hescape =>
    exact .inl ⟨[], e :: cs, rfl, .nil, by rw [afterShort?, if_neg hescape, if_pos rfl]⟩
  | case6 c e cs hescape hquote ih =>
    rw [afterShort?, if_neg hescape, if_neg hquote]
    rcases ih with ⟨inside, rest, heq, hinside, hafter⟩ | ⟨hafter, hinside | ⟨inside, heq, hinside⟩⟩
    · exact .inl ⟨c :: inside, rest, by rw [heq]; rfl, .char hescape hquote hinside, hafter⟩
    · exact .inr ⟨hafter, .inl (.char hescape hquote hinside)⟩
    · exact .inr ⟨hafter, .inr ⟨c :: inside, by rw [heq]; rfl, .char hescape hquote hinside⟩⟩

end Short

/-! ### Long brackets -/

section Long

variable {level : Nat} {t inside rest : Text}

theorem longOpening?_eq_some_iff :
    longOpening? t = some (level, inside) ↔ t = longOpening level ++ inside := by
  constructor
  · intro h
    unfold longOpening? at h
    split at h
    · next cs =>
      split at h
      · next rest hopen =>
        cases h
        have hsigns : cs.takeWhile (· == '=') =
            Text.repeated '=' (cs.takeWhile (· == '=')).length :=
          List.eq_replicate_iff.2
            ⟨rfl, fun c hc => beq_iff_eq.1 (List.all_eq_true.1 List.all_takeWhile c hc)⟩
        have hsplit := List.takeWhile_append_dropWhile (p := (· == '=')) (l := cs)
        rw [hopen, hsigns] at hsplit
        calc '[' :: cs = '[' :: (Text.repeated '=' _ ++ '[' :: inside) := by rw [hsplit]
          _ = longOpening _ ++ inside := by simp [longOpening]
      · cases h
    · cases h
  · rintro rfl
    have := longOpening?_append level inside
    simpa [longOpening] using this

theorem longOpening?_longOpening (level : Nat) (t : Text) :
    longOpening? (longOpening level ++ t) = some (level, t) := longOpening?_eq_some_iff.2 rfl

theorem longOpening?_eq_none_iff :
    longOpening? t = none ↔ ∀ level, ¬ longOpening level <+: t := by
  rw [Option.eq_none_iff_forall_ne_some]
  constructor
  · rintro h level ⟨inside, heq⟩
    exact h (level, inside) (longOpening?_eq_some_iff.2 heq.symm)
  · rintro h ⟨level, inside⟩ heq
    exact h level ⟨inside, (longOpening?_eq_some_iff.1 heq).symm⟩

theorem afterLong?_of_leadsTo (h : inside.LeadsTo (longClosing level)) (rest : Text) :
    afterLong? level (inside ++ (longClosing level ++ rest)) = some rest := by
  rw [afterLong?, Text.cut?_of_leadsTo (longClosing_ne_nil level) h]
  rfl

theorem afterLong?_cases (level : Nat) (t : Text) :
    (∃ inside rest, t = inside ++ (longClosing level ++ rest) ∧ inside.LeadsTo (longClosing level) ∧
      afterLong? level t = some rest) ∨
    (afterLong? level t = none ∧ ¬ longClosing level <:+: t) := by
  cases hcut : Text.cut? (longClosing level) t with
  | none =>
    rw [afterLong?, hcut]
    exact .inr ⟨rfl, (Text.cut?_eq_none_iff (longClosing_ne_nil level)).1 hcut⟩
  | some found =>
    obtain ⟨inside, rest⟩ := found
    obtain ⟨heq, hleads⟩ := (Text.cut?_eq_some_iff (longClosing_ne_nil level)).1 hcut
    rw [afterLong?, hcut]
    exact .inl ⟨inside, rest, heq, hleads, rfl⟩

end Long

/-! ### The scanner -/

section Scanner

variable {t : Text}

theorem afterHidden?_quote {quote : Char} (h : IsQuote quote) (t : Text) :
    afterHidden? (quote :: t) = some ((afterShort? quote t).getD []) := by
  rcases h with rfl | rfl
  all_goals rfl

theorem afterHidden?_long (level : Nat) (t : Text) :
    afterHidden? (longOpening level ++ t) = some ((afterLong? level t).getD []) := by
  show (longOpening? (longOpening level ++ t)).map _ = _
  rw [longOpening?_longOpening]
  rfl

theorem afterHidden?_comment (level : Nat) (t : Text) :
    afterHidden? ('-' :: '-' :: (longOpening level ++ t)) =
      some ((afterLong? level t).getD []) := by
  rw [afterHidden?, longOpening?_longOpening]

theorem afterHidden?_line (h : longOpening? t = none) :
    afterHidden? ('-' :: '-' :: t) = some [] := by
  rw [afterHidden?, h]

/-- How a text begins that does not begin like a string or a comment. -/
theorem beginsHidden_or (t : Text) : BeginsHidden t ∨ afterHidden? t = none := by
  unfold afterHidden?
  split
  · exact .inl (.short _ (.inl rfl))
  · exact .inl (.short _ (.inr rfl))
  · exact .inl (.comment _)
  · cases hopen : longOpening? t with
    | none => exact .inr rfl
    | some found =>
      obtain ⟨level, inside⟩ := found
      rw [longOpening?_eq_some_iff.1 hopen]
      exact .inl (.long level inside)

/-- What begins like a string or a comment is one, up to its closing or to the end of the line. -/
theorem BeginsHidden.cases (h : BeginsHidden t) :
    (∃ opening inside closing rest, t = opening ++ (inside ++ (closing ++ rest)) ∧
      Encloses opening inside closing) ∨ IsUnclosed t := by
  cases h with
  | @short quote t hquote =>
    rcases afterShort?_cases quote t with
      ⟨inside, rest, rfl, hinside, _⟩ | ⟨_, hinside | ⟨inside, rfl, hinside⟩⟩
    · exact .inl ⟨[quote], inside, [quote], rest, rfl, .short hquote hinside⟩
    · exact .inr (.short hquote hinside)
    · exact .inr (.escape hquote hinside)
  | long level t =>
    rcases afterLong?_cases level t with ⟨inside, rest, rfl, hinside, _⟩ | ⟨_, hinside⟩
    · exact .inl ⟨_, inside, _, rest, rfl, .long hinside⟩
    · exact .inr (.long hinside)
  | comment t =>
    cases hopen : longOpening? t with
    | none => exact .inr (.line (longOpening?_eq_none_iff.1 hopen))
    | some found =>
      obtain ⟨level, t⟩ := found
      obtain rfl := longOpening?_eq_some_iff.1 hopen
      rcases afterLong?_cases level t with ⟨inside, rest, rfl, hinside, _⟩ | ⟨_, hinside⟩
      · exact .inl ⟨_, inside, _, rest, rfl, .comment hinside⟩
      · exact .inr (.comment hinside)

theorem Encloses.afterHidden? {opening inside closing : Text}
    (h : Encloses opening inside closing) (rest : Text) :
    afterHidden? (opening ++ (inside ++ (closing ++ rest))) = some rest := by
  cases h with
  | @short quote _ hquote hinside =>
    show Lua.afterHidden? (quote :: (inside ++ quote :: rest)) = _
    rw [afterHidden?_quote hquote, hinside.afterShort?_append, afterShort?_quote hquote.ne_escape]
    rfl
  | long hinside =>
    rw [afterHidden?_long, afterLong?_of_leadsTo hinside]
    rfl
  | comment hinside =>
    rw [List.cons_append, List.cons_append, afterHidden?_comment, afterLong?_of_leadsTo hinside]
    rfl

theorem IsUnclosed.afterHidden? (h : IsUnclosed t) : afterHidden? t = some [] := by
  cases h with
  | @short quote inside hquote hinside =>
    have hend := hinside.afterShort?_append []
    rw [List.append_nil] at hend
    rw [afterHidden?_quote hquote, hend]
    rfl
  | @escape quote inside hquote hinside =>
    rw [afterHidden?_quote hquote, hinside.afterShort?_append, afterShort?,
      if_neg hquote.ne_escape.symm]
    rfl
  | @long level inside hinside =>
    have hnone := (Text.cut?_eq_none_iff (longClosing_ne_nil level)).2 hinside
    rw [afterHidden?_long, afterLong?, hnone]
    rfl
  | @comment level inside hinside =>
    have hnone := (Text.cut?_eq_none_iff (longClosing_ne_nil level)).2 hinside
    rw [afterHidden?_comment, afterLong?, hnone]
    rfl
  | line hline => rw [afterHidden?_line (longOpening?_eq_none_iff.2 hline)]

theorem afterHidden?_eq_none_iff : afterHidden? t = none ↔ ¬ BeginsHidden t := by
  constructor
  · intro h hbegins
    rcases hbegins.cases with ⟨opening, inside, closing, rest, rfl, hencloses⟩ | hunclosed
    · rw [hencloses.afterHidden?] at h
      cases h
    · rw [hunclosed.afterHidden?] at h
      cases h
  · exact fun h => (beginsHidden_or t).resolve_left h

instance (t : Text) : Decidable (BeginsHidden t) :=
  decidable_of_iff (afterHidden? t ≠ none) (by rw [Ne, afterHidden?_eq_none_iff, Classical.not_not])

end Scanner

/-! ### What a text begins with -/

theorem beginsHidden_iff {t : Text} : BeginsHidden t ↔
    (∃ c ∈ t.head?, IsQuote c) ∨ (∃ level, longOpening level <+: t) ∨ ['-', '-'] <+: t := by
  constructor
  · intro h
    cases h with
    | short t hquote => exact .inl ⟨_, rfl, hquote⟩
    | long level t => exact .inr (.inl ⟨level, t, rfl⟩)
    | comment t => exact .inr (.inr ⟨t, rfl⟩)
  · rintro (⟨c, hc, hquote⟩ | ⟨level, t, rfl⟩ | ⟨t, rfl⟩)
    · obtain ⟨cs, rfl⟩ := List.head?_eq_some_iff.1 hc
      exact .short cs hquote
    · exact .long level t
    · exact .comment t

theorem BeginsHidden.append {t : Text} (h : BeginsHidden t) (u : Text) : BeginsHidden (t ++ u) := by
  rw [beginsHidden_iff] at h ⊢
  refine h.imp ?_ (Or.imp ?_ ?_)
  · rintro ⟨c, hc, hquote⟩
    obtain ⟨cs, rfl⟩ := List.head?_eq_some_iff.1 hc
    exact ⟨c, rfl, hquote⟩
  · rintro ⟨level, hlevel⟩
    exact ⟨level, hlevel.trans (List.prefix_append t u)⟩
  · exact fun hcomment => hcomment.trans (List.prefix_append t u)

/-- An opening bracket has been read where a character other than its signs stands. -/
theorem longOpening_isPrefix_cut {level : Nat} {c s : Char} {before rest : Text} (hs : s ≠ '=')
    (h : longOpening level <+: c :: (before ++ s :: rest)) :
    longOpening level <+: c :: (before ++ [s]) := by
  have hcut : c :: (before ++ [s]) <+: c :: (before ++ s :: rest) := ⟨rest, by simp⟩
  rcases List.prefix_or_prefix_of_prefix h hcut with hshort | ⟨more, heq⟩
  · exact hshort
  · obtain ⟨rfl, htail⟩ := List.cons.inj heq
    rcases List.eq_nil_or_concat more with rfl | ⟨more, d, rfl⟩
    · exact ⟨[], by rw [List.append_nil, ← heq, List.append_nil]⟩
    · -- the character would be one of the signs
      have hsigns : (before ++ s :: more) ++ [d] = Text.repeated '=' level ++ ['['] := by
        rw [← htail]
        simp
      have hmem : s ∈ Text.repeated '=' level := by
        rw [← List.append_inj_left' hsigns rfl]
        exact List.mem_append_right _ List.mem_cons_self
      exact absurd (List.eq_of_mem_replicate hmem) hs

/-- What stands behind the first character other than a sign of a bracket does not tell what a text
begins with. -/
theorem BeginsHidden.replace {c s : Char} {before rest : Text} (hs : s ≠ '=')
    (h : BeginsHidden (c :: (before ++ s :: rest))) (rest' : Text) :
    BeginsHidden (c :: (before ++ s :: rest')) := by
  have hcut : BeginsHidden (c :: (before ++ [s])) := by
    rw [beginsHidden_iff] at h ⊢
    refine h.imp id (Or.imp ?_ ?_)
    · rintro ⟨level, hlevel⟩
      exact ⟨level, longOpening_isPrefix_cut hs hlevel⟩
    · intro hcomment
      refine List.prefix_of_prefix_length_le hcomment ⟨rest, by simp⟩ ?_
      simp
  have hwhole := hcut.append rest'
  rwa [List.cons_append, List.append_assoc, List.singleton_append] at hwhole

theorem Encloses.exists_start {opening inside closing : Text}
    (h : Encloses opening inside closing) : ∃ s rest, opening = s :: rest ∧ s ≠ '=' := by
  cases h with
  | short hquote =>
    refine ⟨_, [], rfl, ?_⟩
    rcases hquote with rfl | rfl
    all_goals decide
  | long => exact ⟨'[', _, rfl, by decide⟩
  | comment => exact ⟨'-', _, rfl, by decide⟩

/-! ### Code as segments -/

theorem Encloses.opening_ne_nil {opening inside closing : Text}
    (h : Encloses opening inside closing) : opening ≠ [] := by
  obtain ⟨s, rest, rfl, _⟩ := h.exists_start
  exact List.cons_ne_nil _ _

theorem IsUnclosed.ne_nil {t : Text} (h : IsUnclosed t) : t ≠ [] := by
  cases h
  all_goals exact List.cons_ne_nil _ _

/-- A string or comment is hidden, and what stands behind it is marked as it is by itself. -/
theorem Encloses.marks_append {opening inside closing : Text}
    (h : Encloses opening inside closing) (rest : Text) :
    marks 0 ((opening ++ (inside ++ closing)) ++ rest) =
      List.replicate (opening ++ (inside ++ closing)).length false ++ marks 0 rest := by
  refine marks_of_afterHidden? (List.append_ne_nil_of_left_ne_nil h.opening_ne_nil _) ?_
  simpa only [List.append_assoc] using h.afterHidden? rest

theorem Encloses.marked_append {opening inside closing : Text}
    (h : Encloses opening inside closing) (rest : Text) :
    marked ((opening ++ (inside ++ closing)) ++ rest) =
      (opening ++ (inside ++ closing)).map (·, false) ++ marked rest := by
  rw [marked, significance, h.marks_append, zip_append_mark]
  rfl

/-- **The scanner marks what the segments do not hide.** -/
theorem IsCode.marked_eq {segments : List Segment} (h : IsCode segments) :
    marked (segmentsText segments) = segmentsMarked segments := by
  induction h with
  | nil => rfl
  | @char c rest hc _ ih =>
    have hmarks := marks_of_afterHidden?_eq_none (afterHidden?_eq_none_iff.2 hc)
    show (c :: segmentsText rest).zip (marks 0 (c :: segmentsText rest)) = _
    rw [hmarks, List.zip_cons_cons]
    exact congrArg _ ih
  | @hidden opening inside closing rest hencloses _ ih =>
    have htext : segmentsText (.hidden opening inside closing :: rest) =
        (opening ++ (inside ++ closing)) ++ segmentsText rest := rfl
    rw [htext, hencloses.marked_append]
    exact congrArg _ ih
  | @unclosed t hunclosed =>
    have hafter : afterHidden? (t ++ []) = some [] := by
      rw [List.append_nil]
      exact hunclosed.afterHidden?
    have hmarks := marks_of_afterHidden? hunclosed.ne_nil hafter
    have htext : segmentsText [.unclosed t] = t := List.append_nil t
    have hmarked : segmentsMarked [.unclosed t] = t.map (·, false) := List.append_nil _
    rw [List.append_nil, marks, List.append_nil] at hmarks
    rw [htext, hmarked, marked, significance, hmarks, zip_replicate_mark]

/-- Every code is made of segments. -/
theorem exists_isCode (code : Text) :
    ∃ segments, IsCode segments ∧ segmentsText segments = code := by
  generalize hn : code.length = n
  -- a string or comment is taken off whole, so the induction is on the length
  induction n using Nat.strongRecOn generalizing code with
  | ind n ih =>
    subst hn
    cases code with
    | nil => exact ⟨[], .nil, rfl⟩
    | cons c cs =>
      by_cases hbegins : BeginsHidden (c :: cs)
      · rcases hbegins.cases with ⟨opening, inside, closing, rest, heq, hencloses⟩ | hunclosed
        · have hlength : rest.length < (c :: cs).length := by
            have := List.length_pos_iff.2 hencloses.opening_ne_nil
            rw [heq]
            simp only [List.length_append]
            omega
          obtain ⟨segments, hcode, rfl⟩ := ih _ hlength rest rfl
          refine ⟨.hidden opening inside closing :: segments, .hidden hencloses hcode, ?_⟩
          rw [heq]
          simp [segmentsText, Segment.text]
        · exact ⟨[.unclosed (c :: cs)], .unclosed hunclosed, List.append_nil _⟩
      · obtain ⟨segments, hcode, rfl⟩ := ih _ (Nat.lt_succ_self _) cs rfl
        exact ⟨.char c :: segments, .char hbegins hcode, rfl⟩

theorem segmentsText_cons (s : Segment) (segments : List Segment) :
    segmentsText (s :: segments) = s.text ++ segmentsText segments := List.flatMap_cons

theorem segmentsText_append (first second : List Segment) :
    segmentsText (first ++ second) = segmentsText first ++ segmentsText second :=
  List.flatMap_append

theorem segmentsMarked_cons (s : Segment) (segments : List Segment) :
    segmentsMarked (s :: segments) = s.marked ++ segmentsMarked segments := List.flatMap_cons

theorem segmentsMarked_append (first second : List Segment) :
    segmentsMarked (first ++ second) = segmentsMarked first ++ segmentsMarked second :=
  List.flatMap_append

/-- A string or comment can hold something else. -/
theorem IsCode.replace {before after : List Segment} {opening inside inside' closing : Text}
    (h : IsCode (before ++ .hidden opening inside closing :: after))
    (hencloses : Encloses opening inside' closing) :
    IsCode (before ++ .hidden opening inside' closing :: after) := by
  obtain ⟨s, rest, rfl, hs⟩ := hencloses.exists_start
  have htext : ∀ (first : List Segment) (inside : Text),
      segmentsText (first ++ .hidden (s :: rest) inside closing :: after) =
        segmentsText first ++ s :: (rest ++ (inside ++ closing) ++ segmentsText after) := by
    intro first inside
    rw [segmentsText_append, segmentsText_cons]
    rfl
  induction before with
  | nil =>
    cases h with
    | hidden _ hafter => exact .hidden hencloses hafter
  | cons segment before ih =>
    generalize hlater : before ++ .hidden (s :: rest) inside closing :: after = later at h ih
    rw [List.cons_append, hlater] at h
    rw [List.cons_append]
    cases h with
    | char hc hbefore =>
      refine .char (fun hbegins => hc ?_) (ih hbefore)
      rw [← hlater, htext]
      rw [htext] at hbegins
      exact hbegins.replace hs _
    | hidden hfirst hbefore => exact .hidden hfirst (ih hbefore)
    | unclosed => exact absurd hlater (List.append_ne_nil_of_right_ne_nil _ (List.cons_ne_nil _ _))

/-- A significant character stands in front of a string or comment or behind it. -/
theorem exists_of_append_hidden {t : Text} {before after first behind : List (Char × Bool)}
    {c : Char}
    (h : before ++ (t.map (·, false) ++ after) = first ++ (c, true) :: behind) :
    (∃ rest, before = first ++ (c, true) :: rest ∧
      behind = rest ++ (t.map (·, false) ++ after)) ∨
    ∃ rest, first = before ++ (t.map (·, false) ++ rest) ∧ after = rest ++ (c, true) :: behind := by
  induction before generalizing first with
  | nil =>
    refine .inr ?_
    induction t generalizing first with
    | nil => exact ⟨first, rfl, h⟩
    | cons d ds ih =>
      cases first with
      | nil => exact absurd (congrArg Prod.snd (List.cons.inj h).1) Bool.false_ne_true
      | cons m first =>
        obtain ⟨rfl, heq⟩ := List.cons.inj h
        obtain ⟨rest, rfl, hafter⟩ := ih heq
        exact ⟨rest, rfl, hafter⟩
  | cons m before ih =>
    cases first with
    | nil =>
      obtain ⟨rfl, rfl⟩ := List.cons.inj h
      exact .inl ⟨before, rfl, rfl⟩
    | cons n first =>
      obtain ⟨rfl, heq⟩ := List.cons.inj h
      rcases ih heq with ⟨rest, rfl, hbehind⟩ | ⟨rest, rfl, hafter⟩
      · exact .inl ⟨rest, rfl, hbehind⟩
      · exact .inr ⟨rest, rfl, hafter⟩

/-- A character outside strings and comments is a segment of its own. -/
theorem exists_char_of_segmentsMarked {segments : List Segment} {before after : List (Char × Bool)}
    {c : Char} (h : segmentsMarked segments = before ++ (c, true) :: after) :
    ∃ first rest, segments = first ++ .char c :: rest ∧ segmentsMarked first = before := by
  have hhidden : ∀ {t : Text} {ms before : List (Char × Bool)},
      t.map (·, false) ++ ms = before ++ (c, true) :: after →
      ∃ between, before = t.map (·, false) ++ between ∧ ms = between ++ (c, true) :: after := by
    intro t ms before heq
    rcases exists_of_append_hidden ((List.nil_append _).trans heq) with ⟨_, hnil, _⟩ | hbehind
    · exact absurd hnil.symm (List.append_ne_nil_of_right_ne_nil _ (List.cons_ne_nil _ _))
    · exact hbehind
  induction segments generalizing before with
  | nil => exact absurd h.symm (List.append_ne_nil_of_right_ne_nil _ (List.cons_ne_nil _ _))
  | cons segment segments ih =>
    rw [segmentsMarked_cons] at h
    cases segment with
    | char d =>
      cases before with
      | nil =>
        obtain ⟨hd, _⟩ := List.cons.inj h
        exact ⟨[], segments, by rw [(Prod.mk.inj hd).1]; rfl, rfl⟩
      | cons m before =>
        obtain ⟨rfl, hrest⟩ := List.cons.inj h
        obtain ⟨first, rest, rfl, rfl⟩ := ih hrest
        exact ⟨.char d :: first, rest, rfl, rfl⟩
    | hidden opening inside closing =>
      obtain ⟨between, rfl, hrest⟩ := hhidden h
      obtain ⟨first, rest, rfl, rfl⟩ := ih hrest
      exact ⟨.hidden opening inside closing :: first, rest, rfl, rfl⟩
    | unclosed t =>
      obtain ⟨between, rfl, hrest⟩ := hhidden h
      obtain ⟨first, rest, rfl, rfl⟩ := ih hrest
      exact ⟨.unclosed t :: first, rest, rfl, rfl⟩

theorem map_fst_segmentsMarked (segments : List Segment) :
    (segmentsMarked segments).map Prod.fst = segmentsText segments := by
  induction segments with
  | nil => rfl
  | cons segment segments ih =>
    rw [segmentsMarked_cons, segmentsText_cons, List.map_append, ih]
    cases segment <;> simp [Segment.marked, Segment.text, Function.comp_def]

end Stencil.Lua
