import Mathlib.Data.List.Find
import Stencil.Proofs.Lua.Closed
import Stencil.Proofs.Lua.Numeral

/-! Where one text ends and another begins.

The tokens of two texts, one behind the other, are those of the first and then those of the second
(`tokenSequence_append`) if no string or comment of the first reaches into the second and no token
does. The former is that the first text is complete, the latter that the second one starts with a
parenthesis or a blank. The argument is by what stands at the front of complete text: it stays
within the text, and leaves complete text behind (`IsComplete.frontWithin`). -/
namespace Stencil.Lua

/-! ### The front of complete text -/

namespace Front

/-- The front, when another text stands behind. -/
def behind (u : Text) : Front → Front
  | comment rest => comment (rest ++ u)
  | lead token rest => lead token (rest ++ u)
  | last token => last token

/-- The rest is complete, and this is not the end of the text. -/
def IsInside : Front → Prop
  | comment rest => IsComplete rest
  | lead token rest => token ≠ .finish ∧ IsComplete rest
  | last token => token ≠ .finish

end Front

/-- The front stays within the text, whatever follows that ends every token. -/
def FrontWithin (t : Text) : Prop :=
  ∃ f : Front, f.IsInside ∧ ∀ u, Ends u → front (t ++ u) = f.behind u

section Fronts

variable {c : Char} {cs t : Text}

theorem front_of_not_comment (h : ¬ ['-', '-'] <+: t) : front t = .ofLexeme (readToken 1 t) := by
  have hnone : afterComment? 1 t = none := by
    unfold afterComment?
    split
    · next rest => exact absurd ⟨rest, rfl⟩ h
    · rfl
  rw [front, hnone]

theorem front_cons (hc : c ≠ '-') (cs : Text) :
    front (c :: cs) = .ofLexeme (readToken 1 (c :: cs)) :=
  front_of_not_comment fun ⟨_, heq⟩ => hc (List.cons.inj heq).1.symm

theorem IsShort.frontWithin {quote : Char} {inside : Text} (hquote : IsQuote quote)
    (hinside : IsShort quote inside) (ht : IsComplete t) :
    FrontWithin (quote :: (inside ++ quote :: t)) := by
  have hfront : ∀ u : Text, front (quote :: (inside ++ quote :: t) ++ u) =
      .ofLexeme (readToken 1 (quote :: (inside ++ quote :: (t ++ u)))) := by
    intro u
    rw [← front_cons (by rcases hquote with rfl | rfl <;> decide)]
    simp
  have hfuel : ∀ u : Text, inside.length < (inside ++ quote :: (t ++ u)).length + 1 := by
    intro u
    rw [List.length_append]
    omega
  rcases hinside.readsWithin hquote [] with ⟨value, hvalue⟩ | hbad
  · refine ⟨.lead (.string value) t, ⟨nofun, ht⟩, fun u _ => ?_⟩
    obtain ⟨lines, hlines⟩ := hvalue _ 1 (t ++ u) (hfuel u)
    rw [hfront, readToken_short hquote.symm hlines]
    rfl
  · refine ⟨.last (.bad []), nofun, fun u _ => ?_⟩
    obtain ⟨stop, hstop⟩ := hbad _ 1 (t ++ u) (hfuel u)
    rw [hfront, readToken_quoted hquote.symm, hstop]
    rfl

/-- A string or a comment is read up to its closing. -/
theorem Encloses.frontWithin {opening inside closing : Text}
    (h : Encloses opening inside closing) (ht : IsComplete t) :
    FrontWithin (opening ++ (inside ++ (closing ++ t))) := by
  cases h with
  | short hquote hinside => exact hinside.frontWithin hquote ht
  | @long level _ hinside =>
    obtain ⟨value, lines, hread⟩ := readLong?_of_leadsTo hinside
    refine ⟨.lead (.string (Text.bytes value)) t, ⟨nofun, ht⟩, fun u _ => ?_⟩
    have hfront : ∀ rest, front (longOpening level ++ rest) =
        .ofLexeme (readToken 1 (longOpening level ++ rest)) := fun rest =>
      front_cons (by decide) (Text.repeated '=' level ++ ['['] ++ rest)
    simp only [List.append_assoc]
    rw [hfront, readToken_bracket 1 (longOpening?_longOpening level _) (hread (t ++ u))]
    rfl
  | @comment level _ hinside =>
    obtain ⟨value, lines, hread⟩ := readLong?_of_leadsTo hinside
    refine ⟨.comment t, ht, fun u _ => ?_⟩
    simp only [List.append_assoc, List.cons_append]
    rw [front, afterComment?, longOpening?_longOpening]
    dsimp only
    rw [hread]
    rfl

theorem frontWithin_name (hc : isNameStart c = true) (h : IsComplete (c :: cs)) :
    FrontWithin (c :: cs) := by
  have hsplit := List.takeWhile_append_dropWhile (p := isNameChar) (l := c :: cs)
  have hrest : IsComplete ((c :: cs).dropWhile isNameChar) := by
    rw [← hsplit] at h
    refine h.of_isPlain_append fun d hd => isPlain_of_isNameChar ?_
    exact List.all_eq_true.1 List.all_takeWhile d hd
  generalize hname : (c :: cs).takeWhile isNameChar = name at hsplit
  have hfront : ∀ u, Ends u → front (c :: cs ++ u) =
      .ofLexeme (wordLexeme 1 name, (c :: cs).dropWhile isNameChar ++ u) := by
    intro u hu
    obtain ⟨htake, hdrop⟩ :=
      Text.span_append (c :: cs) (hu.not_mem (p := isNameChar) (by decide))
    rw [hname] at htake
    rw [List.cons_append, front_cons (isGap_of_isNameStart hc).2, ← hdrop]
    unfold readToken
    dsimp only
    rw [if_pos hc, ← List.cons_append, htake]
    rfl
  unfold wordLexeme at hfront
  by_cases hword : words.contains name = true
  · refine ⟨.lead (.word name) _, ⟨nofun, hrest⟩, fun u hu => ?_⟩
    rw [hfront u hu, if_pos hword]
    rfl
  · refine ⟨.lead (.name name) _, ⟨nofun, hrest⟩, fun u hu => ?_⟩
    rw [hfront u hu, if_neg hword]
    rfl

/-- A numeral begins with the character: a digit, or a point in front of one. -/
def BeginsNumeral (c : Char) (cs : Text) : Prop :=
  (isAsciiDigit c || (c == '.' && cs.head?.any isAsciiDigit)) = true

theorem Ends.beginsNumeral_iff {u : Text} (hu : Ends u) :
    BeginsNumeral c (cs ++ u) ↔ BeginsNumeral c cs := by
  rw [BeginsNumeral, BeginsNumeral, hu.any_head? (by decide)]

theorem front_numeral (hname : ¬ isNameStart c = true) (hnumeral : BeginsNumeral c cs) :
    front (c :: cs) =
      match Number.readUnsigned? (readNumeral (c :: cs)).1 with
      | some n => .lead (.number n) (readNumeral (c :: cs)).2
      | none => .last (.bad []) := by
  have hminus : c ≠ '-' := by
    rintro rfl
    cases hnumeral
  rw [BeginsNumeral] at hnumeral
  rw [front_cons hminus]
  unfold readToken
  dsimp only
  rw [if_neg hname, if_pos hnumeral]
  cases Number.readUnsigned? (readNumeral (c :: cs)).1 <;> rfl

theorem frontWithin_numeral (hname : ¬ isNameStart c = true) (hnumeral : BeginsNumeral c cs)
    (h : IsComplete (c :: cs)) : FrontWithin (c :: cs) := by
  have hsplit : (readNumeral (c :: cs)).1 ++ (readNumeral (c :: cs)).2 = c :: cs :=
    List.take_append_drop _ _
  have hfront : ∀ u, Ends u → front (c :: cs ++ u) =
      match Number.readUnsigned? (readNumeral (c :: cs)).1 with
      | some n => .lead (.number n) ((readNumeral (c :: cs)).2 ++ u)
      | none => .last (.bad []) := by
    intro u hu
    have hread := hu.readNumeral c cs
    rw [List.cons_append] at hread ⊢
    rw [front_numeral hname (hu.beginsNumeral_iff.2 hnumeral), hread]
  cases hread : Number.readUnsigned? (readNumeral (c :: cs)).1 with
  | none => exact ⟨.last (.bad []), nofun, fun u hu => by rw [hfront u hu, hread]; rfl⟩
  | some n =>
    rw [← hsplit] at h
    refine ⟨.lead (.number n) (readNumeral (c :: cs)).2, ⟨nofun, h.of_readUnsigned? hread⟩,
      fun u hu => ?_⟩
    rw [hfront u hu, hread]
    rfl

theorem startsWith_iff {t part : Text} : t.startsWith part = true ↔ part <+: t := by
  rw [Text.startsWith, Option.isSome_iff_exists]
  simp only [Text.after?_eq_some_iff]
  exact ⟨fun ⟨rest, h⟩ => ⟨rest, h.symm⟩, fun ⟨rest, h⟩ => ⟨rest, h.symm⟩⟩

theorem symbols_tail : ∀ s ∈ symbols, s ≠ [] ∧ ∀ d ∈ s.tail,
    isPlain d = true ∧ d ∉ enders := by
  have hall : symbols.all (fun s =>
      s != [] && s.tail.all fun d => isPlain d && !enders.contains d) = true := by
    decide
  simpa using hall

theorem Ends.find?_symbols {u : Text} (hu : Ends u) (c : Char) (cs : Text) :
    symbols.find? (Text.startsWith (c :: cs ++ u)) = symbols.find? (Text.startsWith (c :: cs)) := by
  refine List.find?_congr fun s hs => Bool.eq_iff_iff.2 ?_
  rw [startsWith_iff, startsWith_iff]
  exact ⟨hu.isPrefix fun d hd => ((symbols_tail s hs).2 d hd).2,
    fun h => h.trans (List.prefix_append _ u)⟩

/-- A bracket with signs that opens nothing, a symbol, or a character that begins no token. -/
theorem front_symbol (hname : ¬ isNameStart c = true) (hnumeral : ¬ BeginsNumeral c cs)
    (hhidden : ¬ BeginsHidden (c :: cs)) :
    front (c :: cs) =
      if c = '[' ∧ cs.head?.any (· == '=') = true then .last (.bad [])
      else
        match symbols.find? (Text.startsWith (c :: cs)) with
        | some s => .lead (.symbol s) ((c :: cs).drop s.length)
        | none => .lead (.symbol [c]) cs := by
  have hquote : ¬ (c = '"' ∨ c = '\'') := fun hquote => hhidden (.short cs hquote.symm)
  have hopening : longOpening? (c :: cs) = none :=
    longOpening?_eq_none_iff.2 fun level ⟨rest, heq⟩ => hhidden (heq ▸ .long level rest)
  have hsign : cs.head? = some '=' ↔ cs.head?.any (· == '=') = true := by
    cases cs.head? <;> simp
  rw [BeginsNumeral] at hnumeral
  rw [front_of_not_comment fun ⟨rest, heq⟩ => hhidden (heq ▸ .comment rest)]
  unfold readToken
  dsimp only
  rw [if_neg hname, if_neg hnumeral, if_neg hquote, hopening]
  simp only [hsign]
  split
  · rfl
  · cases symbols.find? (Text.startsWith (c :: cs)) <;> rfl

theorem frontWithin_symbol (hname : ¬ isNameStart c = true) (hnumeral : ¬ BeginsNumeral c cs)
    (hhidden : ¬ BeginsHidden (c :: cs)) (h : IsComplete (c :: cs)) : FrontWithin (c :: cs) := by
  have hcs := h.of_not_beginsHidden hhidden
  have hfront : ∀ u, Ends u → front (c :: cs ++ u) =
      if c = '[' ∧ cs.head?.any (· == '=') = true then .last (.bad [])
      else
        match symbols.find? (Text.startsWith (c :: cs)) with
        | some s => .lead (.symbol s) ((c :: cs ++ u).drop s.length)
        | none => .lead (.symbol [c]) (cs ++ u) := by
    intro u hu
    have hbehind : ¬ BeginsHidden (c :: cs ++ u) := fun hbegins => hhidden (hu.beginsHidden hbegins)
    rw [← hu.find?_symbols, ← hu.any_head? (by decide) cs]
    exact front_symbol hname (hnumeral ∘ hu.beginsNumeral_iff.1) hbehind
  by_cases hbracket : c = '[' ∧ cs.head?.any (· == '=') = true
  · exact ⟨.last (.bad []), nofun, fun u hu => by rw [hfront u hu, if_pos hbracket]; rfl⟩
  cases hfind : symbols.find? (Text.startsWith (c :: cs)) with
  | none =>
    refine ⟨.lead (.symbol [c]) cs, ⟨nofun, hcs⟩, fun u hu => ?_⟩
    rw [hfront u hu, if_neg hbracket, hfind]
    rfl
  | some s =>
    obtain ⟨hne, htail⟩ := symbols_tail s (List.mem_of_find?_eq_some hfind)
    obtain ⟨rest, hrest⟩ := startsWith_iff.1 (List.find?_some hfind)
    refine ⟨.lead (.symbol s) rest, ⟨nofun, ?_⟩, fun u hu => ?_⟩
    · obtain ⟨d, ds, rfl⟩ := List.exists_cons_of_ne_nil hne
      rw [← (List.cons.inj hrest).2] at hcs
      exact hcs.of_isPlain_append fun d hd => (htail d hd).1
    · rw [hfront u hu, if_neg hbracket, hfind, ← hrest, List.append_assoc]
      dsimp only
      rw [List.drop_left]
      rfl

/-- **The front of complete text stays within it.** -/
theorem IsComplete.frontWithin (h : IsComplete (c :: cs)) : FrontWithin (c :: cs) := by
  by_cases hhidden : BeginsHidden (c :: cs)
  · generalize hwhole : c :: cs = whole at h hhidden
    cases h with
    | nil => cases hwhole
    | char hc => exact absurd hhidden hc
    | hidden hencloses ht => exact hencloses.frontWithin ht
  by_cases hname : isNameStart c = true
  · exact frontWithin_name hname h
  by_cases hnumeral : BeginsNumeral c cs
  · exact frontWithin_numeral hname hnumeral h
  · exact frontWithin_symbol hname hnumeral hhidden h

end Fronts

/-! ### Two texts -/

/-- The tokens of two texts, one behind the other: those of the second stand in place of the end of
the first, unless the first is bad. -/
def joined (first second : List Token) : List Token :=
  first.flatMap fun token => if token = .finish then second else [token]

theorem IsComplete.dropWhile_isGap {t : Text} (h : IsComplete t) :
    IsComplete (t.dropWhile Scans.isGap) := by
  rw [← List.takeWhile_append_dropWhile (p := Scans.isGap) (l := t)] at h
  refine h.of_isPlain_append fun c hc => isPlain_of_isGap ?_
  exact List.all_eq_true.1 List.all_takeWhile c hc

theorem tokenSequence_nil : tokenSequence [] = [.finish] := rfl

theorem joined_finish (second : List Token) : joined [.finish] second = second := by
  simp [joined]

theorem joined_finish_right (first : List Token) : joined first [.finish] = first := by
  have hone : (fun token => if token = .finish then [.finish] else [token]) =
      fun token : Token => [token] := by
    funext token
    split
    · next h => rw [h]
    · rfl
  rw [joined, hone]
  simp

theorem joined_cons {token : Token} (h : token ≠ .finish) (first second : List Token) :
    joined (token :: first) second = token :: joined first second := by
  simp [joined, h]

/-- **The tokens of complete text and of what follows it are those of the two.** -/
theorem tokenSequence_append {t u : Text} (ht : IsComplete t) (hu : Ends u) :
    tokenSequence (t ++ u) = joined (tokenSequence t) (tokenSequence u) := by
  generalize hn : t.length = n
  induction n using Nat.strongRecOn generalizing t with
  | ind n ih =>
    subst hn
    have hcomplete := ht.dropWhile_isGap
    cases hbody : t.dropWhile Scans.isGap with
    | nil =>
      -- nothing but blanks: the tokens are those of the second text
      rw [← tokenSequence_dropWhile (t ++ u), List.dropWhile_append, hbody,
        ← tokenSequence_dropWhile t, hbody, tokenSequence_nil, joined_finish]
      exact tokenSequence_dropWhile u
    | cons c cs =>
      have hwhole : (t ++ u).dropWhile Scans.isGap = c :: cs ++ u := by
        rw [List.dropWhile_append, hbody]
        rfl
      rw [hbody] at hcomplete
      have hlength : (c :: cs).length ≤ t.length := hbody ▸ List.length_dropWhile_le _ t
      obtain ⟨f, hinside, hfront⟩ := hcomplete.frontWithin
      have halone := hfront [] .nil
      rw [List.append_nil] at halone
      have hless : ∀ {rest}, front (c :: cs) = .comment rest ∨
          (∃ token, front (c :: cs) = .lead token rest) → rest.length < t.length := by
        intro rest hrest
        have := (front_suffix hrest).length_le
        rw [List.length_cons] at hlength
        omega
      rw [tokenSequence_eq (t ++ u), hwhole, hfront u hu, tokenSequence_eq t, hbody, halone]
      cases f with
      | comment rest =>
        simp only [Front.behind, List.append_nil] at halone ⊢
        exact ih _ (hless (.inl halone)) hinside rfl
      | lead token rest =>
        obtain ⟨hfinish, hrest⟩ := hinside
        simp only [Front.behind, List.append_nil] at halone ⊢
        rw [Front.followed, Front.followed, joined_cons hfinish]
        exact congrArg (token :: ·) (ih _ (hless (.inr ⟨token, halone⟩)) hrest rfl)
      | last token =>
        exact (joined_cons hinside [] (tokenSequence u)).symm

end Stencil.Lua
