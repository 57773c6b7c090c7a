import Mathlib.Order.Bounds.Basic
import Stencil.Lua.Quote
import Stencil.Lua.Token
import Stencil.Proofs.Text.Occurrence
import Stencil.Proofs.Text.Utf8

/-! A quoted text is read as the text it was made from.

`readToken_quote` says it for all four forms of a literal and whatever follows it. Every form has
its own reason: an escape is read back on its own (`readShort_escapeChar`), a short string holds
neither its quote nor a backslash, and a long bracket is chosen so that its closing does not occur
early (`fitsLevel_longLevel`). -/
namespace Stencil.Lua

/-! ### Escapes -/

/-- The letters that stand for an escape of their own. -/
def escapeLetters : List Char := ['a', 'b', 'f', 'n', 'r', 't', 'v', 'x', 'z', 'u']

theorem afterLineEnd?_cons {c : Char} (h : c ≠ '\n' ∧ c ≠ '\r') (t : Text) :
    afterLineEnd? (c :: t) = none := by
  unfold afterLineEnd?
  split
  case h_5 => rfl
  all_goals
    next heq =>
      first
        | exact absurd (List.cons.inj heq).1 h.1
        | exact absurd (List.cons.inj heq).1 h.2

/-- The escape of any other character: a line end, a quote or a backslash, or decimal digits. -/
theorem readEscape_other {c : Char}
    (hc : c ∉ escapeLetters) (rest : Text) :
    readEscape (c :: rest) =
      match afterLineEnd? (c :: rest) with
      | some rest => .ok ⟨[10], rest, 1⟩
      | none =>
        if c = '\\' ∨ c = '"' ∨ c = '\'' then .ok ⟨Char.bytes c, rest, 0⟩
        else if isAsciiDigit c then
          let digits := ((c :: rest).take 3).takeWhile isAsciiDigit
          let rest := (c :: rest).drop digits.length
          if Text.digitsValue digits < 256 then
            .ok ⟨[UInt8.ofNat (Text.digitsValue digits)], rest, 0⟩
          else .error ("decimal escape too large", '\\' :: (digits ++ rest.take 1))
        else .error ("invalid escape sequence", '\\' :: (c :: rest).take 1) := by
  unfold readEscape
  split
  case h_12 => rfl
  all_goals
    next heq =>
      rw [(List.cons.inj heq).1] at hc
      exact absurd (by decide) hc

/-- The escape of a digit takes up to three digits. -/
theorem readEscape_digit {c : Char} (hdigit : isAsciiDigit c = true) (rest : Text) :
    readEscape (c :: rest) =
      let digits := ((c :: rest).take 3).takeWhile isAsciiDigit
      let behind := (c :: rest).drop digits.length
      if Text.digitsValue digits < 256 then .ok ⟨[UInt8.ofNat (Text.digitsValue digits)], behind, 0⟩
      else .error ("decimal escape too large", '\\' :: (digits ++ behind.take 1)) := by
  have hne : ∀ d, isAsciiDigit d = false → c ≠ d := by
    rintro d hd rfl
    rw [hd] at hdigit
    cases hdigit
  have hline : c ≠ '\n' ∧ c ≠ '\r' := ⟨hne _ rfl, hne _ rfl⟩
  have hself : ¬ (c = '\\' ∨ c = '"' ∨ c = '\'') :=
    not_or.2 ⟨hne _ rfl, not_or.2 ⟨hne _ rfl, hne _ rfl⟩⟩
  have hletter : c ∉ escapeLetters := by
    intro hmem
    have hall : escapeLetters.any isAsciiDigit = false := by decide
    exact List.any_eq_false.1 hall c hmem hdigit
  rw [readEscape_other hletter, afterLineEnd?_cons hline]
  dsimp only
  rw [if_neg hself, if_pos hdigit]

/-- An escape of three digits, whatever follows it. -/
theorem readEscape_digits {a b c : Char} (ha : isAsciiDigit a = true) (hb : isAsciiDigit b = true)
    (hc : isAsciiDigit c = true) (hvalue : Text.digitsValue [a, b, c] < 256) (rest : Text) :
    readEscape (a :: b :: c :: rest) =
      .ok ⟨[UInt8.ofNat (Text.digitsValue [a, b, c])], rest, 0⟩ := by
  have htake : ((a :: b :: c :: rest).take 3).takeWhile isAsciiDigit = [a, b, c] := by
    simp [ha, hb, hc]
  rw [readEscape_digit ha, htake]
  exact if_pos hvalue

/-- The digits of the escape of a character below 128, and the number that they are. -/
theorem decimalEscape_eq {c : Char} (h : c.toNat < 128) :
    ∃ x y z, decimalEscape c = ['\\', x, y, z] ∧ isAsciiDigit x = true ∧ isAsciiDigit y = true ∧
      isAsciiDigit z = true ∧ Text.digitsValue [x, y, z] = c.toNat := by
  have hdigits : (List.range 128).all (fun n =>
      let digits := (decimalEscape (Char.ofNat n)).drop 1
      digits.length == 3 && digits.all isAsciiDigit && Text.digitsValue digits == n) = true := by
    decide +kernel
  have hc := List.all_eq_true.1 hdigits c.toNat (List.mem_range.2 h)
  rw [Char.ofNat_toNat] at hc
  simp only [Bool.and_eq_true, beq_iff_eq] at hc
  obtain ⟨⟨hlength, hall⟩, hvalue⟩ := hc
  generalize hrest : (decimalEscape c).drop 1 = digits at hlength hall hvalue
  obtain ⟨x, y, z, rfl⟩ : ∃ x y z, digits = [x, y, z] :=
    ⟨_, _, _, List.eq_getElem_of_length_eq_three digits hlength⟩
  have hdigit := List.all_eq_true.1 hall
  exact ⟨x, y, z, congrArg ('\\' :: ·) hrest, hdigit x (by simp), hdigit y (by simp),
    hdigit z (by simp), hvalue⟩

theorem lt_of_needsEscape {c : Char} (h : needsEscape c = true) : c.toNat < 128 := by
  simp only [needsEscape, Bool.or_eq_true, Bool.and_eq_true, decide_eq_true_eq, beq_iff_eq] at h
  omega

theorem bytes_of_lt {c : Char} (h : c.toNat < 128) : Char.bytes c = [UInt8.ofNat c.toNat] := by
  rw [Char.bytes, if_pos h]

/-! ### Short strings -/

section Short

variable {quote : Char} {fuel lines : Nat} {done : Bytes}

/-- A character that stands for itself. -/
theorem readShort_plain {c : Char} (hquote : c ≠ quote) (hline : c ≠ '\n') (hreturn : c ≠ '\r')
    (hescape : c ≠ '\\') (t : Text) :
    readShort quote (fuel + 1) done lines (c :: t) =
      readShort quote fuel ((Char.bytes c).reverse ++ done) lines t := by
  conv => lhs; unfold readShort
  dsimp only
  rw [if_neg hquote, if_neg (by simp [hline, hreturn]), if_neg hescape]

theorem readShort_escape (hquote : '\\' ≠ quote) {c : Char} {t : Text} {r : Read Bytes}
    (h : readEscape (c :: t) = .ok r) :
    readShort quote (fuel + 1) done lines ('\\' :: c :: t) =
      readShort quote fuel (r.value.reverse ++ done) (lines + r.lines) r.rest := by
  conv => lhs; unfold readShort
  dsimp only
  rw [if_neg hquote, if_neg (by decide), if_pos rfl, h]

theorem readShort_close (t : Text) :
    readShort quote (fuel + 1) done lines (quote :: t) = .ok ⟨done.reverse, t, lines⟩ := by
  unfold readShort
  dsimp only
  rw [if_pos rfl]

/-- A character is read back from its escape, or from itself if it has none. -/
theorem readShort_escapeChar (c : Char) (t : Text) :
    readShort '"' (fuel + 1) done lines (escapeChar c ++ t) =
      readShort '"' fuel ((Char.bytes c).reverse ++ done) lines t := by
  have hquote : '\\' ≠ '"' := by decide
  have hone : ∀ {e : Char} {b : UInt8}, readEscape (e :: t) = .ok ⟨[b], t, 0⟩ →
      Char.bytes c = [b] → readShort '"' (fuel + 1) done lines ('\\' :: e :: t) =
        readShort '"' fuel ((Char.bytes c).reverse ++ done) lines t := by
    intro e b hread hbytes
    rw [readShort_escape hquote hread, hbytes]
    rfl
  unfold escapeChar
  by_cases hslash : c = '\\'
  · rw [if_pos hslash]
    exact hone (e := '\\') (b := 92) rfl (by rw [hslash]; rfl)
  rw [if_neg hslash]
  by_cases hdouble : c = '"'
  · rw [if_pos hdouble]
    exact hone (e := '"') (b := 34) rfl (by rw [hdouble]; rfl)
  rw [if_neg hdouble]
  by_cases hreturn : c = '\r'
  · rw [if_pos hreturn]
    exact hone (e := 'r') (b := 13) rfl (by rw [hreturn]; rfl)
  rw [if_neg hreturn]
  by_cases hline : c = '\n'
  · rw [if_pos hline]
    exact hone (e := 'n') (b := 10) rfl (by rw [hline]; rfl)
  rw [if_neg hline]
  by_cases hneeds : needsEscape c = true
  · have hlt := lt_of_needsEscape hneeds
    obtain ⟨x, y, z, heq, hx, hy, hz, hvalue⟩ := decimalEscape_eq hlt
    rw [if_pos hneeds, heq]
    have hread := readEscape_digits hx hy hz (by omega) t
    rw [bytes_of_lt hlt, ← hvalue]
    rw [show ['\\', x, y, z] ++ t = '\\' :: x :: y :: z :: t from rfl,
      readShort_escape hquote hread]
    rfl
  · rw [if_neg hneeds]
    exact readShort_plain hdouble hline hreturn hslash t

theorem escapeChar_ne_nil (c : Char) : 1 ≤ (escapeChar c).length := by
  unfold escapeChar decimalEscape
  split
  · simp
  repeat'
    split
    · simp
  simp

/-- An escaped text is read back. -/
theorem readShort_flatMap_escapeChar (content rest : Text)
    (h : (content.flatMap escapeChar).length < fuel) :
    readShort '"' fuel done lines (content.flatMap escapeChar ++ '"' :: rest) =
      .ok ⟨done.reverse ++ content.bytes, rest, lines⟩ := by
  induction content generalizing fuel done with
  | nil =>
    obtain ⟨fuel, rfl⟩ : ∃ n, fuel = n + 1 := ⟨fuel - 1, by omega⟩
    rw [List.flatMap_nil, List.nil_append, readShort_close, Text.bytes_nil, List.append_nil]
  | cons c cs ih =>
    have := escapeChar_ne_nil c
    rw [List.flatMap_cons, List.length_append] at h
    obtain ⟨fuel, rfl⟩ : ∃ n, fuel = n + 1 := ⟨fuel - 1, by omega⟩
    rw [List.flatMap_cons, List.append_assoc, readShort_escapeChar, ih (by omega),
      List.reverse_append, List.reverse_reverse, List.append_assoc, Text.bytes_cons]

/-- A text is read back from between quotes that it does not hold. -/
theorem readShort_of_plain (content rest : Text)
    (h : ∀ c ∈ content, c ≠ quote ∧ c ≠ '\n' ∧ c ≠ '\r' ∧ c ≠ '\\')
    (hfuel : content.length < fuel) :
    readShort quote fuel done lines (content ++ quote :: rest) =
      .ok ⟨done.reverse ++ content.bytes, rest, lines⟩ := by
  induction content generalizing fuel done with
  | nil =>
    obtain ⟨fuel, rfl⟩ : ∃ n, fuel = n + 1 := ⟨fuel - 1, by omega⟩
    rw [List.nil_append, readShort_close, Text.bytes_nil, List.append_nil]
  | cons c cs ih =>
    rw [List.length_cons] at hfuel
    obtain ⟨fuel, rfl⟩ : ∃ n, fuel = n + 1 := ⟨fuel - 1, by omega⟩
    obtain ⟨hquote, hline, hreturn, hslash⟩ := h c List.mem_cons_self
    rw [List.cons_append, readShort_plain hquote hline hreturn hslash,
      ih (fun d hd => h d (List.mem_cons_of_mem _ hd)) (by omega), List.reverse_append,
      List.reverse_reverse, List.append_assoc, Text.bytes_cons]

end Short

/-! ### Long brackets -/

theorem longOpening?_append (level : Nat) (inside : Text) :
    longOpening? ('[' :: (Text.repeated '=' level ++ '[' :: inside)) = some (level, inside) := by
  have htake : (Text.repeated '=' level ++ '[' :: inside).takeWhile (· == '=') =
      Text.repeated '=' level := by
    rw [Text.repeated, List.takeWhile_append_of_pos (by simp)]
    simp
  have hdrop : (Text.repeated '=' level ++ '[' :: inside).dropWhile (· == '=') =
      '[' :: inside := by
    rw [Text.repeated, List.dropWhile_append_of_pos (by simp)]
    simp
  rw [longOpening?, hdrop, htake, Text.repeated, List.length_replicate]
  rfl

/-- The closing of a level is longer than a text of that length, so it cannot begin in the text and
reach into the closing behind it. -/
theorem fitsLevel_of_length_le {content : Text} {level : Nat} (h : content.length ≤ level) :
    fitsLevel content level = true := by
  rw [fitsLevel, beq_iff_eq]
  induction content with
  | nil =>
    have hafter : Text.after? (longClosing level) (longClosing level) = some [] :=
      Text.after?_eq_some_iff.2 (List.append_nil _).symm
    exact Text.cut?_cons_of_some _ _ hafter
  | cons c cs ih =>
    rw [List.length_cons] at h
    have hnone : Text.after? (longClosing level) (c :: (cs ++ longClosing level)) = none := by
      rw [Text.after?_eq_none_iff]
      intro rest heq
      -- the bracket of the closing behind the text would be one of the signs in the other
      have hbracket : (c :: (cs ++ longClosing level))[cs.length + 1]? = some ']' := by
        simp [longClosing]
      have hsign : (longClosing level ++ rest)[cs.length + 1]? = some '=' := by
        have hlt : cs.length < (List.replicate level '=').length := by
          rw [List.length_replicate]
          omega
        simp only [longClosing, Text.repeated, List.cons_append, List.append_assoc,
          List.getElem?_cons_succ, List.getElem?_append_left hlt, List.getElem?_replicate]
        rw [if_pos (by omega)]
      rw [heq, hsign] at hbracket
      exact absurd hbracket (by decide)
    rw [List.cons_append, Text.cut?_cons_of_none _ _ hnone, ih (by omega)]
    rfl

/-- The level that is chosen fits. -/
theorem fitsLevel_longLevel (content : Text) : fitsLevel content (longLevel content) = true := by
  unfold longLevel
  cases hfind : (List.range content.length).find? (fitsLevel content) with
  | some level => exact List.find?_some hfind
  | none => exact fitsLevel_of_length_le (Nat.le_refl _)

theorem longClosing_ne_nil (level : Nat) : longClosing level ≠ [] := List.cons_ne_nil _ _

/-- A level fits if its closing, put behind the content, starts nowhere sooner. -/
theorem fitsLevel_iff {content : Text} {level : Nat} :
    fitsLevel content level = true ↔ content.LeadsTo (longClosing level) := by
  rw [fitsLevel, beq_iff_eq, Text.cut?_eq_some_iff (longClosing_ne_nil level), List.append_nil]
  exact and_iff_right rfl

/-- The level that is chosen is the lowest of all that fit, with no bound on how high one may be. -/
theorem isLeast_longLevel (content : Text) :
    IsLeast {level | content.LeadsTo (longClosing level)} (longLevel content) := by
  refine ⟨fitsLevel_iff.1 (fitsLevel_longLevel content), fun level hlevel => ?_⟩
  have hfits := fitsLevel_iff.2 hlevel
  by_contra hlt
  rw [Nat.not_le] at hlt
  unfold longLevel at hlt
  cases hfind : (List.range content.length).find? (fitsLevel content) with
  | none =>
    rw [hfind, Option.getD_none] at hlt
    exact List.find?_eq_none.1 hfind level (List.mem_range.2 hlt) hfits
  | some lowest =>
    rw [hfind, Option.getD_some] at hlt
    have hbefore := (List.find?_range_eq_some.1 hfind).2.2 level hlt
    rw [hfits] at hbefore
    cases hbefore

/-- A text without line ends is its own joined form. -/
theorem joinLines_of_plain {t : Text} (h : ∀ c ∈ t, c ≠ '\n' ∧ c ≠ '\r') (fuel : Nat) :
    joinLines fuel t = (t, 0) := by
  induction fuel generalizing t with
  | zero => rfl
  | succ fuel ih =>
    cases t with
    | nil => rfl
    | cons c cs =>
      have hline : afterLineEnd? (c :: cs) = none := afterLineEnd?_cons (h c List.mem_cons_self) cs
      rw [joinLines, hline]
      dsimp only
      rw [ih fun d hd => h d (List.mem_cons_of_mem _ hd)]

/-! ### Literals as tokens -/

/-- How a message shows the literal of a text. -/
def quoteShown (content : Text) : Text :=
  let between := fun q => shownBytes (Char.bytes q ++ content.bytes ++ Char.bytes q)
  if content.any needsEscape then between '"'
  else if '\\' ∉ content ∧ '\'' ∉ content then between '\''
  else if '\\' ∉ content ∧ '"' ∉ content then between '"'
  else shownBytes (Text.bytes (longLiteral (longLevel content) content))

section Read

variable {q : Char} {t : Text}

theorem readToken_quoted (hq : q = '"' ∨ q = '\'') (line : Nat) (t : Text) :
    readToken line (q :: t) =
      match readShort q (t.length + 1) [] line t with
      | .ok r => (⟨.string r.value, r.lines, shownBytes (Char.bytes q ++ r.value ++ Char.bytes q)⟩,
          r.rest)
      | .error (complaint, line) => (⟨.bad complaint, line, []⟩, []) := by
  have hname : isNameStart q = false := by rcases hq with rfl | rfl <;> decide
  have hdigit : isAsciiDigit q = false := by rcases hq with rfl | rfl <;> decide
  have hpoint : (q == '.') = false := by rcases hq with rfl | rfl <;> decide
  unfold readToken
  dsimp only
  rw [if_neg (by simp [hname]), if_neg (by simp [hdigit, hpoint]), if_pos hq]
  rfl

theorem readToken_short (hq : q = '"' ∨ q = '\'') {rest : Text} {value : Bytes} {line behind : Nat}
    (h : readShort q (t.length + 1) [] line t = .ok ⟨value, rest, behind⟩) :
    readToken line (q :: t) =
      (⟨.string value, behind, shownBytes (Char.bytes q ++ value ++ Char.bytes q)⟩, rest) := by
  rw [readToken_quoted hq, h]

theorem readToken_bracket (line : Nat) {level : Nat} {inside : Text} {r : Read Text}
    (hopening : longOpening? t = some (level, inside)) (hread : readLong? level inside = some r) :
    readToken line t = (⟨.string (Text.bytes r.value), line + r.lines,
      shownBytes (Text.bytes (t.take (t.length - inside.length) ++
        inside.take (inside.length - r.rest.length)))⟩, r.rest) := by
  obtain ⟨tail, rfl⟩ : ∃ tail, t = '[' :: tail := by
    unfold longOpening? at hopening
    split at hopening
    · exact ⟨_, rfl⟩
    · cases hopening
  unfold readToken
  dsimp only
  rw [if_neg (by decide), if_neg (by simp [isAsciiDigit]), if_neg (by decide), hopening]
  dsimp only
  rw [hread]

end Read

theorem readToken_long (line : Nat) {content : Text} (hplain : ∀ c ∈ content, c ≠ '\n' ∧ c ≠ '\r')
    {level : Nat} (hfits : fitsLevel content level = true) (rest : Text) :
    readToken line (longLiteral level content ++ rest) =
      (⟨.string content.bytes, line, shownBytes (Text.bytes (longLiteral level content))⟩,
        rest) := by
  have hopening : longOpening? (longLiteral level content ++ rest) =
      some (level, content ++ longClosing level ++ rest) := by
    have := longOpening?_append level (content ++ longClosing level ++ rest)
    simpa [longLiteral] using this
  have hcut : Text.cut? (longClosing level) (content ++ longClosing level ++ rest) =
      some (content, rest) := by
    have := Text.cut?_append (beq_iff_eq.1 hfits) rest
    simpa using this
  have hline : afterLineEnd? content = none := by
    cases content with
    | nil => rfl
    | cons c cs => exact afterLineEnd?_cons (hplain c List.mem_cons_self) cs
  have hlong : readLong? level (content ++ longClosing level ++ rest) =
      some ⟨content, rest, 0⟩ := by
    rw [readLong?, hcut, Option.map_some]
    dsimp only
    rw [joinLines_of_plain hplain, hline]
    rfl
  have htake : ∀ a b : Text, (a ++ b).take ((a ++ b).length - b.length) = a := by
    intro a b
    rw [List.length_append, Nat.add_sub_cancel, List.take_left]
  have hsplit : longLiteral level content ++ rest =
      ('[' :: (Text.repeated '=' level ++ ['['])) ++ (content ++ longClosing level ++ rest) := by
    simp [longLiteral]
  have hliteral : ('[' :: (Text.repeated '=' level ++ ['['])) ++ (content ++ longClosing level) =
      longLiteral level content := by
    simp [longLiteral]
  rw [readToken_bracket line hopening hlong, htake, hsplit, htake, hliteral]
  rfl

/-- **A literal is read as the text it was made from**, whatever follows it. -/
theorem readToken_quote (line : Nat) (content rest : Text) :
    readToken line (quote content ++ rest) =
      (⟨.string content.bytes, line, quoteShown content⟩, rest) := by
  unfold quote quoteShown
  have hfuel : ∀ (t : Text) (q : Char), t.length < (t ++ ([q] ++ rest)).length + 1 := by
    intro t q
    simp only [List.length_append]
    omega
  by_cases hescape : content.any needsEscape = true
  · rw [if_pos hescape, if_pos hescape, escapedLiteral, List.cons_append, List.append_assoc]
    exact readToken_short (.inl rfl)
      (readShort_flatMap_escapeChar content rest (hfuel _ _))
  have hplain : ∀ c ∈ content, c ≠ '\n' ∧ c ≠ '\r' := by
    intro c hc
    have hneeds : ¬ needsEscape c = true := fun h => hescape (List.any_eq_true.2 ⟨c, hc, h⟩)
    constructor <;> rintro rfl <;> exact hneeds rfl
  rw [if_neg hescape, if_neg hescape]
  have hshort : ∀ q, '\\' ∉ content → q ∉ content →
      ∀ c ∈ content, c ≠ q ∧ c ≠ '\n' ∧ c ≠ '\r' ∧ c ≠ '\\' := by
    intro q hslash hq c hc
    refine ⟨?_, (hplain c hc).1, (hplain c hc).2, ?_⟩
    · rintro rfl
      exact hq hc
    · rintro rfl
      exact hslash hc
  by_cases hsingle : '\\' ∉ content ∧ '\'' ∉ content
  · rw [if_pos hsingle, if_pos hsingle, List.cons_append, List.append_assoc]
    exact readToken_short (.inr rfl)
      (readShort_of_plain content rest (hshort _ hsingle.1 hsingle.2) (hfuel _ _))
  rw [if_neg hsingle, if_neg hsingle]
  by_cases hdouble : '\\' ∉ content ∧ '"' ∉ content
  · rw [if_pos hdouble, if_pos hdouble, List.cons_append, List.append_assoc]
    exact readToken_short (.inl rfl)
      (readShort_of_plain content rest (hshort _ hdouble.1 hdouble.2) (hfuel _ _))
  rw [if_neg hdouble, if_neg hdouble]
  exact readToken_long line hplain (fitsLevel_longLevel content) rest

/-! ### Lines -/

theorem lineBreak_not_mem_escapeChar {b : Char} (hb : b = '\n' ∨ b = '\r') (c : Char) :
    b ∉ escapeChar c := by
  unfold escapeChar
  split
  · rcases hb with rfl | rfl <;> decide
  · split
    · rcases hb with rfl | rfl <;> decide
    · split
      · rcases hb with rfl | rfl <;> decide
      · next hreturn =>
        split
        · rcases hb with rfl | rfl <;> decide
        · next hline =>
          split
          · next hneeds =>
            have hdigit : ∀ {x}, isAsciiDigit x = true → b ≠ x := by
              rintro _ hx rfl
              rcases hb with rfl | rfl <;> cases hx
            have hslash : b ≠ '\\' := by rcases hb with rfl | rfl <;> decide
            obtain ⟨x, y, z, heq, hx, hy, hz, _⟩ := decimalEscape_eq (lt_of_needsEscape hneeds)
            rw [heq]
            simp only [List.mem_cons, List.not_mem_nil, or_false, not_or]
            exact ⟨hslash, hdigit hx, hdigit hy, hdigit hz⟩
          · intro hmem
            rw [← List.mem_singleton.1 hmem] at hline hreturn
            exact hb.elim hline hreturn

/-- A literal takes one line of a script, wherever a script ends its lines. -/
theorem lineBreak_not_mem_quote {b : Char} (hb : b = '\n' ∨ b = '\r') (content : Text) :
    b ∉ quote content := by
  have hne : b ≠ '"' ∧ b ≠ '\'' ∧ b ≠ '[' ∧ b ≠ ']' ∧ b ≠ '=' := by
    rcases hb with rfl | rfl <;> decide
  unfold quote
  split
  · simp [escapedLiteral, lineBreak_not_mem_escapeChar hb, hne]
  · next hescape =>
    have hcontent : b ∉ content := by
      intro hmem
      refine hescape (List.any_eq_true.2 ⟨b, hmem, ?_⟩)
      rcases hb with rfl | rfl <;> decide
    split
    · simp [hcontent, hne]
    · split
      · simp [hcontent, hne]
      · simp [longLiteral, longClosing, Text.repeated, hcontent, hne]

theorem lineFeed_not_mem_quote (content : Text) : '\n' ∉ quote content :=
  lineBreak_not_mem_quote (.inl rfl) content

end Stencil.Lua
