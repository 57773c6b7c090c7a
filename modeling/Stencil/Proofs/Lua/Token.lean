import Stencil.Proofs.Lua.Quote

/-! Reading a script token by token.

`Scans` says that from some line on a text begins with certain tokens, and where reading goes on
behind them. It is stated over any fuel that is enough, so its steps compose (`Scans.trans`), and
there is one lemma for each kind of token. What follows a token is left open as far as the token
does not depend on it: a word ends where no name character follows, a numeral also at a point. -/
namespace Stencil.Lua

/-- From a line on, a text is read as these tokens, and reading goes on with the rest. -/
def Scans (line : Nat) (t : Text) (lexemes : List Lexeme) (behind : Nat) (rest : Text) : Prop :=
  ∀ fuel, t.length < fuel → ∃ fuel', rest.length < fuel' ∧
    tokensFrom fuel line t = lexemes ++ tokensFrom fuel' behind rest

namespace Scans

variable {line middle behind : Nat} {t between rest : Text} {lexemes others : List Lexeme}

theorem refl (line : Nat) (t : Text) : Scans line t [] line t :=
  fun fuel hfuel => ⟨fuel, hfuel, rfl⟩

theorem trans (h : Scans line t lexemes middle between)
    (hrest : Scans middle between others behind rest) :
    Scans line t (lexemes ++ others) behind rest := by
  intro fuel hfuel
  obtain ⟨fuel, hfuel, heq⟩ := h fuel hfuel
  obtain ⟨fuel', hfuel', heq'⟩ := hrest fuel hfuel
  exact ⟨fuel', hfuel', by rw [heq, heq', List.append_assoc]⟩

/-- A text that is read to its end is all there is to the tokens. -/
theorem tokens_eq (h : Scans 1 t lexemes behind []) :
    tokens t = lexemes ++ [⟨.finish, behind, endShown⟩] := by
  obtain ⟨fuel, hfuel, heq⟩ := h (t.length + 1) (Nat.lt_succ_self _)
  obtain ⟨fuel, rfl⟩ : ∃ n, fuel = n + 1 := ⟨fuel - 1, by rw [List.length_nil] at hfuel; omega⟩
  rw [tokens, heq]
  rfl

/-! ### Blanks -/

theorem space (line : Nat) (t : Text) : Scans line (' ' :: t) [] line t := by
  intro fuel hfuel
  rw [List.length_cons] at hfuel
  obtain ⟨fuel, rfl⟩ : ∃ n, fuel = n + 1 := ⟨fuel - 1, by omega⟩
  refine ⟨fuel + 1, by omega, ?_⟩
  have hskip : skipBlanks (' ' :: t).length (' ' :: t) = skipBlanks t.length t := rfl
  rw [List.nil_append, tokensFrom, tokensFrom, hskip]

theorem spaces (line n : Nat) (t : Text) : Scans line (Text.spaces n ++ t) [] line t := by
  induction n with
  | zero => exact refl line t
  | succ n ih => exact (space line (Text.spaces n ++ t)).trans ih

theorem lineFeed (line : Nat) (h : t.head? ≠ some '\r') :
    Scans line ('\n' :: t) [] (line + 1) t := by
  intro fuel hfuel
  rw [List.length_cons] at hfuel
  obtain ⟨fuel, rfl⟩ : ∃ n, fuel = n + 1 := ⟨fuel - 1, by omega⟩
  refine ⟨fuel + 1, by omega, ?_⟩
  have hline : afterLineEnd? ('\n' :: t) = some t := by
    cases t with
    | nil => rfl
    | cons c cs =>
      have hc : c ≠ '\r' := by
        rintro rfl
        exact h rfl
      unfold afterLineEnd?
      split
      · next heq => exact absurd (List.cons.inj heq).1 (by decide)
      · next heq => exact absurd (List.cons.inj (List.cons.inj heq).2).1 hc
      · next heq => exact absurd (List.cons.inj heq).1 (by decide)
      · next heq => rw [(List.cons.inj heq).2]
      · next hnot => exact absurd rfl (hnot _)
  have hskip : skipBlanks ('\n' :: t).length ('\n' :: t) =
      ((skipBlanks t.length t).1 + 1, (skipBlanks t.length t).2) := by
    rw [List.length_cons, skipBlanks, hline]
  rw [List.nil_append, tokensFrom, tokensFrom, hskip]
  dsimp only
  rw [show line + ((skipBlanks t.length t).1 + 1) = line + 1 + (skipBlanks t.length t).1 by omega]

/-! ### Tokens -/

/-- A character that is passed between tokens. -/
def isGap (c : Char) : Bool := [' ', '\t', '\x0B', '\x0C', '\n', '\r'].contains c

theorem skipBlanks_of_not_isGap {c : Char} (hc : isGap c = false) (cs : Text) (fuel : Nat) :
    skipBlanks fuel (c :: cs) = (0, c :: cs) := by
  cases fuel with
  | zero => rfl
  | succ fuel =>
    simp only [isGap, List.contains_cons, List.contains_nil, Bool.or_false, Bool.or_eq_false_iff,
      beq_eq_false_iff_ne] at hc
    obtain ⟨hspace, htab, hvertical, hform, hline, hreturn⟩ := hc
    rw [skipBlanks, afterLineEnd?_cons ⟨hline, hreturn⟩]
    dsimp only
    rw [if_neg (by simp [hspace, htab, hvertical, hform])]

/-- One token that is neither the end nor bad. -/
theorem of_readToken {c : Char} {cs : Text} {lexeme : Lexeme} (hc : isGap c = false)
    (hcomment : afterComment? line (c :: cs) = none)
    (h : readToken line (c :: cs) = (lexeme, rest)) (hline : lexeme.line = line)
    (hfinish : lexeme.token ≠ .finish) (hbad : ∀ complaint, lexeme.token ≠ .bad complaint)
    (hrest : rest.length ≤ cs.length) : Scans line (c :: cs) [lexeme] line rest := by
  intro fuel hfuel
  rw [List.length_cons] at hfuel
  obtain ⟨fuel, rfl⟩ : ∃ n, fuel = n + 1 := ⟨fuel - 1, by omega⟩
  refine ⟨fuel, by omega, ?_⟩
  rw [tokensFrom, skipBlanks_of_not_isGap hc]
  dsimp only
  rw [Nat.add_zero, hcomment]
  dsimp only
  rw [h]
  dsimp only
  split
  · next heq => exact absurd heq hfinish
  · next complaint heq => exact absurd heq (hbad complaint)
  · rw [hline]
    rfl

theorem afterComment?_of_ne {c : Char} (hc : c ≠ '-') (cs : Text) :
    afterComment? line (c :: cs) = none := by
  unfold afterComment?
  split
  · next heq => exact absurd (List.cons.inj heq).1 hc
  · rfl

end Scans

/-! ### Words and names -/

/-- A reserved word or a name. -/
def wordLexeme (line : Nat) (word : Text) : Lexeme :=
  ⟨if words.contains word then .word word else .name word, line, quoted word⟩

/-- The text is one word: nothing in it but name characters, the first of them no digit. -/
structure IsWord (t : Text) : Prop where
  start : ∃ c cs, t = c :: cs ∧ isNameStart c = true
  chars : ∀ c ∈ t, isNameChar c = true

instance (t : Text) : Decidable (IsWord t) :=
  match t with
  | [] => isFalse fun h => by
    obtain ⟨c, cs, heq, _⟩ := h.start
    cases heq
  | c :: cs =>
    if h : isNameStart c = true ∧ (c :: cs).all isNameChar = true then
      isTrue ⟨⟨c, cs, rfl, h.1⟩, List.all_eq_true.1 h.2⟩
    else isFalse fun hword => h ⟨by
      obtain ⟨d, ds, heq, hd⟩ := hword.start
      rwa [(List.cons.inj heq).1], List.all_eq_true.2 hword.chars⟩

theorem isGap_of_isNameStart {c : Char} (h : isNameStart c = true) :
    Scans.isGap c = false ∧ c ≠ '-' := by
  constructor
  · rw [← Bool.not_eq_true]
    intro hgap
    simp only [Scans.isGap, List.contains_iff_mem, List.mem_cons, List.not_mem_nil, or_false]
      at hgap
    rcases hgap with rfl | rfl | rfl | rfl | rfl | rfl
    all_goals exact absurd h (by decide)
  · rintro rfl
    exact absurd h (by decide)

/-- A word ends where no name character follows. -/
theorem Scans.word {t rest : Text} (line : Nat) (ht : IsWord t)
    (hrest : ∀ c ∈ rest.head?, isNameChar c = false) :
    Scans line (t ++ rest) [wordLexeme line t] line rest := by
  obtain ⟨htake, hdrop⟩ := Text.span_of_all ht.chars hrest
  obtain ⟨c, cs, rfl, hc⟩ := ht.start
  obtain ⟨hgap, hcomment⟩ := isGap_of_isNameStart hc
  rw [List.cons_append] at htake hdrop ⊢
  refine of_readToken hgap (afterComment?_of_ne hcomment _) ?_ rfl ?_ ?_
    (by simp)
  · unfold readToken
    dsimp only
    rw [if_pos hc, htake, hdrop]
    rfl
  · unfold wordLexeme
    split <;> simp
  · unfold wordLexeme
    split <;> simp

/-! ### Symbols -/

def symbolLexeme (line : Nat) (symbol : Text) : Lexeme := ⟨.symbol symbol, line, quoted symbol⟩

namespace Scans

theorem openParen (line : Nat) (rest : Text) :
    Scans line ('(' :: rest) [symbolLexeme line ['(']] line rest :=
  of_readToken rfl rfl rfl rfl nofun nofun (Nat.le_refl _)

theorem closeParen (line : Nat) (rest : Text) :
    Scans line (')' :: rest) [symbolLexeme line [')']] line rest :=
  of_readToken rfl rfl rfl rfl nofun nofun (Nat.le_refl _)

theorem comma (line : Nat) (rest : Text) :
    Scans line (',' :: rest) [symbolLexeme line [',']] line rest :=
  of_readToken rfl rfl rfl rfl nofun nofun (Nat.le_refl _)

theorem equals (line : Nat) (rest : Text) :
    Scans line ('=' :: ' ' :: rest) [symbolLexeme line ['=']] line rest := by
  have htoken : Scans line ('=' :: ' ' :: rest) [symbolLexeme line ['=']] line (' ' :: rest) :=
    of_readToken rfl rfl rfl rfl nofun nofun (Nat.le_refl _)
  exact htoken.trans (space line rest)

theorem concat (line : Nat) (rest : Text) :
    Scans line ('.' :: '.' :: ' ' :: rest) [symbolLexeme line ['.', '.']] line rest := by
  have htoken : Scans line ('.' :: '.' :: ' ' :: rest) [symbolLexeme line ['.', '.']] line
      (' ' :: rest) := of_readToken rfl rfl rfl rfl nofun nofun (Nat.le_succ _)
  exact htoken.trans (space line rest)

end Scans

/-! ### Numerals -/

/-- The spelling of an integer: decimal digits, or hexadecimal ones behind `0x`. -/
inductive IsNumeral : Text → Prop
  | decimal {digits : Text} (hne : digits ≠ []) (h : ∀ c ∈ digits, isAsciiDigit c = true) :
    IsNumeral digits
  | hexadecimal {x : Char} {digits : Text} (hx : x = 'x' ∨ x = 'X')
    (h : ∀ c ∈ digits, Number.isHexDigit c = true) : IsNumeral ('0' :: x :: digits)

/-- The character ends a numeral. -/
def endsNumeral (c : Char) : Bool := !isNameChar c && c != '.'

theorem isAsciiLetter_of_toLower {c : Char} (h : isAsciiLetter c.toLower = true) :
    isAsciiLetter c = true := by
  unfold Char.toLower at h
  split at h
  · next hupper =>
    have hle : 'A' ≤ c ∧ c ≤ 'Z' := ⟨hupper.1, hupper.2⟩
    simp [isAsciiLetter, hle]
  · exact h

theorem not_isAsciiLetter_of_isAsciiDigit {c : Char} (h : isAsciiDigit c = true) :
    isAsciiLetter c = false := by
  simp only [isAsciiDigit, Bool.and_eq_true, decide_eq_true_eq] at h
  rw [← Bool.not_eq_true]
  intro hletter
  simp only [isAsciiLetter, Bool.or_eq_true, Bool.and_eq_true, decide_eq_true_eq] at hletter
  rcases hletter with hletter | hletter
  · exact absurd (Char.le_trans hletter.1 h.2) (by decide)
  · exact absurd (Char.le_trans hletter.1 h.2) (by decide)

theorem toLower_ne_p_of_isHexDigit {c : Char} (h : Number.isHexDigit c = true) :
    c.toLower ≠ 'p' := by
  intro hlower
  unfold Char.toLower at hlower
  split at hlower
  · have hval := congrArg (fun d : Char => d.val.toNat) hlower
    have hc : c = 'P' := by
      apply Char.ext
      apply UInt32.toNat_inj.1
      simp only [UInt32.toNat_add] at hval
      have := c.val.toNat_lt
      change (c.val.toNat + 32) % 4294967296 = 112 at hval
      change c.val.toNat = 80
      omega
    rw [hc] at h
    exact absurd h (by decide)
  · rw [hlower] at h
    exact absurd h (by decide)

theorem isHexDigit_of_isAsciiDigit {c : Char} (h : isAsciiDigit c = true) :
    Number.isHexDigit c = true := by
  rw [Number.isHexDigit, Number.hexValue?, if_pos h]
  rfl

theorem isNameChar_of_isHexDigit {c : Char} (h : Number.isHexDigit c = true) :
    isNameChar c = true := by
  unfold Number.isHexDigit Number.hexValue? at h
  unfold isNameChar isAsciiLetter
  split at h
  · next hdigit => simp [hdigit]
  · split at h
    · next hlower =>
      have hle : 'a' ≤ c ∧ c ≤ 'z' := ⟨hlower.1, Char.le_trans hlower.2 (by decide)⟩
      simp [hle]
    · split at h
      · next hupper =>
        have hle : 'A' ≤ c ∧ c ≤ 'Z' := ⟨hupper.1, Char.le_trans hupper.2 (by decide)⟩
        simp [hle]
      · cases h

theorem numeralLength_of_endsNumeral {letter : Char} (hletter : isAsciiLetter letter = true)
    {rest : Text} (hrest : ∀ c ∈ rest.head?, endsNumeral c = true) :
    numeralLength letter rest = 0 := by
  cases rest with
  | nil => rfl
  | cons c cs =>
    have hc := hrest c rfl
    simp only [endsNumeral, Bool.and_eq_true, Bool.not_eq_true', bne_iff_ne] at hc
    have hlower : c.toLower ≠ letter := by
      rintro rfl
      have := isAsciiLetter_of_toLower hletter
      simp [isNameChar, this] at hc
    have hhex : ¬ Number.isHexDigit c = true := by
      intro h
      have := isNameChar_of_isHexDigit h
      simp [this] at hc
    cases cs with
    | nil => rw [numeralLength, if_neg (by simp [hlower, hhex, hc.2])]
    | cons d ds => rw [numeralLength, if_neg hlower, if_neg (by simp [hhex, hc.2])]

theorem numeralLength_append {letter : Char} (hletter : isAsciiLetter letter = true)
    {digits rest : Text} (hdigits : ∀ c ∈ digits, Number.isHexDigit c = true ∧ c.toLower ≠ letter)
    (hrest : ∀ c ∈ rest.head?, endsNumeral c = true) :
    numeralLength letter (digits ++ rest) = digits.length := by
  induction digits with
  | nil => exact numeralLength_of_endsNumeral hletter hrest
  | cons c cs ih =>
    obtain ⟨hhex, hlower⟩ := hdigits c List.mem_cons_self
    have hcs := ih fun d hd => hdigits d (List.mem_cons_of_mem _ hd)
    rw [List.cons_append, List.length_cons]
    cases htail : cs ++ rest with
    | nil =>
      obtain ⟨rfl, rfl⟩ := List.append_eq_nil_iff.1 htail
      rw [numeralLength, if_pos (by simp [hhex])]
      rfl
    | cons d ds =>
      rw [htail] at hcs
      rw [numeralLength, if_neg hlower, if_pos (by simp [hhex]), hcs, Nat.add_comm]

/-- A text cut behind a number of characters, or behind the letter that follows them. -/
def numeralSplit (t : Text) (n : Nat) : Text × Text :=
  let n := if (t.drop n).head?.any isNameStart then n + 1 else n
  (t.take n, t.drop n)

theorem readNumeral_hexadecimal {x : Char} (hx : x = 'x' ∨ x = 'X') (t : Text) :
    readNumeral ('0' :: x :: t) = numeralSplit ('0' :: x :: t) (2 + numeralLength 'p' t) := by
  rcases hx with rfl | rfl <;> rfl

theorem readNumeral_decimal {t : Text} (h : ∀ x rest, x = 'x' ∨ x = 'X' → t ≠ '0' :: x :: rest) :
    readNumeral t = numeralSplit t (numeralLength 'e' t) := by
  unfold readNumeral
  split
  · next rest => exact absurd rfl (h _ rest (.inl rfl))
  · next rest => exact absurd rfl (h _ rest (.inr rfl))
  · rfl

theorem numeralSplit_append {t rest : Text} {n : Nat} (hn : n ≤ t.length)
    (hrest : ∀ c ∈ rest.head?, isNameStart c = false) :
    numeralSplit (t ++ rest) n = ((numeralSplit t n).1, (numeralSplit t n).2 ++ rest) := by
  have hdrop : (t ++ rest).drop n = t.drop n ++ rest := List.drop_append_of_le_length hn
  have hany : ((t ++ rest).drop n).head?.any isNameStart = (t.drop n).head?.any isNameStart := by
    rw [hdrop]
    cases t.drop n with
    | nil =>
      cases rest with
      | nil => rfl
      | cons c cs => exact hrest c rfl
    | cons c cs => rfl
  unfold numeralSplit
  rw [hany]
  dsimp only
  split
  · next hletter =>
    have hlt : n + 1 ≤ t.length := by
      by_contra hlt
      rw [List.drop_eq_nil_of_le (by omega)] at hletter
      cases hletter
    rw [List.take_append_of_le_length hlt, List.drop_append_of_le_length hlt]
  · rw [List.take_append_of_le_length hn, hdrop]

theorem readNumeral_append {numeral rest : Text} (h : IsNumeral numeral)
    (hrest : ∀ c ∈ rest.head?, endsNumeral c = true) :
    readNumeral (numeral ++ rest) = (numeral, rest) := by
  have hname : ∀ c ∈ rest.head?, isNameStart c = false := by
    intro c hc
    have hend := hrest c hc
    simp only [endsNumeral, Bool.and_eq_true, Bool.not_eq_true', isNameChar,
      Bool.or_eq_false_iff] at hend
    simp [isNameStart, hend]
  have hsplit : numeralSplit (numeral ++ rest) numeral.length = (numeral, rest) := by
    rw [numeralSplit_append (Nat.le_refl _) hname, numeralSplit, List.drop_length]
    dsimp only
    rw [if_neg (by decide), List.take_length, List.drop_length, List.nil_append]
  cases h with
  | decimal hne hdigits =>
    have hlength : numeralLength 'e' (numeral ++ rest) = numeral.length := by
      refine numeralLength_append (by decide) ?_ hrest
      intro c hc
      refine ⟨isHexDigit_of_isAsciiDigit (hdigits c hc), ?_⟩
      intro hlower
      have hletter := isAsciiLetter_of_toLower (by rw [hlower]; decide : isAsciiLetter c.toLower = true)
      rw [not_isAsciiLetter_of_isAsciiDigit (hdigits c hc)] at hletter
      cases hletter
    -- no `x` stands behind the first digit, so the numeral is not taken for a hexadecimal one
    have hx : ∀ x t, x = 'x' ∨ x = 'X' → numeral ++ rest ≠ '0' :: x :: t := by
      rintro x t hx heq
      have hletter : isAsciiLetter x = true := by rcases hx with rfl | rfl <;> decide
      cases numeral with
      | nil => exact hne rfl
      | cons c cs =>
        rw [List.cons_append] at heq
        have htail := (List.cons.inj heq).2
        cases cs with
        | nil =>
          rw [List.nil_append] at htail
          have hend := hrest x (by rw [htail]; rfl)
          simp [endsNumeral, isNameChar, hletter] at hend
        | cons d ds =>
          obtain ⟨rfl, _⟩ := List.cons.inj htail
          rw [not_isAsciiLetter_of_isAsciiDigit (hdigits d (by simp))] at hletter
          cases hletter
    rw [readNumeral_decimal hx, hlength, hsplit]
  | @hexadecimal x digits hx hdigits =>
    have hlength : 2 + numeralLength 'p' (digits ++ rest) = ('0' :: x :: digits).length := by
      rw [numeralLength_append (by decide) (fun c hc => ⟨hdigits c hc,
        toLower_ne_p_of_isHexDigit (hdigits c hc)⟩) hrest]
      simp only [List.length_cons]
      omega
    rw [List.cons_append, List.cons_append, readNumeral_hexadecimal hx, hlength]
    exact hsplit

def numberLexeme (line : Nat) (numeral : Text) (n : Number) : Lexeme :=
  ⟨.number n, line, quoted numeral⟩

namespace Scans

/-- A numeral begins with a digit. -/
theorem numeral_eq_cons {numeral : Text} (h : IsNumeral numeral) :
    ∃ c cs, numeral = c :: cs ∧ isAsciiDigit c = true := by
  cases h with
  | decimal hne hdigits =>
    obtain ⟨c, cs, rfl⟩ := List.exists_cons_of_ne_nil hne
    exact ⟨c, cs, rfl, hdigits c List.mem_cons_self⟩
  | hexadecimal hx hdigits => exact ⟨'0', _, rfl, by decide⟩

theorem number {numeral rest : Text} {n : Number} (line : Nat) (h : IsNumeral numeral)
    (hrest : ∀ c ∈ rest.head?, endsNumeral c = true)
    (hread : Number.readUnsigned? numeral = some n) :
    Scans line (numeral ++ rest) [numberLexeme line numeral n] line rest := by
  have hnumeral := readNumeral_append h hrest
  obtain ⟨c, cs, rfl, hdigit⟩ := numeral_eq_cons h
  have hgap : isGap c = false := by
    rw [← Bool.not_eq_true]
    intro hgap
    simp only [isGap, List.contains_iff_mem, List.mem_cons, List.not_mem_nil, or_false] at hgap
    rcases hgap with rfl | rfl | rfl | rfl | rfl | rfl
    all_goals exact absurd hdigit (by decide)
  have hminus : c ≠ '-' := by
    rintro rfl
    exact absurd hdigit (by decide)
  have hstart : ¬ isNameStart c = true := by
    rw [isNameStart, not_isAsciiLetter_of_isAsciiDigit hdigit, Bool.false_or, beq_iff_eq]
    rintro rfl
    exact absurd hdigit (by decide)
  rw [List.cons_append] at hnumeral ⊢
  refine of_readToken hgap (afterComment?_of_ne hminus _) ?_ rfl nofun nofun (by simp)
  unfold readToken
  dsimp only
  rw [if_neg hstart, if_pos (by simp [hdigit]), hnumeral]
  dsimp only
  rw [hread]
  rfl

/-- A sign before a numeral. -/
theorem minus (line : Nat) {c : Char} (h : c ≠ '-') (rest : Text) :
    Scans line ('-' :: c :: rest) [symbolLexeme line ['-']] line (c :: rest) := by
  have hcomment : afterComment? line ('-' :: c :: rest) = none := by
    unfold afterComment?
    split
    · next heq => exact absurd (List.cons.inj (List.cons.inj heq).2).1 h
    · rfl
  exact of_readToken rfl hcomment rfl rfl nofun nofun (by simp)

end Scans

/-! ### Strings -/

def stringLexeme (line : Nat) (content : Text) : Lexeme :=
  ⟨.string content.bytes, line, quoteShown content⟩

/-- The empty string between double quotes. -/
def emptyLexeme (line : Nat) : Lexeme :=
  ⟨.string [], line, shownBytes (Char.bytes '"' ++ Char.bytes '"')⟩

/-- A literal begins with a quote or a bracket. -/
theorem quote_eq_cons (content : Text) :
    ∃ c cs, quote content = c :: cs ∧ Scans.isGap c = false ∧ c ≠ '-' := by
  unfold quote
  split
  · exact ⟨'"', _, rfl, rfl, by decide⟩
  · split
    · exact ⟨'\'', _, rfl, rfl, by decide⟩
    · split
      · exact ⟨'"', _, rfl, rfl, by decide⟩
      · exact ⟨'[', _, rfl, rfl, by decide⟩

namespace Scans

theorem quote (line : Nat) (content rest : Text) :
    Scans line (Lua.quote content ++ rest) [stringLexeme line content] line rest := by
  have hread := readToken_quote line content rest
  obtain ⟨c, cs, hquote, hgap, hcomment⟩ := quote_eq_cons content
  rw [hquote] at hread ⊢
  exact of_readToken hgap (afterComment?_of_ne hcomment _) hread rfl nofun nofun
    (by simp)

theorem emptyString (line : Nat) (rest : Text) :
    Scans line ('"' :: '"' :: rest) [emptyLexeme line] line rest := by
  have hread : readShort '"' (('"' :: rest).length + 1) [] line ('"' :: rest) =
      .ok ⟨[], rest, line⟩ := readShort_close rest
  exact of_readToken rfl rfl (readToken_short (.inl rfl) hread) rfl nofun nofun (by simp)

end Scans

/-- **A literal denotes the text it was made from**: it is one string token, all of it and nothing
of what follows, and it takes one line. The bytes of the token spell this text and no other; a long
bracket is of the lowest level that the content does not close. -/
theorem quote_denotes (content : Text) :
    (tokens (Lua.quote content)).map (·.token) = [.string content.bytes, .finish] ∧
      (∀ line rest, readToken line (Lua.quote content ++ rest) =
        (⟨.string content.bytes, line, quoteShown content⟩, rest)) ∧
      (∀ other : Text, other.bytes = content.bytes → other = content) ∧
      IsLeast {level | content.LeadsTo (longClosing level)} (longLevel content) ∧
      '\n' ∉ Lua.quote content ∧ '\r' ∉ Lua.quote content := by
  refine ⟨?_, fun line rest => readToken_quote line content rest, fun other => Text.bytes_injective,
    isLeast_longLevel content, lineBreak_not_mem_quote (.inl rfl) content,
    lineBreak_not_mem_quote (.inr rfl) content⟩
  have hscans := Scans.quote 1 content []
  rw [List.append_nil] at hscans
  rw [hscans.tokens_eq]
  rfl

end Stencil.Lua
