import Mathlib.Data.List.DropRight
import Stencil.Proofs.Lua.Reading

/-! The tokens of a script without their lines.

What stands at the front of a script, a comment or a token, depends on the text alone, and not on
the line that reading has come to (`front_eq`). So the tokens of a text are that of its front and
then those of what stands behind it (`tokenSequence_eq`), and where some tokens have been read the
others are those of the rest (`Scans.tokenSequence_eq`). -/
namespace Stencil.Lua

/-- The token, without the words of the complaint if it is bad. -/
def Token.unworded : Token → Token
  | .bad _ => .bad []
  | token => token

/-- The tokens of a script, comments being none, without the lines that they are on. -/
def tokenSequence (script : Text) : List Token := (tokens script).map (·.token.unworded)

/-! ### The front of a text -/

/-- What stands at the front of a text that starts with no blank: a comment, a token that others
follow, or the last token, which is the end or bad. -/
inductive Front
  | comment (rest : Text)
  | lead (token : Token) (rest : Text)
  | last (token : Token)
deriving Repr, DecidableEq

def Front.ofLexeme : Lexeme × Text → Front
  | (lexeme, rest) =>
    match lexeme.token with
    | .finish => .last .finish
    | .bad _ => .last (.bad [])
    | token => .lead token rest

def front (t : Text) : Front :=
  match afterComment? 1 t with
  | some (.ok (_, rest)) => .comment rest
  | some (.error _) => .last (.bad [])
  | none => .ofLexeme (readToken 1 t)

/-- The tokens of a text with this front, if the rest is read in this way. -/
def Front.followed (read : Text → List Token) : Front → List Token
  | comment rest => read rest
  | lead token rest => token :: read rest
  | last token => [token]

theorem Front.followed_congr {s : Front} {read read' : Text → List Token}
    (h : ∀ rest, (s = comment rest ∨ ∃ token, s = lead token rest) → read rest = read' rest) :
    s.followed read = s.followed read' := by
  cases s with
  | comment rest => exact h rest (.inl rfl)
  | lead token rest => exact congrArg (token :: ·) (h rest (.inr ⟨token, rfl⟩))
  | last token => rfl

/-! ### Lines -/

/-- What has been read of a string, without the lines. -/
def Read.bare? {α : Type} : Except (Text × Nat) (Read α) → Option (α × Text)
  | .ok r => some (r.value, r.rest)
  | .error _ => none

theorem readShort_bare? (quote : Char) (fuel : Nat) (done : Bytes) (line line' : Nat) (t : Text) :
    Read.bare? (readShort quote fuel done line t) =
      Read.bare? (readShort quote fuel done line' t) := by
  induction fuel generalizing done line line' t with
  | zero => rfl
  | succ fuel ih =>
    cases t with
    | nil => rfl
    | cons c rest =>
      unfold readShort
      dsimp only
      split
      · rfl
      split
      · rfl
      split
      · cases rest with
        | nil => rfl
        | cons d rest =>
          dsimp only
          cases readEscape (d :: rest) with
          | error e => rfl
          | ok r => exact ih _ _ _ _
      · exact ih _ _ _ _

theorem ofLexeme_readToken (line line' : Nat) (t : Text) :
    Front.ofLexeme (readToken line t) = Front.ofLexeme (readToken line' t) := by
  unfold readToken
  dsimp only
  split
  · rfl
  · next c rest =>
    split
    · split <;> rfl
    split
    · split <;> rfl
    split
    · have hbare := readShort_bare? c (c :: rest).length [] line line' rest
      cases hread : readShort c (c :: rest).length [] line rest with
      | ok r =>
        cases hread' : readShort c (c :: rest).length [] line' rest with
        | ok r' =>
          rw [hread, hread'] at hbare
          obtain ⟨hvalue, hrest⟩ := Prod.mk.inj (Option.some.inj hbare)
          dsimp only
          rw [Front.ofLexeme, Front.ofLexeme, hvalue, hrest]
        | error stop => rw [hread, hread'] at hbare; cases hbare
      | error stop =>
        cases hread' : readShort c (c :: rest).length [] line' rest with
        | ok r' => rw [hread, hread'] at hbare; cases hbare
        | error stop' => rfl
    split
    · split <;> rfl
    split
    · rfl
    split <;> rfl

/-- A comment ends at the same place on every line, if it ends. -/
theorem afterComment?_cases (t : Text) :
    (∀ line, afterComment? line t = none) ∨
    (∃ found, ∀ line, afterComment? line t = some (.ok found)) ∨
    (∀ line, ∃ stop, afterComment? line t = some (.error stop)) := by
  by_cases h : ∃ rest, t = '-' :: '-' :: rest
  · obtain ⟨rest, rfl⟩ := h
    refine .inr ?_
    cases hopen : longOpening? rest with
    | none => exact .inl ⟨_, fun line => by rw [afterComment?, hopen]⟩
    | some found =>
      obtain ⟨level, inside⟩ := found
      cases hlong : readLong? level inside with
      | none => exact .inr fun line => ⟨_, by rw [afterComment?, hopen]; dsimp only; rw [hlong]⟩
      | some r => exact .inl ⟨_, fun line => by rw [afterComment?, hopen]; dsimp only; rw [hlong]⟩
  · refine .inl fun line => ?_
    unfold afterComment?
    split
    · next rest => exact absurd ⟨rest, rfl⟩ h
    · rfl

/-- The front of a text is the same on every line. -/
theorem front_eq (line : Nat) (t : Text) : front t =
    match afterComment? line t with
    | some (.ok (_, rest)) => .comment rest
    | some (.error _) => .last (.bad [])
    | none => .ofLexeme (readToken line t) := by
  unfold front
  rcases afterComment?_cases t with h | ⟨found, h⟩ | h
  · rw [h, h, ofLexeme_readToken 1 line]
  · rw [h, h]
  · obtain ⟨stop, hstop⟩ := h 1
    obtain ⟨stop', hstop'⟩ := h line
    rw [hstop, hstop']

/-- The rest is less than the text. -/
theorem front_suffix {c : Char} {cs rest : Text}
    (h : front (c :: cs) = .comment rest ∨ ∃ token, front (c :: cs) = .lead token rest) :
    rest <:+ cs := by
  unfold front at h
  split at h
  · next found hcomment =>
    rcases h with h | ⟨token, h⟩
    · cases h
      exact afterComment?_suffix hcomment
    · cases h
  · rcases h with h | ⟨token, h⟩ <;> cases h
  · have hrest := readToken_suffix 1 c cs
    generalize readToken 1 (c :: cs) = read at h hrest
    obtain ⟨lexeme, after⟩ := read
    dsimp only [Front.ofLexeme] at h
    rcases h with h | ⟨token, h⟩
    · split at h <;> cases h
    · split at h <;> cases h
      exact hrest

/-! ### Runs -/

theorem dropWhile_of_afterLineEnd? {t rest : Text} (h : afterLineEnd? t = some rest) :
    t.dropWhile Scans.isGap = rest.dropWhile Scans.isGap := by
  unfold afterLineEnd? at h
  split at h <;> cases h <;> rfl

theorem afterLineEnd?_eq_none_of_isGap {c : Char} {cs : Text} (h : afterLineEnd? (c :: cs) = none)
    (hgap : Scans.isGap c = true) : c = ' ' ∨ c = '\t' ∨ c = '\x0B' ∨ c = '\x0C' := by
  simp only [Scans.isGap, List.contains_iff_mem, List.mem_cons, List.not_mem_nil, or_false] at hgap
  rcases hgap with rfl | rfl | rfl | rfl | rfl | rfl
  · exact .inl rfl
  · exact .inr (.inl rfl)
  · exact .inr (.inr (.inl rfl))
  · exact .inr (.inr (.inr rfl))
  all_goals
    unfold afterLineEnd? at h
    split at h
    case h_5 => simp_all
    all_goals cases h

/-- All the blanks in front of a text are passed. -/
theorem skipBlanks_snd {fuel : Nat} {t : Text} (h : t.length ≤ fuel) :
    (skipBlanks fuel t).2 = t.dropWhile Scans.isGap := by
  induction fuel generalizing t with
  | zero =>
    rw [List.eq_nil_of_length_eq_zero (Nat.le_zero.1 h)]
    rfl
  | succ fuel ih =>
    cases t with
    | nil => rfl
    | cons c cs =>
      rw [List.length_cons] at h
      by_cases hgap : Scans.isGap c = true
      · unfold skipBlanks
        cases hend : afterLineEnd? (c :: cs) with
        | some rest =>
          have hrest := (afterLineEnd?_suffix hend).length_le
          rw [List.tail_cons] at hrest
          rw [dropWhile_of_afterLineEnd? hend]
          exact ih (by omega)
        | none =>
          dsimp only
          rw [if_pos (afterLineEnd?_eq_none_of_isGap hend hgap), List.dropWhile_cons_of_pos hgap]
          exact ih (by omega)
      · rw [Scans.skipBlanks_of_not_isGap (Bool.eq_false_of_not_eq_true hgap),
          List.dropWhile_cons_of_neg hgap]

/-- One round of a run: the rest is read from some line on. -/
theorem tokensFrom_succ (fuel line : Nat) (t : Text) :
    ∃ line', (tokensFrom (fuel + 1) line t).map (·.token.unworded) =
      (front (t.dropWhile Scans.isGap)).followed fun rest =>
        (tokensFrom fuel line' rest).map (·.token.unworded) := by
  have hskip := skipBlanks_snd (Nat.le_refl t.length)
  rw [tokensFrom]
  generalize skipBlanks t.length t = blanks at hskip
  obtain ⟨lines, body⟩ := blanks
  obtain rfl := hskip
  dsimp only
  rw [front_eq (line + lines)]
  cases hcomment : afterComment? (line + lines) (t.dropWhile Scans.isGap) with
  | some found =>
    cases found with
    | ok found => exact ⟨line + lines + found.1, rfl⟩
    | error stop => exact ⟨0, rfl⟩
  | none =>
    dsimp only
    generalize readToken (line + lines) (t.dropWhile Scans.isGap) = read
    obtain ⟨⟨token, line', shown⟩, rest⟩ := read
    refine ⟨line', ?_⟩
    cases token <;> rfl

/-- Neither the line nor the fuel, if it is enough, has a say in what the tokens are. -/
theorem tokensFrom_unworded {fuel fuel' : Nat} (line line' : Nat) {t : Text} (h : t.length < fuel)
    (h' : t.length < fuel') :
    (tokensFrom fuel line t).map (·.token.unworded) =
      (tokensFrom fuel' line' t).map (·.token.unworded) := by
  induction fuel generalizing fuel' line line' t with
  | zero => omega
  | succ fuel ih =>
    obtain ⟨fuel', rfl⟩ : ∃ n, fuel' = n + 1 := ⟨fuel' - 1, by omega⟩
    obtain ⟨next, hnext⟩ := tokensFrom_succ fuel line t
    obtain ⟨next', hnext'⟩ := tokensFrom_succ fuel' line' t
    rw [hnext, hnext']
    have hbody := (List.dropWhile_suffix Scans.isGap : t.dropWhile Scans.isGap <:+ t).length_le
    cases hstart : t.dropWhile Scans.isGap with
    | nil => rfl
    | cons c cs =>
      rw [hstart, List.length_cons] at hbody
      refine Front.followed_congr fun rest hrest => ?_
      have := (front_suffix hrest).length_le
      exact ih next next' (by omega) (by omega)

theorem tokenSequence_eq_of_lt {fuel : Nat} (line : Nat) {t : Text} (h : t.length < fuel) :
    (tokensFrom fuel line t).map (·.token.unworded) = tokenSequence t :=
  tokensFrom_unworded line 1 h (Nat.lt_succ_self _)

/-- **The tokens of a text are that of its front and then those of the rest.** -/
theorem tokenSequence_eq (t : Text) :
    tokenSequence t = (front (t.dropWhile Scans.isGap)).followed tokenSequence := by
  obtain ⟨line, hline⟩ := tokensFrom_succ t.length 1 t
  refine hline.trans ?_
  have hbody := (List.dropWhile_suffix Scans.isGap : t.dropWhile Scans.isGap <:+ t).length_le
  cases hstart : t.dropWhile Scans.isGap with
  | nil => rfl
  | cons c cs =>
    rw [hstart, List.length_cons] at hbody
    refine Front.followed_congr fun rest hrest => ?_
    have := (front_suffix hrest).length_le
    exact tokenSequence_eq_of_lt line (by omega)

/-- Blanks in front of a text are no tokens. -/
theorem tokenSequence_dropWhile (t : Text) :
    tokenSequence (t.dropWhile Scans.isGap) = tokenSequence t := by
  rw [tokenSequence_eq, tokenSequence_eq t, List.dropWhile_idempotent]

/-- The tokens that have been read come before those of the rest. -/
theorem Scans.tokenSequence_eq {line behind : Nat} {t rest : Text} {lexemes : List Lexeme}
    (h : Scans line t lexemes behind rest) :
    tokenSequence t = lexemes.map (·.token.unworded) ++ tokenSequence rest := by
  obtain ⟨fuel, hfuel, heq⟩ := h (t.length + 1) (Nat.lt_succ_self _)
  rw [← tokenSequence_eq_of_lt line (Nat.lt_succ_self _), heq, List.map_append,
    tokenSequence_eq_of_lt behind hfuel]

end Stencil.Lua
