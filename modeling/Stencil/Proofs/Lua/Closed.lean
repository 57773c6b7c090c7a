import Stencil.Proofs.Lua.Segments
import Stencil.Proofs.Lua.Sequence

/-! Strings and comments that are closed.

What is closed is read up to its closing, and not a character further: neither the value of a string
nor a complaint about it depends on what follows (`IsShort.readsWithin`,
`readLong?_of_leadsTo`). -/
namespace Stencil.Lua

variable {quote : Char} {t : Text}

/-! ### Escapes -/

theorem IsShort.tail {c : Char} (h : IsShort quote (c :: t)) (hc : c ≠ '\\') : IsShort quote t := by
  cases h with
  | escape => exact absurd rfl hc
  | char _ _ h => exact h

theorem IsShort.of_append {front : Text} (h : IsShort quote (front ++ t))
    (hfront : ∀ c ∈ front, c ≠ '\\') : IsShort quote t := by
  induction front with
  | nil => exact h
  | cons c cs ih =>
    exact ih (h.tail (hfront c List.mem_cons_self)) fun d hd => hfront d (List.mem_cons_of_mem _ hd)

theorem IsShort.dropWhile (h : IsShort quote t) {p : Char → Bool} (hp : p '\\' = false) :
    IsShort quote (t.dropWhile p) := by
  rw [← List.takeWhile_append_dropWhile (p := p) (l := t)] at h
  refine h.of_append fun c hc => ?_
  rintro rfl
  have := List.all_eq_true.1 List.all_takeWhile _ hc
  rw [hp] at this
  cases this

/-- An escape stays within the string: it ends in front of the closing quote, or is bad whatever
follows the string. -/
def EscapesWithin (quote c : Char) (t : Text) : Prop :=
  (∃ value rest, IsShort quote rest ∧ rest.length ≤ t.length ∧ ∀ tail, ∃ lines,
    readEscape (c :: (t ++ quote :: tail)) = .ok ⟨value, rest ++ quote :: tail, lines⟩) ∨
  ∀ tail, ∃ stop, readEscape (c :: (t ++ quote :: tail)) = .error stop

theorem IsQuote.hexValue? (h : IsQuote quote) : Number.hexValue? quote = none := by
  rcases h with rfl | rfl
  all_goals rfl

theorem escapesWithin_x (hquote : IsQuote quote) (h : IsShort quote t) :
    EscapesWithin quote 'x' t := by
  have hhex : ∀ {c high}, Number.hexValue? c = some high → c ≠ '\\' := by
    rintro c high hc rfl
    cases hc
  cases t with
  | nil =>
    refine .inr fun tail => ?_
    rcases hquote with rfl | rfl
    all_goals exact ⟨_, rfl⟩
  | cons a t =>
    cases ha : Number.hexValue? a with
    | none =>
      exact .inr fun tail => ⟨_, by simp only [List.cons_append, readEscape, ha]; rfl⟩
    | some high =>
      cases t with
      | nil =>
        exact .inr fun tail =>
          ⟨_, by
            simp only [List.cons_append, List.nil_append, readEscape, ha, hquote.hexValue?]
            rfl⟩
      | cons b t =>
        cases hb : Number.hexValue? b with
        | none =>
          exact .inr fun tail => ⟨_, by simp only [List.cons_append, readEscape, ha, hb]; rfl⟩
        | some low =>
          refine .inl ⟨[UInt8.ofNat (16 * high + low)], t, (h.tail (hhex ha)).tail (hhex hb),
            ?_, fun tail => ⟨0, ?_⟩⟩
          · simp only [List.length_cons]
            omega
          · simp only [List.cons_append, readEscape, ha, hb]

/-- The quote is none of the characters of a class, so that the class takes nothing of it. -/
theorem span_quote {p : Char → Bool} (hp : p quote = false) (t tail : Text) :
    (t ++ quote :: tail).takeWhile p = t.takeWhile p ∧
      (t ++ quote :: tail).dropWhile p = t.dropWhile p ++ quote :: tail :=
  Text.span_append t fun _ hc => Option.some.inj hc ▸ hp

theorem escapesWithin_z (hquote : IsQuote quote) (h : IsShort quote t) :
    EscapesWithin quote 'z' t := by
  have hgap : Scans.isGap quote = false := by rcases hquote with rfl | rfl <;> rfl
  refine .inl ⟨[], t.dropWhile Scans.isGap, h.dropWhile rfl, List.length_dropWhile_le _ _,
    fun tail => ⟨(skipBlanks (t ++ quote :: tail).length (t ++ quote :: tail)).1, ?_⟩⟩
  rw [← (span_quote hgap t tail).2, ← skipBlanks_snd (Nat.le_refl _)]
  rfl

/-- An escape of a code point has a brace. -/
theorem readEscape_u_bad {d : Char} (hd : d ≠ '\x7b') (rest : Text) :
    ∃ stop, readEscape ('u' :: d :: rest) = .error stop := by
  unfold readEscape
  split
  case h_10 heq => exact absurd (List.cons.inj (List.cons.inj heq).2).1 hd
  case h_11 => exact ⟨_, rfl⟩
  case h_12 hnot => exact absurd rfl (hnot _)
  all_goals
    next heq => exact absurd (List.cons.inj heq).1 (by decide)

/-- A brace that is closed behind its digits. -/
theorem readEscape_brace {after : Text} (h : t.dropWhile Number.isHexDigit = '\x7d' :: after) :
    readEscape ('u' :: '\x7b' :: t) =
      let digits := t.takeWhile Number.isHexDigit
      let value := Number.hexDigitsValue digits
      let stop := fun (complaint : Text) => .error (complaint,
        '\\' :: ('u' :: '\x7b' :: digits ++ ['\x7d']))
      if digits = [] then stop "hexadecimal digit expected"
      else if value < 0x110000 then .ok ⟨Char.bytes (Char.ofNat value), after, 0⟩
      else stop "UTF-8 value too large" := by
  simp only [readEscape, h, List.cons_append]
  rfl

/-- A brace that is not. -/
theorem readEscape_brace_bad (h : ∀ rest, t.dropWhile Number.isHexDigit ≠ '\x7d' :: rest) :
    ∃ stop, readEscape ('u' :: '\x7b' :: t) = .error stop := by
  simp only [readEscape]
  split <;> exact ⟨_, rfl⟩

theorem escapesWithin_brace (hquote : IsQuote quote) (h : IsShort quote t) :
    EscapesWithin quote 'u' ('\x7b' :: t) := by
  have hhex : Number.isHexDigit quote = false := by
    rw [Number.isHexDigit, hquote.hexValue?]
    rfl
  have hspan := span_quote hhex t
  by_cases hclose : ∃ after, t.dropWhile Number.isHexDigit = '\x7d' :: after
  · obtain ⟨after, hafter⟩ := hclose
    have hrest : IsShort quote (t.dropWhile Number.isHexDigit) := h.dropWhile rfl
    have hlength := List.length_dropWhile_le Number.isHexDigit t
    rw [hafter] at hrest hlength
    have hclosed : ∀ tail : Text, (t ++ quote :: tail).dropWhile Number.isHexDigit =
        '\x7d' :: (after ++ quote :: tail) := by
      intro tail
      rw [(hspan tail).2, hafter, List.cons_append]
    have hread := fun tail => readEscape_brace (hclosed tail)
    simp only [hspan] at hread
    by_cases hdigits : t.takeWhile Number.isHexDigit = []
    · exact .inr fun tail => ⟨_, (hread tail).trans (if_pos hdigits)⟩
    by_cases hvalue : Number.hexDigitsValue (t.takeWhile Number.isHexDigit) < 0x110000
    · refine .inl ⟨Char.bytes (Char.ofNat _), after, hrest.tail (by decide), ?_, fun tail =>
        ⟨0, (hread tail).trans ((if_neg hdigits).trans (if_pos hvalue))⟩⟩
      simp only [List.length_cons] at *
      omega
    · exact .inr fun tail => ⟨_, (hread tail).trans ((if_neg hdigits).trans (if_neg hvalue))⟩
  · refine .inr fun tail => readEscape_brace_bad fun rest heq => ?_
    replace heq := (hspan tail).2.symm.trans heq
    cases hafter : t.dropWhile Number.isHexDigit with
    | nil =>
      rw [hafter] at heq
      have hbrace : quote ≠ '\x7d' := by rcases hquote with rfl | rfl <;> decide
      exact hbrace (List.cons.inj heq).1
    | cons e after =>
      rw [hafter] at heq
      exact hclose ⟨after, by rw [hafter, (List.cons.inj heq).1]⟩

theorem escapesWithin_u (hquote : IsQuote quote) (h : IsShort quote t) :
    EscapesWithin quote 'u' t := by
  cases t with
  | nil =>
    have hbrace : quote ≠ '\x7b' := by rcases hquote with rfl | rfl <;> decide
    exact .inr fun tail => readEscape_u_bad hbrace _
  | cons d t =>
    by_cases hd : d = '\x7b'
    · subst hd
      exact escapesWithin_brace hquote (h.tail (by decide))
    · exact .inr fun tail => readEscape_u_bad hd _

theorem afterLineEnd?_lineFeed {d : Char} (hd : d ≠ '\r') (t : Text) :
    afterLineEnd? ('\n' :: d :: t) = some (d :: t) := by
  unfold afterLineEnd?
  split
  all_goals simp_all

theorem afterLineEnd?_return {d : Char} (hd : d ≠ '\n') (t : Text) :
    afterLineEnd? ('\r' :: d :: t) = some (d :: t) := by
  simp [afterLineEnd?, hd]

theorem afterLineEnd?_quote (hquote : IsQuote quote) {c : Char} (hc : c = '\n' ∨ c = '\r')
    (h : IsShort quote t) :
    ∃ rest, IsShort quote rest ∧ rest.length ≤ t.length ∧
      ∀ tail, afterLineEnd? (c :: (t ++ quote :: tail)) = some (rest ++ quote :: tail) := by
  cases t with
  | nil =>
    refine ⟨[], h, Nat.le_refl _, fun tail => ?_⟩
    rcases hquote with rfl | rfl <;> rcases hc with rfl | rfl <;> rfl
  | cons d t =>
    rcases hc with rfl | rfl
    · by_cases hd : d = '\r'
      · subst hd
        exact ⟨t, h.tail (by decide), Nat.le_succ _, fun tail => rfl⟩
      · exact ⟨d :: t, h, Nat.le_refl _, fun tail => afterLineEnd?_lineFeed hd _⟩
    · by_cases hd : d = '\n'
      · subst hd
        exact ⟨t, h.tail (by decide), Nat.le_succ _, fun tail => rfl⟩
      · exact ⟨d :: t, h, Nat.le_refl _, fun tail => afterLineEnd?_return hd _⟩

theorem takeWhile_take_quote {p : Char → Bool} (hp : p quote = false) (n : Nat) (t tail : Text) :
    ((t ++ quote :: tail).take n).takeWhile p = (t.take n).takeWhile p := by
  rw [List.take_append]
  refine (Text.span_append _ fun c hc => ?_).1
  have hmem := List.mem_of_mem_head? hc
  cases hn : n - t.length with
  | zero =>
    rw [hn] at hmem
    cases hmem
  | succ m =>
    rw [hn, List.take_succ_cons, List.head?_cons] at hc
    exact Option.some.inj hc ▸ hp

theorem escapesWithin_digits (hquote : IsQuote quote) {c : Char} (hdigit : isAsciiDigit c = true)
    (h : IsShort quote t) : EscapesWithin quote c t := by
  have hnone : isAsciiDigit quote = false := by rcases hquote with rfl | rfl <;> rfl
  have htake : ∀ tail : Text, ((c :: (t ++ quote :: tail)).take 3).takeWhile isAsciiDigit =
      ((c :: t).take 3).takeWhile isAsciiDigit := takeWhile_take_quote hnone 3 (c :: t)
  obtain ⟨rest, hrest⟩ := (List.takeWhile_prefix isAsciiDigit).trans (List.take_prefix 3 (c :: t))
  have hfirst : 1 ≤ (((c :: t).take 3).takeWhile isAsciiDigit).length := by
    rw [List.take_succ_cons, List.takeWhile_cons_of_pos hdigit, List.length_cons]
    omega
  have hall : ∀ d ∈ ((c :: t).take 3).takeWhile isAsciiDigit, isAsciiDigit d = true :=
    List.all_eq_true.1 List.all_takeWhile
  unfold EscapesWithin
  simp only [readEscape_digit hdigit, htake]
  generalize ((c :: t).take 3).takeWhile isAsciiDigit = digits at hrest hfirst hall
  have hdrop : ∀ tail : Text, (c :: (t ++ quote :: tail)).drop digits.length =
      rest ++ quote :: tail := by
    intro tail
    rw [← List.cons_append, ← hrest, List.append_assoc, List.drop_left]
  simp only [hdrop]
  by_cases hvalue : Text.digitsValue digits < 256
  · have hescape : c ≠ '\\' := by
      rintro rfl
      cases hdigit
    have hclose : c ≠ quote := by
      rintro rfl
      rw [hnone] at hdigit
      cases hdigit
    have hwhole : IsShort quote (digits ++ rest) := hrest ▸ .char hescape hclose h
    have hlength := congrArg List.length hrest
    rw [List.length_append, List.length_cons] at hlength
    simp only [if_pos hvalue]
    refine .inl ⟨[UInt8.ofNat (Text.digitsValue digits)], rest, hwhole.of_append fun d hd => ?_,
      by omega, fun tail => ⟨0, rfl⟩⟩
    rintro rfl
    cases hall _ hd
  · simp only [if_neg hvalue]
    exact .inr fun tail => ⟨_, rfl⟩

theorem escapesWithin_other (hquote : IsQuote quote) {c : Char}
    (hc : c ∉ escapeLetters) (h : IsShort quote t) :
    EscapesWithin quote c t := by
  by_cases hdigit : isAsciiDigit c = true
  · exact escapesWithin_digits hquote hdigit h
  unfold EscapesWithin
  simp only [readEscape_other hc]
  by_cases hline : c = '\n' ∨ c = '\r'
  · obtain ⟨rest, hrest, hlength, hafter⟩ := afterLineEnd?_quote hquote hline h
    exact .inl ⟨[10], rest, hrest, hlength, fun tail => ⟨1, by rw [hafter]⟩⟩
  have hafter := fun tail : Text => afterLineEnd?_cons (not_or.1 hline) (t ++ quote :: tail)
  simp only [hafter]
  by_cases hself : c = '\\' ∨ c = '"' ∨ c = '\''
  · simp only [if_pos hself]
    exact .inl ⟨Char.bytes c, t, h, Nat.le_refl _, fun tail => ⟨0, rfl⟩⟩
  · simp only [if_neg hself, if_neg hdigit]
    exact .inr fun tail => ⟨_, rfl⟩

/-- **An escape in a string stays within it.** -/
theorem escapesWithin (hquote : IsQuote quote) (c : Char) (h : IsShort quote t) :
    EscapesWithin quote c t := by
  by_cases hone : c ∈ ['a', 'b', 'f', 'n', 'r', 't', 'v']
  · simp only [List.mem_cons, List.not_mem_nil, or_false] at hone
    rcases hone with rfl | rfl | rfl | rfl | rfl | rfl | rfl
    all_goals exact .inl ⟨_, t, h, Nat.le_refl _, fun tail => ⟨0, rfl⟩⟩
  by_cases hx : c = 'x'
  · exact hx ▸ escapesWithin_x hquote h
  by_cases hz : c = 'z'
  · exact hz ▸ escapesWithin_z hquote h
  by_cases hu : c = 'u'
  · exact hu ▸ escapesWithin_u hquote h
  · refine escapesWithin_other hquote (fun hmem => ?_) h
    simp only [escapeLetters, List.mem_cons, List.not_mem_nil, or_false] at hmem hone
    tauto

/-! ### Short strings -/

theorem readShort_bad_escape {fuel lines : Nat} {done : Bytes} (hquote : '\\' ≠ quote) {c : Char}
    {stop : Text × Text} (h : readEscape (c :: t) = .error stop) :
    ∃ stop, readShort quote (fuel + 1) done lines ('\\' :: c :: t) = .error stop := by
  unfold readShort
  dsimp only
  rw [if_neg hquote, if_neg (by decide), if_pos rfl, h]
  exact ⟨_, rfl⟩

/-- A short string is read up to its closing quote, or is bad, whatever follows it. -/
def ReadsWithin (quote : Char) (done : Bytes) (t : Text) : Prop :=
  (∃ value, ∀ fuel lines tail, t.length < fuel →
    ∃ lines', readShort quote fuel done lines (t ++ quote :: tail) = .ok ⟨value, tail, lines'⟩) ∨
  ∀ fuel lines tail, t.length < fuel →
    ∃ stop, readShort quote fuel done lines (t ++ quote :: tail) = .error stop

theorem ReadsWithin.of_step {done done' : Bytes} {rest : Text} (h : ReadsWithin quote done' rest)
    (hlength : rest.length < t.length)
    (hstep : ∀ fuel lines tail, ∃ lines',
      readShort quote (fuel + 1) done lines (t ++ quote :: tail) =
        readShort quote fuel done' lines' (rest ++ quote :: tail)) :
    ReadsWithin quote done t := by
  have hread : ∀ fuel lines tail, t.length < fuel → ∃ fuel' lines', rest.length < fuel' ∧
      readShort quote fuel done lines (t ++ quote :: tail) =
        readShort quote fuel' done' lines' (rest ++ quote :: tail) := by
    intro fuel lines tail hfuel
    obtain ⟨fuel, rfl⟩ : ∃ n, fuel = n + 1 := ⟨fuel - 1, by omega⟩
    obtain ⟨lines', hstep⟩ := hstep fuel lines tail
    exact ⟨fuel, lines', by omega, hstep⟩
  rcases h with ⟨value, hvalue⟩ | hbad
  · refine .inl ⟨value, fun fuel lines tail hfuel => ?_⟩
    obtain ⟨fuel', lines', hfuel', heq⟩ := hread fuel lines tail hfuel
    rw [heq]
    exact hvalue fuel' lines' tail hfuel'
  · refine .inr fun fuel lines tail hfuel => ?_
    obtain ⟨fuel', lines', hfuel', heq⟩ := hread fuel lines tail hfuel
    rw [heq]
    exact hbad fuel' lines' tail hfuel'

theorem ReadsWithin.bad {done : Bytes} (h : ∀ fuel lines tail,
    ∃ stop, readShort quote (fuel + 1) done lines (t ++ quote :: tail) = .error stop) :
    ReadsWithin quote done t := by
  refine .inr fun fuel lines tail hfuel => ?_
  obtain ⟨fuel, rfl⟩ : ∃ n, fuel = n + 1 := ⟨fuel - 1, by omega⟩
  exact h fuel lines tail

/-- **A short string is read up to its closing quote**, or is bad whatever follows it. -/
theorem IsShort.readsWithin (hquote : IsQuote quote) (h : IsShort quote t) (done : Bytes) :
    ReadsWithin quote done t := by
  have hslash := hquote.ne_escape.symm
  generalize hn : t.length = n
  -- an escape takes several characters, so the induction is on the length
  induction n using Nat.strongRecOn generalizing t done with
  | ind n ih =>
    subst hn
    cases h with
    | nil =>
      refine .inl ⟨done.reverse, fun fuel lines tail hfuel => ⟨lines, ?_⟩⟩
      obtain ⟨fuel, rfl⟩ : ∃ n, fuel = n + 1 := ⟨fuel - 1, by omega⟩
      exact readShort_close tail
    | @escape c t ht =>
      rcases escapesWithin hquote c ht with ⟨bytes, rest, hrest, hlength, hread⟩ | hbad
      · have hlt : rest.length < ('\\' :: c :: t).length := by
          simp only [List.length_cons]
          omega
        refine (ih _ hlt hrest (bytes.reverse ++ done) rfl).of_step hlt fun fuel lines tail => ?_
        obtain ⟨more, hmore⟩ := hread tail
        exact ⟨lines + more, readShort_escape hslash hmore⟩
      · refine .bad fun fuel lines tail => ?_
        obtain ⟨stop, hstop⟩ := hbad tail
        exact readShort_bad_escape hslash hstop
    | @char c t hescape hne ht =>
      by_cases hline : c = '\n' ∨ c = '\r'
      · refine .bad fun fuel lines tail => ?_
        unfold readShort
        dsimp only [List.cons_append]
        rw [if_neg hne, if_pos hline]
        exact ⟨_, rfl⟩
      · obtain ⟨hfeed, hreturn⟩ := not_or.1 hline
        have hlt := Nat.lt_succ_self t.length
        exact (ih _ hlt ht ((Char.bytes c).reverse ++ done) rfl).of_step hlt fun fuel lines tail =>
          ⟨lines, readShort_plain hne hfeed hreturn hescape _⟩

/-! ### Long brackets -/

theorem readLong?_of_leadsTo {level : Nat} (h : t.LeadsTo (longClosing level)) :
    ∃ value lines, ∀ tail, readLong? level (t ++ (longClosing level ++ tail)) =
      some ⟨value, tail, lines⟩ := by
  refine ⟨(afterLineEnd? (joinLines t.length t).1).getD (joinLines t.length t).1,
    (joinLines t.length t).2, fun tail => ?_⟩
  rw [readLong?, Text.cut?_of_leadsTo (longClosing_ne_nil level) h]
  rfl

end Stencil.Lua
