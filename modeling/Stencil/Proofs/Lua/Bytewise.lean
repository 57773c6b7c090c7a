import Stencil.Proofs.Lua.Pairing

/-! The scanner, byte by byte.

A line of code can be read by its bytes with no regard to where its characters begin: what tells
strings and comments is ASCII, and no byte of any other character is (`byteOf_not_mem_bytes`). An
escape takes one byte with it, which may be the first of several, and those after it are passed
over. So the positions of the bytes that are outside strings and comments are those of the
characters that are (`positions_bytes`), and every round of the scan moves on
(`length_lt_of_afterHidden?`). -/
namespace Stencil.Lua.Bytewise

/-! ### The bytes of a character -/

/-- The byte of an ASCII character. -/
def byteOf (c : Char) : UInt8 := UInt8.ofNat c.toNat

theorem bytes_ascii {c : Char} (h : c.toNat < 128) : Char.bytes c = [byteOf c] := bytes_of_lt h

theorem toNat_byteOf {c : Char} (h : c.toNat < 128) : (byteOf c).toNat = c.toNat :=
  Bytes.toNat_ofNat_of_lt (by omega)

theorem le_of_mem_bytes {c : Char} (h : 128 ≤ c.toNat) : ∀ b ∈ Char.bytes c, 128 ≤ b.toNat := by
  have hvalid : c.toNat < 0x110000 := by
    have : c.toNat < 0xD800 ∨ 0xDFFF < c.toNat ∧ c.toNat < 0x110000 := c.valid
    omega
  unfold Char.bytes
  generalize c.toNat = n at *
  dsimp only
  rw [if_neg (by omega)]
  have hbyte : ∀ {m : Nat}, 128 ≤ m → m < 256 → 128 ≤ (UInt8.ofNat m).toNat := by
    intro m hlow hhigh
    rwa [Bytes.toNat_ofNat_of_lt hhigh]
  -- One byte starts the character, and one to three follow it.
  split
  · simp only [List.forall_mem_cons]
    exact ⟨hbyte (by omega) (by omega), hbyte (by omega) (by omega), nofun⟩
  · split
    · simp only [List.forall_mem_cons]
      exact ⟨hbyte (by omega) (by omega), hbyte (by omega) (by omega),
        hbyte (by omega) (by omega), nofun⟩
    · simp only [List.forall_mem_cons]
      exact ⟨hbyte (by omega) (by omega), hbyte (by omega) (by omega),
        hbyte (by omega) (by omega), hbyte (by omega) (by omega), nofun⟩

/-- The byte of an ASCII character stands in no other character. -/
theorem byteOf_not_mem_bytes {c d : Char} (hd : d.toNat < 128) (hne : c ≠ d) :
    byteOf d ∉ Char.bytes c := by
  intro hmem
  by_cases hc : c.toNat < 128
  · rw [bytes_ascii hc, List.mem_singleton] at hmem
    have heq := congrArg UInt8.toNat hmem
    rw [toNat_byteOf hd, toNat_byteOf hc] at heq
    exact hne (Char.toNat_inj.1 heq.symm)
  · have := le_of_mem_bytes (Nat.le_of_not_lt hc) _ hmem
    rw [toNat_byteOf hd] at this
    omega

theorem length_bytes (c : Char) : (Char.bytes c).length = c.utf8Size := by
  have hval : c.val.toNat = c.toNat := rfl
  have hone : c.toNat ≤ 127 ↔ c.toNat < 0x80 := by omega
  have htwo : c.toNat ≤ 2047 ↔ c.toNat < 0x800 := by omega
  have hthree : c.toNat ≤ 65535 ↔ c.toNat < 0x10000 := by omega
  unfold Char.bytes Char.utf8Size
  simp only [UInt32.le_iff_toNat_le, hval, UInt32.toNat_ofNatLT, hone, htwo, hthree]
  split
  · rfl
  · split
    · rfl
    · split
      · rfl
      · rfl

/-- A character has a first byte, and those after it are of no ASCII character. -/
theorem bytes_cases (c : Char) :
    ∃ b more, Char.bytes c = b :: more ∧ ∀ m ∈ more, 128 ≤ m.toNat := by
  by_cases hc : c.toNat < 128
  · exact ⟨byteOf c, [], bytes_ascii hc, nofun⟩
  · have hne : Char.bytes c ≠ [] := by
      rw [← List.length_pos_iff, length_bytes]
      exact c.utf8Size_pos
    obtain ⟨b, more, heq⟩ := List.exists_cons_of_ne_nil hne
    have hlarge := le_of_mem_bytes (Nat.le_of_not_lt hc)
    rw [heq] at hlarge
    exact ⟨b, more, heq, fun m hm => hlarge m (List.mem_cons_of_mem _ hm)⟩

/-! ### The scanner -/

/-- What follows a short string whose opening quote has been read. An escape takes one byte. -/
def afterShort? (quote : UInt8) : Bytes → Option Bytes
  | [] => none
  | [b] => if b = quote then some [] else none
  | b :: e :: bs =>
    if b = byteOf '\\' then afterShort? quote bs
    else if b = quote then some (e :: bs)
    else afterShort? quote (e :: bs)

/-- The level of an opening long bracket and what follows the bracket. -/
def longOpening? : Bytes → Option (Nat × Bytes)
  | [] => none
  | b :: bs =>
    if b = byteOf '[' then
      match bs.dropWhile (· == byteOf '=') with
      | [] => none
      | e :: rest =>
        if e = byteOf '[' then some ((bs.takeWhile (· == byteOf '=')).length, rest) else none
    else none

/-- What follows the first place where the part stands. -/
def afterFirst? (part : Bytes) : Bytes → Option Bytes
  | [] => none
  | b :: bs =>
    if part <+: b :: bs then some ((b :: bs).drop part.length) else afterFirst? part bs

def afterLong? (level : Nat) (inside : Bytes) : Option Bytes :=
  afterFirst? (Text.bytes (longClosing level)) inside

/-- What follows the string or comment that begins here, or the empty rest if it has no end. None
where neither begins. -/
def afterHidden? : Bytes → Option Bytes
  | [] => none
  | b :: bs =>
    if b = byteOf '\'' ∨ b = byteOf '"' then some ((afterShort? b bs).getD [])
    else if b = byteOf '-' ∧ bs.head? = some (byteOf '-') then
      match longOpening? bs.tail with
      | some (level, inside) => some ((afterLong? level inside).getD [])
      | none => some []
    else (longOpening? (b :: bs)).map fun (level, inside) => (afterLong? level inside).getD []

/-! ### Rounds of the scan -/

theorem afterShort?_length_lt {quote : UInt8} {t rest : Bytes}
    (h : afterShort? quote t = some rest) :
    rest.length < t.length := by
  induction t using afterShort?.induct quote with
  | case1 => cases h
  | case2 =>
    rw [afterShort?, if_pos rfl] at h
    cases h
    exact Nat.zero_lt_one
  | case3 b hquote =>
    rw [afterShort?, if_neg hquote] at h
    cases h
  | case4 e bs ih =>
    rw [afterShort?, if_pos rfl] at h
    exact Nat.lt_succ_of_lt (Nat.lt_succ_of_lt (ih h))
  | case5 e bs hescape =>
    rw [afterShort?, if_neg hescape, if_pos rfl] at h
    cases h
    exact Nat.lt_succ_self _
  | case6 b e bs hescape hquote ih =>
    rw [afterShort?, if_neg hescape, if_neg hquote] at h
    exact Nat.lt_succ_of_lt (ih h)

theorem longOpening?_length_lt {t inside : Bytes} {level : Nat}
    (h : longOpening? t = some (level, inside)) : inside.length < t.length := by
  cases t with
  | nil => cases h
  | cons b bs =>
    rw [longOpening?] at h
    split at h
    · have hle := (List.dropWhile_suffix (l := bs) (· == byteOf '=')).length_le
      split at h
      · cases h
      · next e rest hdrop =>
        split at h
        · cases h
          rw [hdrop, List.length_cons] at hle
          rw [List.length_cons]
          omega
        · cases h
    · cases h

theorem afterFirst?_length_le {part t rest : Bytes} (h : afterFirst? part t = some rest) :
    rest.length ≤ t.length := by
  induction t with
  | nil => cases h
  | cons b bs ih =>
    rw [afterFirst?] at h
    split at h
    · cases h
      exact (List.drop_suffix _ _).length_le
    · exact Nat.le_succ_of_le (ih h)

theorem getD_length_le {found : Option Bytes} {n : Nat}
    (h : ∀ rest, found = some rest → rest.length ≤ n) : (found.getD []).length ≤ n := by
  cases found with
  | none => exact Nat.zero_le _
  | some rest => exact h rest rfl

/-- Every round of the scan moves on. -/
theorem length_lt_of_afterHidden? {t rest : Bytes} (h : afterHidden? t = some rest) :
    rest.length < t.length := by
  have hlong : ∀ level inside, ((afterLong? level inside).getD []).length ≤ inside.length :=
    fun level inside => getD_length_le fun _ => afterFirst?_length_le
  cases t with
  | nil => cases h
  | cons b bs =>
    rw [afterHidden?] at h
    split at h
    · cases h
      exact Nat.lt_succ_of_le (getD_length_le fun _ hrest => (afterShort?_length_lt hrest).le)
    · split at h
      · split at h
        · next level inside hopening =>
          cases h
          have := hlong level inside
          have := longOpening?_length_lt hopening
          rw [List.length_tail] at this
          rw [List.length_cons]
          omega
        · cases h
          exact Nat.succ_pos _
      · obtain ⟨⟨level, inside⟩, hopening, rfl⟩ := Option.map_eq_some_iff.1 h
        exact (hlong level inside).trans_lt (longOpening?_length_lt hopening)

/-- The positions of the bytes outside strings and comments, from a position on. -/
def positionsFrom (position : Nat) (t : Bytes) : List Nat :=
  match t with
  | [] => []
  | b :: bs =>
    match _h : afterHidden? (b :: bs) with
    | none => position :: positionsFrom (position + 1) bs
    | some rest => positionsFrom (position + ((b :: bs).length - rest.length)) rest
termination_by t.length
decreasing_by
  · exact Nat.lt_succ_self _
  · exact length_lt_of_afterHidden? _h

/-- The positions of the bytes of a line outside strings and comments. -/
def positions (t : Bytes) : List Nat := positionsFrom 0 t

/-! ### Characters and their bytes -/

section Characters

variable {c d : Char} {b : UInt8} {more : Bytes} {t : Text}

theorem ne_byteOf (hb : 128 ≤ b.toNat) (hc : c.toNat < 128) : b ≠ byteOf c := by
  rintro rfl
  rw [toNat_byteOf hc] at hb
  omega

theorem eq_byteOf_of_mem_iff (hd : d.toNat < 128) (h : b ∈ Char.bytes c) :
    b = byteOf d ↔ c = d := by
  constructor
  · rintro rfl
    by_contra hne
    exact byteOf_not_mem_bytes hd hne h
  · rintro rfl
    rwa [bytes_ascii hd, List.mem_singleton] at h

theorem eq_byteOf_iff (hd : d.toNat < 128) (h : Char.bytes c = b :: more) :
    b = byteOf d ↔ c = d :=
  eq_byteOf_of_mem_iff hd (h ▸ List.mem_cons_self)

theorem bytes_cons_ascii (hc : c.toNat < 128) (t : Text) :
    Text.bytes (c :: t) = byteOf c :: t.bytes := by
  rw [Text.bytes_cons, bytes_ascii hc, List.singleton_append]

theorem length_bytes_of_ascii (h : ∀ c ∈ t, c.toNat < 128) : t.bytes.length = t.length := by
  induction t with
  | nil => rfl
  | cons c cs ih =>
    rw [bytes_cons_ascii (h c List.mem_cons_self), List.length_cons, List.length_cons,
      ih fun d hd => h d (List.mem_cons_of_mem _ hd)]

theorem length_bytes_eq_utf8Size (t : Text) : t.bytes.length = t.utf8Size := by
  induction t with
  | nil => rfl
  | cons c cs ih => rw [Text.bytes_cons, List.length_append, ih, length_bytes, Text.utf8Size_cons]

/-- A run of an ASCII character is a run of its byte. -/
theorem span_bytes (hd : d.toNat < 128) (t : Text) :
    t.bytes.takeWhile (· == byteOf d) = Text.bytes (t.takeWhile (· == d)) ∧
      t.bytes.dropWhile (· == byteOf d) = Text.bytes (t.dropWhile (· == d)) := by
  induction t with
  | nil => exact ⟨rfl, rfl⟩
  | cons c cs ih =>
    by_cases hc : c = d
    · subst hc
      simp only [bytes_cons_ascii hd, List.takeWhile_cons, List.dropWhile_cons, beq_self_eq_true,
        if_true, ih, and_self]
    · obtain ⟨b, more, hbytes, -⟩ := bytes_cases c
      have hb : (b == byteOf d) = false := by
        rw [beq_eq_false_iff_ne, Ne, eq_byteOf_iff hd hbytes]
        exact hc
      have hne : (c == d) = false := beq_eq_false_iff_ne.2 hc
      simp [Text.bytes_cons, hbytes, hb, hne]

end Characters

/-! ### Strings -/

section Short

variable {quote : Char} {t inside : Text}

theorem toNat_quote_lt (h : IsQuote quote) : quote.toNat < 128 := by
  rcases h with rfl | rfl
  all_goals decide

theorem afterShort?_cons {q b : UInt8} (hescape : b ≠ byteOf '\\') (hquote : b ≠ q) (t : Bytes) :
    afterShort? q (b :: t) = afterShort? q t := by
  cases t with
  | nil =>
    show (if b = q then some [] else none) = none
    rw [if_neg hquote]
  | cons e bs => rw [afterShort?, if_neg hescape, if_neg hquote]

theorem afterShort?_append {q : UInt8} {skipped : Bytes}
    (h : ∀ b ∈ skipped, b ≠ byteOf '\\' ∧ b ≠ q) (t : Bytes) :
    afterShort? q (skipped ++ t) = afterShort? q t := by
  induction skipped with
  | nil => rfl
  | cons b bs ih =>
    obtain ⟨⟨hescape, hquote⟩, hbs⟩ := List.forall_mem_cons.1 h
    rw [List.cons_append, afterShort?_cons hescape hquote, ih hbs]

theorem afterShort?_close {q : UInt8} (hq : q ≠ byteOf '\\') (t : Bytes) :
    afterShort? q (q :: t) = some t := by
  cases t with
  | nil => rw [afterShort?, if_pos rfl]
  | cons e bs => rw [afterShort?, if_neg hq, if_pos rfl]

theorem byteOf_quote_ne_escape (h : IsQuote quote) : byteOf quote ≠ byteOf '\\' := by
  rcases h with rfl | rfl
  all_goals decide

/-- Inside a string nothing ends it. The byte that an escape takes is the first of a character, and
those after it are none that the scanner looks for. -/
theorem afterShort?_inside (hquote : IsQuote quote) (h : IsShort quote inside) (t : Bytes) :
    afterShort? (byteOf quote) (inside.bytes ++ t) = afterShort? (byteOf quote) t := by
  induction h with
  | nil => rfl
  | escape c _ ih =>
    obtain ⟨b, more, hbytes, hmore⟩ := bytes_cases c
    have hskip : ∀ m ∈ more, m ≠ byteOf '\\' ∧ m ≠ byteOf quote := fun m hm =>
      ⟨ne_byteOf (hmore m hm) (by decide), ne_byteOf (hmore m hm) (toNat_quote_lt hquote)⟩
    rw [bytes_cons_ascii (by decide), Text.bytes_cons, hbytes, List.cons_append, List.cons_append,
      List.cons_append, afterShort?, if_pos rfl, List.append_assoc, afterShort?_append hskip, ih]
  | @char c t hescape hne _ ih =>
    have hskip : ∀ m ∈ Char.bytes c, m ≠ byteOf '\\' ∧ m ≠ byteOf quote := fun m hm =>
      ⟨fun heq => byteOf_not_mem_bytes (by decide) hescape (heq ▸ hm),
        fun heq => byteOf_not_mem_bytes (toNat_quote_lt hquote) hne (heq ▸ hm)⟩
    rw [Text.bytes_cons, List.append_assoc, afterShort?_append hskip, ih]

theorem afterShort?_bytes (hquote : IsQuote quote) (t : Text) :
    afterShort? (byteOf quote) t.bytes = (Lua.afterShort? quote t).map Text.bytes := by
  rcases afterShort?_cases quote t with
    ⟨inside, rest, rfl, hinside, hafter⟩ | ⟨hafter, hinside | ⟨inside, rfl, hinside⟩⟩
  · rw [hafter, Text.bytes_append, bytes_cons_ascii (toNat_quote_lt hquote),
      afterShort?_inside hquote hinside, afterShort?_close (byteOf_quote_ne_escape hquote)]
    rfl
  · have hwhole := afterShort?_inside hquote hinside []
    rw [List.append_nil] at hwhole
    rw [hafter, hwhole]
    rfl
  · rw [hafter, Text.bytes_append, afterShort?_inside hquote hinside]
    show (if byteOf '\\' = byteOf quote then some [] else none) = none
    rw [if_neg (byteOf_quote_ne_escape hquote).symm]

end Short

/-! ### Long brackets -/

theorem longOpening?_bytes (t : Text) :
    longOpening? t.bytes =
      (Lua.longOpening? t).map fun (level, inside) => (level, inside.bytes) := by
  have hbracket : '['.toNat < 128 := by decide
  cases t with
  | nil => rfl
  | cons c cs =>
    by_cases hc : c = '['
    · subst hc
      obtain ⟨htake, hdrop⟩ := span_bytes (d := '=') (by decide) cs
      have hsigns : ∀ c ∈ cs.takeWhile (· == '='), c.toNat < 128 := by
        intro c hmem
        have hsign := List.all_eq_true.1 (List.all_takeWhile (p := (· == '=')) (l := cs)) c hmem
        rw [beq_iff_eq.1 hsign]
        decide
      rw [bytes_cons_ascii hbracket, longOpening?, if_pos rfl, hdrop, htake,
        length_bytes_of_ascii hsigns, Lua.longOpening?]
      cases cs.dropWhile (· == '=') with
      | nil => rfl
      | cons d ds =>
        obtain ⟨b, more, hbytes, -⟩ := bytes_cases d
        rw [Text.bytes_cons, hbytes, List.cons_append]
        dsimp only
        by_cases hd : d = '['
        · subst hd
          rw [bytes_ascii hbracket] at hbytes
          obtain ⟨rfl, rfl⟩ := List.cons.inj hbytes
          rw [if_pos rfl]
          rfl
        · rw [if_neg (mt (eq_byteOf_iff hbracket hbytes).1 hd)]
          split
          · next heq => exact absurd (List.cons.inj heq).1 hd
          · rfl
    · obtain ⟨b, more, hbytes, -⟩ := bytes_cases c
      rw [Text.bytes_cons, hbytes, List.cons_append, longOpening?,
        if_neg (mt (eq_byteOf_iff hbracket hbytes).1 hc), Lua.longOpening?]
      · rfl
      · rintro rest ⟨⟩
        exact hc rfl

theorem afterFirst?_append {p : UInt8} {ps skipped : Bytes} (h : ∀ b ∈ skipped, b ≠ p)
    (t : Bytes) : afterFirst? (p :: ps) (skipped ++ t) = afterFirst? (p :: ps) t := by
  induction skipped with
  | nil => rfl
  | cons b bs ih =>
    obtain ⟨hb, hbs⟩ := List.forall_mem_cons.1 h
    have hnot : ¬ p :: ps <+: b :: (bs ++ t) := fun hstarts =>
      hb (List.cons_prefix_cons.1 hstarts).1.symm
    rw [List.cons_append, afterFirst?, if_neg hnot, ih hbs]

/-- An ASCII part is found in the bytes of a text where it is found in the text. -/
theorem afterFirst?_bytes {p : Char} {ps : Text} (hp : p.toNat < 128) (t : Text) :
    afterFirst? (Text.bytes (p :: ps)) t.bytes =
      (Text.cut? (p :: ps) t).map fun found => found.2.bytes := by
  induction t with
  | nil =>
    rw [Text.cut?, if_neg (List.cons_ne_nil p ps)]
    rfl
  | cons c cs ih =>
    obtain ⟨b, more, hbytes, hmore⟩ := bytes_cases c
    have hcons : Text.bytes (c :: cs) = b :: (more ++ Text.bytes cs) := by
      rw [Text.bytes_cons, hbytes, List.cons_append]
    cases hafter : Text.after? (p :: ps) (c :: cs) with
    | some rest =>
      have hsplit : Text.bytes (c :: cs) = Text.bytes (p :: ps) ++ rest.bytes := by
        rw [Text.after?_eq_some_iff.1 hafter, Text.bytes_append]
      rw [Text.cut?_cons_of_some c cs hafter, hcons, afterFirst?, ← hcons, hsplit,
        if_pos (List.prefix_append _ _), List.drop_left]
      rfl
    | none =>
      have hnot : ¬ Text.bytes (p :: ps) <+: Text.bytes (c :: cs) := by
        rw [Text.bytes_isPrefix_iff, Text.not_isPrefix_iff]
        exact hafter
      have hskip : ∀ m ∈ more, m ≠ byteOf p := fun m hm => ne_byteOf (hmore m hm) hp
      rw [Text.cut?_cons_of_none c cs hafter, hcons, afterFirst?, ← hcons, if_neg hnot,
        bytes_cons_ascii hp, afterFirst?_append hskip, ← bytes_cons_ascii hp, ih, Option.map_map]
      rfl

theorem afterLong?_bytes (level : Nat) (t : Text) :
    afterLong? level t.bytes = (Lua.afterLong? level t).map Text.bytes := by
  rw [Lua.afterLong?, Option.map_map]
  exact afterFirst?_bytes (by decide) t

/-! ### Strings and comments -/

theorem getD_map_bytes (found : Option Text) :
    (found.map Text.bytes).getD [] = (found.getD []).bytes := by
  cases found with
  | none => rfl
  | some t => rfl

theorem head?_bytes_iff {d : Char} (hd : d.toNat < 128) (t : Text) :
    t.bytes.head? = some (byteOf d) ↔ t.head? = some d := by
  cases t with
  | nil => simp
  | cons c cs =>
    obtain ⟨b, more, hbytes, -⟩ := bytes_cases c
    rw [Text.bytes_cons, hbytes, List.cons_append, List.head?_cons, List.head?_cons,
      Option.some.injEq, Option.some.injEq, eq_byteOf_iff hd hbytes]

/-- What begins like neither a short string nor a comment can only be a long bracket. -/
theorem afterHidden?_other {c : Char} {cs : Text} (hquote : ¬ IsQuote c)
    (hcomment : ¬ (c = '-' ∧ cs.head? = some '-')) :
    Lua.afterHidden? (c :: cs) = (Lua.longOpening? (c :: cs)).map fun (level, inside) =>
      (Lua.afterLong? level inside).getD [] := by
  unfold Lua.afterHidden?
  split
  · next heq => exact absurd (.inl (List.cons.inj heq).1) hquote
  · next heq => exact absurd (.inr (List.cons.inj heq).1) hquote
  · next heq =>
    obtain ⟨rfl, rfl⟩ := List.cons.inj heq
    exact absurd ⟨rfl, rfl⟩ hcomment
  · rfl

/-- **What begins a string or comment in the bytes of a text is what begins one in the text**, and
the same follows it. -/
theorem afterHidden?_bytes (t : Text) :
    afterHidden? t.bytes = (Lua.afterHidden? t).map Text.bytes := by
  have hminus : '-'.toNat < 128 := by decide
  have hlong : ∀ level inside, (afterLong? level (Text.bytes inside)).getD [] =
      Text.bytes ((Lua.afterLong? level inside).getD []) := fun level inside => by
    rw [afterLong?_bytes, getD_map_bytes]
  cases t with
  | nil => rfl
  | cons c cs =>
    by_cases hquote : IsQuote c
    · have hbyte : byteOf c = byteOf '\'' ∨ byteOf c = byteOf '"' := by
        rcases hquote with rfl | rfl
        · exact .inl rfl
        · exact .inr rfl
      rw [bytes_cons_ascii (toNat_quote_lt hquote), afterHidden?, if_pos hbyte,
        afterShort?_bytes hquote, getD_map_bytes, afterHidden?_quote hquote]
      rfl
    by_cases hcomment : c = '-' ∧ cs.head? = some '-'
    · obtain ⟨rfl, hhead⟩ := hcomment
      obtain ⟨ds, rfl⟩ := List.head?_eq_some_iff.1 hhead
      rw [bytes_cons_ascii hminus, bytes_cons_ascii hminus, afterHidden?, if_neg (by decide),
        if_pos ⟨rfl, rfl⟩, List.tail_cons, longOpening?_bytes, Lua.afterHidden?]
      cases Lua.longOpening? ds with
      | none => rfl
      | some found => exact congrArg some (hlong found.1 found.2)
    · obtain ⟨b, more, hbytes, -⟩ := bytes_cases c
      have hbyte : ∀ {d : Char}, d.toNat < 128 → (b = byteOf d ↔ c = d) := fun hd =>
        eq_byteOf_iff hd hbytes
      have hquote' : ¬ (b = byteOf '\'' ∨ b = byteOf '"') := by
        rwa [hbyte (by decide), hbyte (by decide)]
      have hcomment' : ¬ (b = byteOf '-' ∧ (more ++ Text.bytes cs).head? = some (byteOf '-')) := by
        rintro ⟨hb, hhead⟩
        obtain rfl := (hbyte hminus).1 hb
        rw [bytes_ascii hminus] at hbytes
        obtain ⟨-, rfl⟩ := List.cons.inj hbytes
        exact hcomment ⟨rfl, (head?_bytes_iff hminus cs).1 hhead⟩
      have hwhole : b :: (more ++ Text.bytes cs) = Text.bytes (c :: cs) := by
        rw [Text.bytes_cons, hbytes, List.cons_append]
      rw [← hwhole, afterHidden?, if_neg hquote', if_neg hcomment', hwhole, longOpening?_bytes,
        afterHidden?_other hquote hcomment, Option.map_map, Option.map_map]
      congr 1
      exact funext fun found => hlong found.1 found.2

/-! ### Positions -/

theorem bytesOf_marked (code : Text) : bytesOf (marked code) = code.bytes.length := by
  rw [bytesOf, map_fst_marked, length_bytes_eq_utf8Size]

/-- The positions of the bytes of the significant characters, from a position on. -/
def significantBytes : Nat → List (Char × Bool) → List Nat
  | _, [] => []
  | position, m :: rest =>
    (if m.2 then List.range' position m.1.utf8Size else []) ++
      significantBytes (position + m.1.utf8Size) rest

section Positions

variable {position : Nat} {t rest : Bytes}

theorem positionsFrom_of_none {b : UInt8} {bs : Bytes} (h : afterHidden? (b :: bs) = none) :
    positionsFrom position (b :: bs) = position :: positionsFrom (position + 1) bs := by
  rw [positionsFrom]
  split
  · rfl
  · next hsome =>
    rw [h] at hsome
    cases hsome

theorem positionsFrom_of_some (h : afterHidden? t = some rest) :
    positionsFrom position t = positionsFrom (position + (t.length - rest.length)) rest := by
  cases t with
  | nil => cases h
  | cons b bs =>
    rw [positionsFrom]
    split
    · next hnone =>
      rw [h] at hnone
      cases hnone
    · next found hfound =>
      rw [h] at hfound
      obtain rfl := Option.some.inj hfound
      rfl

/-- The bytes of a character behind its first one begin nothing. -/
theorem positionsFrom_append {more : Bytes} (h : ∀ m ∈ more, 128 ≤ m.toNat) (t : Bytes) :
    positionsFrom position (more ++ t) =
      List.range' position more.length ++ positionsFrom (position + more.length) t := by
  induction more generalizing position with
  | nil => rfl
  | cons m ms ih =>
    obtain ⟨hm, hms⟩ := List.forall_mem_cons.1 h
    have hne : ∀ {c : Char}, c.toNat < 128 → m ≠ byteOf c := fun hc => ne_byteOf hm hc
    have hnone : afterHidden? (m :: (ms ++ t)) = none := by
      have hquote : ¬ (m = byteOf '\'' ∨ m = byteOf '"') :=
        not_or.2 ⟨hne (by decide), hne (by decide)⟩
      have hcomment : ¬ (m = byteOf '-' ∧ (ms ++ t).head? = some (byteOf '-')) :=
        fun h => hne (by decide) h.1
      rw [afterHidden?, if_neg hquote, if_neg hcomment, longOpening?, if_neg (hne (by decide))]
      rfl
    rw [List.cons_append, positionsFrom_of_none hnone, ih hms, List.length_cons, List.range'_succ,
      List.cons_append, Nat.add_assoc, Nat.add_comm 1]

end Positions

section Significant

variable {position : Nat} {ms ns : List (Char × Bool)}

theorem significantBytes_append (position : Nat) (ms ns : List (Char × Bool)) :
    significantBytes position (ms ++ ns) =
      significantBytes position ms ++ significantBytes (position + bytesOf ms) ns := by
  induction ms generalizing position with
  | nil => rfl
  | cons m ms ih =>
    rw [List.cons_append, significantBytes, significantBytes, ih, bytesOf_cons, List.append_assoc,
      Nat.add_assoc]

theorem significantBytes_hidden (position : Nat) (t : Text) :
    significantBytes position (t.map (·, false)) = [] := by
  induction t generalizing position with
  | nil => rfl
  | cons c cs ih => exact ih _

theorem significantBytes_add (offset position : Nat) (ms : List (Char × Bool)) :
    significantBytes (offset + position) ms =
      (significantBytes position ms).map (offset + ·) := by
  induction ms generalizing position with
  | nil => rfl
  | cons m ms ih =>
    rw [significantBytes, significantBytes, List.map_append, ← ih, Nat.add_assoc]
    split
    · rw [List.map_add_range']
    · rfl

theorem bounds_of_mem_significantBytes {p : Nat} (h : p ∈ significantBytes position ms) :
    position ≤ p ∧ p < position + bytesOf ms := by
  induction ms generalizing position with
  | nil => cases h
  | cons m ms ih =>
    rw [bytesOf_cons]
    rcases List.mem_append.1 h with h | h
    · split at h
      · have := List.mem_range'_1.1 h
        omega
      · cases h
    · have := ih h
      omega

/-- The positions in front of a part are those of what stands there. -/
theorem filter_significantBytes (position : Nat) (ms ns : List (Char × Bool)) :
    (significantBytes position (ms ++ ns)).filter (· < position + bytesOf ms) =
      significantBytes position ms := by
  have hin : (significantBytes position ms).filter (· < position + bytesOf ms) =
      significantBytes position ms :=
    List.filter_eq_self.2 fun p hp => decide_eq_true (bounds_of_mem_significantBytes hp).2
  have hbehind : (significantBytes (position + bytesOf ms) ns).filter (· < position + bytesOf ms) =
      [] := by
    refine List.filter_eq_nil_iff.2 fun p hp => ?_
    rw [decide_eq_true_eq]
    exact Nat.not_lt.2 (bounds_of_mem_significantBytes hp).1
  rw [significantBytes_append, List.filter_append, hin, hbehind, List.append_nil]

theorem pairwise_significantBytes (position : Nat) (ms : List (Char × Bool)) :
    (significantBytes position ms).Pairwise (· < ·) := by
  induction ms generalizing position with
  | nil => exact .nil
  | cons m ms ih =>
    refine List.pairwise_append.2 ⟨?_, ih _, fun p hp q hq => ?_⟩
    · split
      · exact List.pairwise_lt_range'
      · exact .nil
    · have hlater := (bounds_of_mem_significantBytes hq).1
      split at hp
      · have := List.mem_range'_1.1 hp
        omega
      · cases hp

end Significant

/-- The scan passes over a string or comment as a whole. -/
theorem positionsFrom_hidden {hidden rest : Text}
    (h : Lua.afterHidden? (hidden ++ rest) = some rest) (position : Nat) :
    positionsFrom position (Text.bytes (hidden ++ rest)) =
      positionsFrom (position + hidden.utf8Size) rest.bytes := by
  have hafter : afterHidden? (Text.bytes (hidden ++ rest)) = some rest.bytes := by
    rw [afterHidden?_bytes, h]
    rfl
  rw [positionsFrom_of_some hafter, Text.bytes_append, List.length_append, Nat.add_sub_cancel,
    length_bytes_eq_utf8Size]

/-- The scan of the bytes goes by the segments of the code. -/
theorem positionsFrom_bytes {segments : List Segment} (h : IsCode segments) (position : Nat) :
    positionsFrom position (segmentsText segments).bytes =
      significantBytes position (segmentsMarked segments) := by
  induction h generalizing position with
  | nil =>
    show positionsFrom position [] = []
    rw [positionsFrom]
  | @char c rest hc _ ih =>
    obtain ⟨b, more, hbytes, hmore⟩ := bytes_cases c
    have hsize : c.utf8Size = more.length + 1 := by
      rw [← length_bytes, hbytes, List.length_cons]
    have hwhole : Text.bytes (c :: segmentsText rest) =
        b :: (more ++ Text.bytes (segmentsText rest)) := by
      rw [Text.bytes_cons, hbytes, List.cons_append]
    have hnone : afterHidden? (b :: (more ++ Text.bytes (segmentsText rest))) = none := by
      rw [← hwhole, afterHidden?_bytes, afterHidden?_eq_none_iff.2 hc]
      rfl
    show positionsFrom position (Text.bytes (c :: segmentsText rest)) =
      significantBytes position ((c, true) :: segmentsMarked rest)
    rw [hwhole, positionsFrom_of_none hnone, positionsFrom_append hmore, ih, significantBytes,
      if_pos rfl, hsize, List.range'_succ, List.cons_append, Nat.add_assoc, Nat.add_comm 1]
  | @hidden opening inside closing rest hencloses _ ih =>
    have hafter : Lua.afterHidden? ((opening ++ (inside ++ closing)) ++ segmentsText rest) =
        some (segmentsText rest) := by
      simpa only [List.append_assoc] using hencloses.afterHidden? (segmentsText rest)
    have htext : segmentsText (.hidden opening inside closing :: rest) =
        (opening ++ (inside ++ closing)) ++ segmentsText rest := rfl
    have hmarked : segmentsMarked (.hidden opening inside closing :: rest) =
        (opening ++ (inside ++ closing)).map (·, false) ++ segmentsMarked rest := rfl
    rw [htext, hmarked, positionsFrom_hidden hafter, ih, significantBytes_append,
      significantBytes_hidden, List.nil_append, bytesOf_hidden]
  | @unclosed t hunclosed =>
    have hafter := hunclosed.afterHidden?
    rw [← List.append_nil t] at hafter
    have htext : segmentsText [.unclosed t] = t ++ [] := rfl
    have hmarked : segmentsMarked [.unclosed t] = t.map (·, false) := List.append_nil _
    rw [htext, hmarked, positionsFrom_hidden hafter, significantBytes_hidden]
    show positionsFrom _ [] = []
    rw [positionsFrom]

/-- **The positions outside strings and comments are those of the bytes of the significant
characters.** -/
theorem positions_bytes (code : Text) :
    positions code.bytes = significantBytes 0 (marked code) := by
  obtain ⟨segments, hcode, rfl⟩ := exists_isCode code
  rw [hcode.marked_eq]
  exact positionsFrom_bytes hcode 0

/-- The positions of code whose second part is marked as it is by itself. -/
theorem positions_of_marked {code t : Text} {ms : List (Char × Bool)}
    (h : marked code = ms ++ marked t) :
    positions code.bytes = significantBytes 0 ms ++ (positions t.bytes).map (bytesOf ms + ·) := by
  rw [positions_bytes, positions_bytes, h, significantBytes_append, Nat.add_comm 0,
    significantBytes_add]

end Stencil.Lua.Bytewise
