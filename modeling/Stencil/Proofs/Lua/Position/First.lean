import Mathlib.Order.Bounds.Basic
import Stencil.Proofs.Lua.Position.Message
import Stencil.Proofs.Text.Occurrence
import Stencil.Proofs.Text.Words

/-! The first position in a text.

`Tells` says what a position is by what stands at a place of a text, and in front of it: the search
for a position goes on past all places that fall short of it in any way, and ends at the first that
does not (`chunkLine?_eq_some_iff`). The reader that takes a position off the start of a message
agrees with it on what a position is, so a message that begins with one is told apart into its line
(`chunkLine?_located`) and the rest (`stripLocation_located`), whatever that holds. -/
namespace Stencil.Lua

variable {t rest front digits : Text} {line n : Nat}

/-! ### Positions -/

/-- The text starts with the mark of a position, the digits of a line number that fits, and a
colon. -/
def IsPosition (t : Text) (line : Nat) : Prop :=
  ∃ digits rest, t = positionMark ++ (digits ++ ':' :: rest) ∧ digits ≠ [] ∧
    (∀ c ∈ digits, isAsciiDigit c = true) ∧ Text.digitsValue digits = line ∧ line < lineLimit

/-- At a place of the text, which is not inside a word, stands the position of a line. -/
def Tells (t : Text) (n line : Nat) : Prop :=
  Text.EndsOutsideWord (t.take n) ∧ IsPosition (t.drop n) line

theorem takeWhile_digits (h : ∀ c ∈ digits, isAsciiDigit c = true) (rest : Text) :
    (digits ++ ':' :: rest).takeWhile isAsciiDigit = digits := by
  rw [Text.takeWhile_append_cons (by decide), List.takeWhile_eq_self_iff.2 h]

theorem dropWhile_digits (h : ∀ c ∈ digits, isAsciiDigit c = true) (rest : Text) :
    (digits ++ ':' :: rest).dropWhile isAsciiDigit = ':' :: rest := by
  rw [Text.dropWhile_append_cons (by decide), List.dropWhile_eq_nil_iff.2 h, List.nil_append]

theorem lineAt?_eq_some_iff : lineAt? t = some line ↔ IsPosition t line := by
  constructor
  · intro h
    obtain ⟨rest, hafter, hline⟩ := Option.bind_eq_some_iff.1 h
    dsimp only at hline
    split at hline
    · next hposition =>
      obtain ⟨hne, hcolon, hlimit⟩ := hposition
      obtain ⟨behind, hbehind⟩ := List.head?_eq_some_iff.1 hcolon
      have hsplit := List.takeWhile_append_dropWhile (p := isAsciiDigit) (l := rest)
      rw [hbehind] at hsplit
      have hvalue := Option.some.inj hline
      refine ⟨rest.takeWhile isAsciiDigit, behind, ?_, hne,
        List.all_eq_true.1 List.all_takeWhile, hvalue, hvalue ▸ hlimit⟩
      rw [hsplit, ← Text.after?_eq_some_iff.1 hafter]
    · cases hline
  · rintro ⟨digits, rest, rfl, hne, hdigits, rfl, hlimit⟩
    unfold lineAt?
    rw [Text.after?_append]
    dsimp only [Option.bind_eq_bind, Option.bind_some]
    rw [takeWhile_digits hdigits, dropWhile_digits hdigits]
    exact if_pos ⟨hne, rfl, hlimit⟩

/-! ### The search -/

/-- `Tells` of a text that stands behind another. -/
def TellsBehind (front t : Text) (n line : Nat) : Prop :=
  Text.EndsOutsideWord (front ++ t.take n) ∧ IsPosition (t.drop n) line

theorem not_isPosition_nil : ¬ IsPosition [] line := by
  rintro ⟨_, _, heq, -⟩
  cases heq

theorem tellsBehind_zero :
    TellsBehind front t 0 line ↔ front.EndsOutsideWord ∧ IsPosition t line := by
  rw [TellsBehind, List.take_zero, List.append_nil, List.drop_zero]

theorem tellsBehind_succ {c : Char} {cs : Text} :
    TellsBehind front (c :: cs) (n + 1) line ↔ TellsBehind (front ++ [c]) cs n line := by
  rw [TellsBehind, TellsBehind, List.take_succ_cons, List.drop_succ_cons, List.append_assoc,
    List.singleton_append]

/-- What is read at the start of a text that stands behind another. -/
theorem here_eq_some_iff (front t : Text) :
    (if (front.getLast?.map isWordChar).getD false then none else lineAt? t) = some line ↔
      TellsBehind front t 0 line := by
  have houtside : front.EndsOutsideWord ↔ (front.getLast?.map isWordChar).getD false = false := by
    unfold Text.EndsOutsideWord
    cases front.getLast? with
    | none => simp
    | some c => simp
  rw [tellsBehind_zero, houtside, ← lineAt?_eq_some_iff]
  cases (front.getLast?.map isWordChar).getD false with
  | false => simp
  | true => simp

theorem here_eq_none_iff (front t : Text) :
    (if (front.getLast?.map isWordChar).getD false then none else lineAt? t) = none ↔
      ∀ line, ¬ TellsBehind front t 0 line := by
  rw [Option.eq_none_iff_forall_ne_some]
  exact forall_congr' fun line => not_congr (here_eq_some_iff front t)

/-- **The search ends at the first place that tells a line.** -/
theorem lineIn?_eq_some_iff (front t : Text) : lineIn? front.getLast? t = some line ↔
    ∃ n, TellsBehind front t n line ∧ IsLeast {k | ∃ l, TellsBehind front t k l} n := by
  induction t generalizing front with
  | nil =>
    refine iff_of_false (by rw [lineIn?]; simp) ?_
    rintro ⟨n, ⟨-, hposition⟩, -⟩
    rw [List.drop_nil] at hposition
    exact not_isPosition_nil hposition
  | cons c cs ih =>
    have hlast : (front ++ [c]).getLast? = some c := List.getLast?_concat
    have hbehind := ih (front ++ [c])
    rw [hlast] at hbehind
    rw [lineIn?, Option.or_eq_some_iff, here_eq_some_iff, hbehind, here_eq_none_iff]
    constructor
    · rintro (hhere | ⟨hnone, n, htells, -, hleast⟩)
      · exact ⟨0, hhere, ⟨line, hhere⟩, fun _ _ => Nat.zero_le _⟩
      · have htells' := tellsBehind_succ.2 htells
        refine ⟨n + 1, htells', ⟨line, htells'⟩, ?_⟩
        rintro (_ | k) ⟨l, hk⟩
        · exact absurd hk (hnone l)
        · exact Nat.succ_le_succ (hleast ⟨l, tellsBehind_succ.1 hk⟩)
    · rintro ⟨_ | n, htells, -, hleast⟩
      · exact .inl htells
      · refine .inr ⟨fun l hhere => ?_, n, tellsBehind_succ.1 htells,
          ⟨line, tellsBehind_succ.1 htells⟩, ?_⟩
        · exact absurd (hleast ⟨l, hhere⟩) (Nat.not_succ_le_zero n)
        · rintro k ⟨l, hk⟩
          exact Nat.le_of_succ_le_succ (hleast ⟨l, tellsBehind_succ.2 hk⟩)

/-- **The line that a text tells is that of the first place that tells one.** -/
theorem chunkLine?_eq_some_iff : chunkLine? t = some line ↔
    ∃ n, Tells t n line ∧ IsLeast {k | ∃ l, Tells t k l} n := lineIn?_eq_some_iff [] t

/-- A text tells no line only if no place of it does. -/
theorem chunkLine?_eq_none_iff : chunkLine? t = none ↔ ∀ n line, ¬ Tells t n line := by
  constructor
  · intro hnone n line htells
    classical
    -- the least of the places that tell a line
    have hexists : ∃ k, ∃ l, Tells t k l := ⟨n, line, htells⟩
    obtain ⟨l, hl⟩ := Nat.find_spec hexists
    have hsome : chunkLine? t = some l :=
      chunkLine?_eq_some_iff.2 ⟨Nat.find hexists, hl, ⟨l, hl⟩, fun k hk => Nat.find_min' hexists hk⟩
    rw [hnone] at hsome
    cases hsome
  · intro hnone
    refine Option.eq_none_iff_forall_ne_some.2 fun line hsome => ?_
    obtain ⟨n, htells, -⟩ := chunkLine?_eq_some_iff.1 hsome
    exact hnone n line htells

/-! ### The position at the start of a message -/

/-- A position is taken off with the blanks behind it, also one of a line that is too large. -/
theorem stripLocation_position (hne : digits ≠ []) (h : ∀ c ∈ digits, isAsciiDigit c = true)
    (rest : Text) :
    stripLocation (positionMark ++ (digits ++ ':' :: rest)) = Text.trimStart rest := by
  obtain ⟨d, ds, rfl⟩ := List.exists_cons_of_ne_nil hne
  unfold stripLocation
  rw [Text.after?_append]
  dsimp only
  rw [takeWhile_digits h, dropWhile_digits h]
  rfl

/-- A message behind the position of a line. -/
def located (line : Nat) (message : Text) : Text :=
  positionMark ++ (Text.ofNat line ++ ':' :: ' ' :: message)

theorem chunkLine?_located (h : line < lineLimit) (message : Text) :
    chunkLine? (located line message) = some line := chunkLine?_position h _

theorem stripLocation_located (line : Nat) (message : Text) :
    stripLocation (located line message) = message.trimStart :=
  stripLocation_position (Text.ofNat_ne_nil line) (fun _ => Text.isAsciiDigit_of_mem_ofNat) _

/-! ### Failures with a position -/

theorem splitTraceback_of_not_mem {before : Text} (h : '\n' ∉ before) (t : Text) :
    splitTraceback (before ++ t) = (before ++ (splitTraceback t).1, (splitTraceback t).2) := by
  unfold splitTraceback
  rw [Text.cut?_append_of_not_mem h]
  cases Text.cut? ('\n' :: tracebackMark) t with
  | none => rfl
  | some found => rfl

/-- A message without a list of calls is what stands in front of the one that is told with it. -/
theorem splitTraceback_callsText {message : Text} (h : ¬ '\n' :: tracebackMark <:+: message)
    (calls : Option (List Level)) :
    (splitTraceback (message ++ Report.callsText calls)).1 = message := by
  cases calls with
  | none =>
    have hwhole : message ++ Report.callsText none = message := List.append_nil message
    rw [hwhole, splitTraceback, (Text.cut?_eq_none_iff (List.cons_ne_nil _ _)).2 h]
  | some calls =>
    have hleads : message.LeadsTo ('\n' :: tracebackMark) :=
      .of_not_overlapsItself (by decide) h
    have hcut := Text.cut?_of_leadsTo (List.cons_ne_nil _ _) hleads
      (toldCalls (calls.map Level.text)).flatten
    have hwhole : message ++ Report.callsText (some calls) = message ++
        ('\n' :: tracebackMark ++ (toldCalls (calls.map Level.text)).flatten) := rfl
    rw [splitTraceback, hwhole, hcut]

theorem lineFeed_not_mem_located (line : Nat) :
    '\n' ∉ positionMark ++ (Text.ofNat line ++ ": ".toList) := by
  simp only [List.mem_append, not_or]
  exact ⟨by decide, Text.not_mem_ofNat (by decide) _, by decide⟩

/-- The failure of a message behind a position has its line, and the message without the list of
calls. -/
theorem failure_of_raised (h : line < lineLimit) {place : Option Place} {own message : Text}
    (hlocated : Report.messageText place own = located line message)
    (calls : Option (List Level)) : ∃ attributes,
    (Report.raised place own calls).failure = ⟨some line, .native "RuntimeError"
      (Text.trimStart (splitTraceback (message ++ Report.callsText calls)).1) attributes⟩ := by
  have hfront : ∀ t, located line t = (positionMark ++ (Text.ofNat line ++ ": ".toList)) ++ t := by
    intro t
    rw [located, List.append_assoc, List.append_assoc]
    rfl
  have hsplit : splitTraceback (Report.messageText place own ++ Report.callsText calls) =
      (located line (splitTraceback (message ++ Report.callsText calls)).1,
        (splitTraceback (message ++ Report.callsText calls)).2) := by
    rw [hlocated, hfront, hfront, List.append_assoc,
      splitTraceback_of_not_mem (lineFeed_not_mem_located line)]
  rw [Report.failure, hsplit]
  dsimp only
  rw [Report.failureOf, chunkLine?_located h, stripLocation_located]
  exact ⟨_, rfl⟩

theorem failure_of_unreadable (h : line < lineLimit) (complaint : Text) (incomplete : Bool) :
    ∃ attributes, (Report.unreadable line complaint incomplete).failure =
      ⟨some line, .native "SyntaxError" complaint.trimStart attributes⟩ := by
  have heq : Report.messageText (some ⟨scriptName, line⟩) complaint = located line complaint := by
    show Place.position ⟨scriptName, line⟩ ++ complaint = _
    rw [position_of_script, located, List.append_assoc, List.append_assoc]
    rfl
  rw [Report.failure, Report.failureOf, heq, chunkLine?_located h, stripLocation_located]
  exact ⟨_, rfl⟩

/-- The search finds the first position in a text. -/
structure FindsFirst (t : Text) : Prop where
  some : ∀ line, chunkLine? t = some line ↔
    ∃ place, Tells t place line ∧ IsLeast {k | ∃ l, Tells t k l} place
  none : chunkLine? t = none ↔ ∀ place line, ¬ Tells t place line

/-- A message behind the position of a line is told apart into the line and the message, and so is
the failure of what is reported with it. -/
structure IsToldApart (line : Nat) (message : Text) : Prop where
  found : chunkLine? (located line message) = some line
  stripped : stripLocation (located line message) = message.trimStart
  raised : ∀ place own calls, Report.messageText place own = located line message →
    ∃ attributes, (Report.raised place own calls).failure = ⟨some line, .native "RuntimeError"
      (Text.trimStart (splitTraceback (message ++ Report.callsText calls)).1) attributes⟩
  /-- A message without a list of calls is told as it is. -/
  uncut : ¬ '\n' :: tracebackMark <:+: message →
    ∀ calls, (splitTraceback (message ++ Report.callsText calls)).1 = message
  unreadable : ∀ incomplete, ∃ attributes,
    (Report.unreadable line message incomplete).failure =
      ⟨some line, .native "SyntaxError" message.trimStart attributes⟩

/-- **A text tells the line of the first position in it, and none if there is none.** So the failure
of a message behind a position has the line of that position and the message without the blanks in
front of it, whatever positions stand in the message itself. -/
theorem chunkLine?_first (t : Text) {n : Nat} (hn : n < lineLimit) (message : Text) :
    FindsFirst t ∧ IsToldApart n message where
  left := ⟨fun _ => chunkLine?_eq_some_iff, chunkLine?_eq_none_iff⟩
  right := {
    found := chunkLine?_located hn message
    stripped := stripLocation_located n message
    raised := fun _ _ calls hlocated => failure_of_raised hn hlocated calls
    uncut := splitTraceback_callsText
    unreadable := failure_of_unreadable hn message }

/-- The first place is inside a word, the second has no digits, and the third has a number that is
too large; the message behind the fourth holds a position itself. -/
theorem chunkLine?_first_of_four :
    12 < lineLimit ∧
      (∃ place, Tells "mykiln:4: kiln:: kiln:18446744073709551616: kiln:12: x" place 12 ∧
        IsLeast {k | ∃ l, Tells "mykiln:4: kiln:: kiln:18446744073709551616: kiln:12: x" k l}
          place) ∧
      located 12 "kiln:3: x" = "kiln:12: kiln:3: x".toList ∧
      chunkLine? (located 12 "kiln:3: x") = some 12 ∧
      stripLocation (located 12 "kiln:3: x") = "kiln:3: x".toList := by
  have hn : 12 < lineLimit := by decide
  obtain ⟨hfirst, happart⟩ := chunkLine?_first
    "mykiln:4: kiln:: kiln:18446744073709551616: kiln:12: x" hn "kiln:3: x"
  have hfound : chunkLine? "mykiln:4: kiln:: kiln:18446744073709551616: kiln:12: x" = some 12 := by
    decide +kernel
  exact ⟨hn, (hfirst.some 12).1 hfound, by decide, happart.found, happart.stripped⟩

end Stencil.Lua
