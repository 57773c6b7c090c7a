import Mathlib.Data.List.TakeWhile
import Stencil.Lua.Engine
import Stencil.Proofs.Text.Decimal
import Stencil.Proofs.Text.Parts

/-! The line that a message tells.

The line of a failure is that of the first position in a text. A text that begins with a position
tells its line (`chunkLine?_position`), whatever follows; of a list of calls the first position that
stands in any of them is told, be it the place of the function that was under way or in what the
function is called (`line_of_traceback`). -/
namespace Stencil

/-! ### Stops -/

namespace Text

theorem takeWhile_append_cons {p : Char → Bool} {c : Char} (hc : p c = false) (t rest : Text) :
    (t ++ c :: rest).takeWhile p = t.takeWhile p := by
  induction t with
  | nil => exact List.takeWhile_cons_of_neg (Bool.eq_false_iff.1 hc)
  | cons d ds ih =>
    rw [List.cons_append, List.takeWhile_cons, List.takeWhile_cons, ih]

theorem dropWhile_append_cons {p : Char → Bool} {c : Char} (hc : p c = false) (t rest : Text) :
    (t ++ c :: rest).dropWhile p = t.dropWhile p ++ c :: rest := by
  induction t with
  | nil => exact List.dropWhile_cons_of_neg (Bool.eq_false_iff.1 hc)
  | cons d ds ih =>
    rw [List.cons_append, List.dropWhile_cons, List.dropWhile_cons, ih]
    split
    · rfl
    · rfl

end Text

namespace Lua

variable {line : Nat} {t : Text}

/-! ### Positions -/

theorem lineAt?_position (hline : line < lineLimit) (rest : Text) :
    lineAt? (positionMark ++ (Text.ofNat line ++ ':' :: rest)) = some line := by
  unfold lineAt?
  rw [Text.after?_append]
  dsimp only [Option.bind_eq_bind, Option.bind_some]
  have hdigits : ∀ c ∈ Text.ofNat line, isAsciiDigit c = true := fun c =>
    Text.isAsciiDigit_of_mem_ofNat
  rw [Text.takeWhile_append_cons (by decide), Text.dropWhile_append_cons (by decide),
    List.takeWhile_eq_self_iff.2 hdigits, List.dropWhile_eq_nil_iff.2 hdigits,
    Text.digitsValue_ofNat]
  exact if_pos ⟨Text.ofNat_ne_nil line, rfl, hline⟩

theorem lineAt?_cons_of_ne {c : Char} (hc : c ≠ 'k') (t : Text) : lineAt? (c :: t) = none := by
  have hafter : Text.after? positionMark (c :: t) = none :=
    Text.after?_of_head_ne (by decide) (fun p hp => by cases hp; exact hc.symm) t
  rw [lineAt?, hafter]
  rfl

theorem chunkLine?_of_lineAt? (h : lineAt? t = some line) : chunkLine? t = some line := by
  cases t with
  | nil => cases h
  | cons c cs =>
    show Option.or (lineAt? (c :: cs)) _ = _
    rw [h]
    rfl

/-- The line of the position that a text begins with is told. -/
theorem chunkLine?_position (hline : line < lineLimit) (rest : Text) :
    chunkLine? (positionMark ++ (Text.ofNat line ++ ':' :: rest)) = some line :=
  chunkLine?_of_lineAt? (lineAt?_position hline rest)

/-- A text without the first letter of a position tells no line. -/
theorem lineIn?_of_not_mem (h : 'k' ∉ t) (previous : Option Char) : lineIn? previous t = none := by
  induction t generalizing previous with
  | nil => rfl
  | cons c cs ih =>
    rw [lineIn?, lineAt?_cons_of_ne (List.ne_of_not_mem_cons h).symm, ite_self,
      ih (List.not_mem_of_not_mem_cons h)]
    rfl

theorem chunkLine?_of_not_mem (h : 'k' ∉ t) : chunkLine? t = none := lineIn?_of_not_mem h none

/-! ### Separators -/

/-- A character that stands in no position and in no word. -/
def IsSeparator (c : Char) : Prop :=
  c ∉ positionMark ∧ isAsciiDigit c = false ∧ isWordChar c = false

instance (c : Char) : Decidable (IsSeparator c) := inferInstanceAs (Decidable (_ ∧ _))

variable {sep : Char}

/-- A position ends before a separator. -/
theorem lineAt?_append (hsep : IsSeparator sep) (t more : Text) :
    lineAt? (t ++ sep :: more) = lineAt? t := by
  unfold lineAt?
  cases hafter : Text.after? positionMark t with
  | none =>
    rw [Text.after?_append_cons_of_none hafter hsep.1]
  | some rest =>
    rw [Text.after?_append_of_some hafter]
    dsimp only [Option.bind_eq_bind, Option.bind_some]
    have hcolon : (rest.dropWhile isAsciiDigit ++ sep :: more).head? = some ':' ↔
        (rest.dropWhile isAsciiDigit).head? = some ':' := by
      cases rest.dropWhile isAsciiDigit with
      | nil =>
        have hne : sep ≠ ':' := fun heq => hsep.1 (heq ▸ by decide)
        simp [hne]
      | cons c cs => exact Iff.rfl
    simp only [Text.takeWhile_append_cons hsep.2.1, Text.dropWhile_append_cons hsep.2.1, hcolon]

theorem lineIn?_append (hsep : IsSeparator sep) (previous : Option Char) (t more : Text) :
    lineIn? previous (t ++ sep :: more) = (lineIn? previous t).or (chunkLine? more) := by
  induction t generalizing previous with
  | nil =>
    have hne : sep ≠ 'k' := fun heq => hsep.1 (heq ▸ by decide)
    have hword : lineIn? (some sep) more = chunkLine? more := by
      cases more with
      | nil => rfl
      | cons c cs =>
        show Option.or (if isWordChar sep = true then none else lineAt? (c :: cs)) _ = _
        rw [hsep.2.2]
        rfl
    show Option.or (if _ then none else lineAt? (sep :: more)) (lineIn? (some sep) more) = _
    rw [lineAt?_cons_of_ne hne, ite_self, hword]
    rfl
  | cons c cs ih =>
    rw [List.cons_append, lineIn?, lineIn?, ih, ← List.cons_append, lineAt?_append hsep,
      Option.or_assoc]

/-- A position stands before a separator or behind it. -/
theorem chunkLine?_append (hsep : IsSeparator sep) (t more : Text) :
    chunkLine? (t ++ sep :: more) = (chunkLine? t).or (chunkLine? more) :=
  lineIn?_append hsep none t more

theorem chunkLine?_cons (hsep : IsSeparator sep) (more : Text) :
    chunkLine? (sep :: more) = chunkLine? more := chunkLine?_append hsep [] more

/-! ### Calls -/

/-- The lines of a script, and any lines of what is run before it. -/
def OnScript (Q : Nat → Prop) (chunk : Text) (line : Nat) : Prop :=
  chunk = scriptName ∧ Q line ∨ chunk = strictName

theorem chunkLine?_levelText (call : Level) :
    chunkLine? call.text = (chunkLine? call.placeText).or (chunkLine? call.name) := by
  have heq : call.text =
      [] ++ '\n' :: ([] ++ '\t' :: (call.placeText ++ ' ' :: ("in".toList ++ ' ' :: call.name))) := by
    show "\n\t".toList ++ call.placeText ++ " in ".toList ++ call.name = _
    simp
  have hnil : chunkLine? [] = none := rfl
  have hin : chunkLine? "in".toList = none := by decide
  rw [heq, chunkLine?_append (by decide), chunkLine?_append (by decide),
    chunkLine?_append (by decide), chunkLine?_append (by decide), hnil, hin]
  rfl

section
variable {Q : Nat → Prop} (hQ : ∀ l, Q l → l < lineLimit)
include hQ

theorem line_of_placeText {call : Level} (hcall : ∀ p ∈ call.place, OnScript Q p.chunk p.line)
    (h : chunkLine? call.placeText = some line) : Q line := by
  unfold Level.placeText at h
  split at h
  · next p hp =>
    rcases hcall p hp with ⟨hchunk, hline⟩ | hchunk
    · have heq : p.chunk ++ ":".toList ++ Text.ofNat p.line ++ ":".toList =
          positionMark ++ (Text.ofNat p.line ++ ':' :: []) := by
        rw [hchunk]
        exact List.append_assoc _ _ _
      rw [heq, chunkLine?_position (hQ _ hline)] at h
      exact Option.some.inj h ▸ hline
    · have hk : 'k' ∉ p.chunk ++ ":".toList ++ Text.ofNat p.line ++ ":".toList := by
        rw [hchunk]
        simp only [List.mem_append, not_or]
        exact ⟨⟨⟨by decide, by decide⟩, Text.not_mem_ofNat (by decide) _⟩, by decide⟩
      rw [chunkLine?_of_not_mem hk] at h
      cases h
  · have hnone : chunkLine? "[C]:".toList = none := by decide
    rw [hnone] at h
    cases h

omit hQ in
/-- The first position in pieces that begin on lines of their own is in one of them. -/
theorem exists_of_chunkLine?_flatten {pieces : List Text} (hpieces : ∀ p ∈ pieces, p.head? = some '\n')
    {t : Text} (h : chunkLine? (t ++ pieces.flatten) = some line) :
    chunkLine? t = some line ∨ ∃ p ∈ pieces, chunkLine? p = some line := by
  induction pieces generalizing t with
  | nil =>
    rw [List.flatten_nil, List.append_nil] at h
    exact .inl h
  | cons p pieces ih =>
    obtain ⟨hp, hrest⟩ := List.forall_mem_cons.1 hpieces
    obtain ⟨body, rfl⟩ : ∃ body, p = '\n' :: body := List.head?_eq_some_iff.1 hp
    rw [List.flatten_cons, List.cons_append, chunkLine?_append (by decide)] at h
    rcases Option.or_eq_some_iff.1 h with h | ⟨-, h⟩
    · exact .inl h
    · have hbody : chunkLine? ('\n' :: body) = chunkLine? body := chunkLine?_cons (by decide) body
      rcases ih hrest h with h | ⟨p, hp, h⟩
      · exact .inr ⟨_, List.mem_cons_self, hbody.trans h⟩
      · exact .inr ⟨p, List.mem_cons_of_mem _ hp, h⟩

omit hQ in
theorem chunkLine?_skipped (n : Nat) :
    chunkLine? ("\n\t...\t(skipping ".toList ++ Text.ofNat n ++ " levels)".toList) = none := by
  have heq : "\n\t...\t(skipping ".toList ++ Text.ofNat n ++ " levels)".toList =
      "\n\t...\t(skipping".toList ++ ' ' :: (Text.ofNat n ++ ' ' :: "levels)".toList) := by
    simp
  have hbefore : chunkLine? "\n\t...\t(skipping".toList = none := by decide
  have hbehind : chunkLine? "levels)".toList = none := by decide
  rw [heq, chunkLine?_append (by decide), chunkLine?_append (by decide), hbefore, hbehind,
    chunkLine?_of_not_mem (Text.not_mem_ofNat (by decide) n)]
  rfl

omit hQ in
theorem mem_toldCalls {calls : List Text} {p : Text} (h : p ∈ toldCalls calls) :
    p ∈ calls ∨ p.head? = some '\n' ∧ chunkLine? p = none := by
  unfold toldCalls at h
  split at h
  · exact .inl h
  · simp only [List.mem_append, List.mem_cons] at h
    rcases h with h | rfl | h
    · exact .inl (List.mem_of_mem_take h)
    · exact .inr ⟨rfl, chunkLine?_skipped _⟩
    · exact .inl (List.mem_of_mem_drop h)

/-- The line that is told with the calls under way is a line of the script, unless a function has a
name with that line in a position. -/
theorem line_of_traceback {calls : List Level}
    (hcalls : ∀ call ∈ calls, ∀ p ∈ call.place, OnScript Q p.chunk p.line)
    (h : chunkLine? (traceback calls) = some line) :
    Q line ∨ ∃ call ∈ calls, chunkLine? call.name = some line := by
  have hheads : ∀ p ∈ toldCalls (calls.map Level.text), p.head? = some '\n' := by
    intro p hp
    rcases mem_toldCalls hp with hp | ⟨hp, -⟩
    · obtain ⟨call, -, rfl⟩ := List.mem_map.1 hp
      rfl
    · exact hp
  rcases exists_of_chunkLine?_flatten hheads h with h | ⟨p, hp, h⟩
  · have hmark : chunkLine? tracebackMark = none := by decide
    rw [hmark] at h
    cases h
  · rcases mem_toldCalls hp with hp | ⟨-, hnone⟩
    · obtain ⟨call, hcall, rfl⟩ := List.mem_map.1 hp
      rw [chunkLine?_levelText] at h
      rcases Option.or_eq_some_iff.1 h with h | ⟨-, h⟩
      · exact .inl (line_of_placeText hQ (hcalls call hcall) h)
      · exact .inr ⟨call, hcall, h⟩
    · rw [hnone] at h
      cases h

end

/-! ### Messages -/

/-- A text without a line feed at the start of a message stays there when the calls are taken off its
end. -/
theorem splitTraceback_append {before : Text} (hbefore : '\n' ∉ before) (t : Text) :
    ∃ rest, (splitTraceback (before ++ t)).1 = before ++ rest := by
  unfold splitTraceback
  split
  · next cut behind hcut =>
    have heq := Text.cut?_eq_some hcut
    rw [List.append_assoc] at heq
    rcases List.append_eq_append_iff.1 heq with ⟨rest, hrest, -⟩ | ⟨rest, hbefore', hrest⟩
    · exact ⟨rest, hrest⟩
    · cases rest with
      | nil => exact ⟨[], by rw [hbefore', List.append_nil, List.append_nil]⟩
      | cons c rest =>
        obtain rfl := (List.cons.inj hrest).1
        exact absurd (hbefore' ▸ List.mem_append_right _ List.mem_cons_self) hbefore
  · exact ⟨t, rfl⟩

theorem position_of_script (line : Nat) :
    Place.position ⟨scriptName, line⟩ = positionMark ++ (Text.ofNat line ++ ": ".toList) :=
  List.append_assoc _ _ _

/-- A message behind the position of a line of the script tells that line. -/
theorem chunkLine?_messageText (hline : line < lineLimit) (message : Text) :
    chunkLine? (Report.messageText (some ⟨scriptName, line⟩) message) = some line := by
  show chunkLine? (Place.position ⟨scriptName, line⟩ ++ message) = _
  rw [position_of_script, List.append_assoc, List.append_assoc]
  exact chunkLine?_position hline _

/-- So it does with calls behind it. -/
theorem chunkLine?_splitTraceback (hline : line < lineLimit) (message : Text) :
    chunkLine? (splitTraceback (Report.messageText (some ⟨scriptName, line⟩) message)).1 =
      some line := by
  have hfeed : '\n' ∉ Place.position ⟨scriptName, line⟩ := by
    rw [position_of_script]
    simp only [List.mem_append, not_or]
    exact ⟨by decide, Text.not_mem_ofNat (by decide) _, by decide⟩
  obtain ⟨rest, hrest⟩ := splitTraceback_append hfeed message
  show chunkLine? (splitTraceback (Place.position ⟨scriptName, line⟩ ++ message)).1 = _
  rw [hrest]
  exact chunkLine?_messageText hline rest

/-- **The line of a report is that of one of its places**, unless the report misleads. -/
theorem Report.line_of_failure {Q : Nat → Prop} (hQ : ∀ l, Q l → l < lineLimit) {report : Report}
    (hplaces : ∀ p ∈ report.places, OnScript Q p.chunk p.line)
    (h : report.failure.line = some line) : Q line ∨ report.Misleads line := by
  have hscript {l : Nat} (h : OnScript Q scriptName l) : Q l :=
    h.elim And.right fun h => absurd h (by decide)
  cases report with
  | unreadable l complaint incomplete =>
    have hl := hscript (hplaces _ (List.mem_singleton_self _))
    have heq := (chunkLine?_messageText (hQ l hl) complaint).symm.trans h
    exact .inl (Option.some.inj heq ▸ hl)
  | raised place message calls =>
    by_cases hplace : ∃ l, place = some ⟨scriptName, l⟩
    · obtain ⟨l, rfl⟩ := hplace
      have hl := hscript (hplaces _ (List.mem_append_left _ (List.mem_singleton_self _)))
      have htold := chunkLine?_splitTraceback (hQ l hl) (message ++ callsText calls)
      have hassoc : messageText (some ⟨scriptName, l⟩) message ++ callsText calls =
          messageText (some ⟨scriptName, l⟩) (message ++ callsText calls) := List.append_assoc _ _ _
      rw [← hassoc] at htold
      exact .inl (Option.some.inj (htold.symm.trans h) ▸ hl)
    · refine .inr (.message (fun p hp hchunk => hplace ⟨p.line, ?_⟩) h)
      rw [hp, ← hchunk]
  | failed calls cause =>
    cases calls with
    | none => cases h
    | some calls =>
      have hcalls : ∀ call ∈ calls, ∀ p ∈ call.place, OnScript Q p.chunk p.line :=
        fun call hcall p hp => hplaces p (List.mem_filterMap.2 ⟨call, hcall, hp⟩)
      have hfeed : chunkLine? ('\n' :: traceback calls) = chunkLine? (traceback calls) :=
        chunkLine?_cons (by decide) _
      refine (line_of_traceback hQ hcalls (hfeed.symm.trans h)).imp_right ?_
      rintro ⟨call, hcall, hname⟩
      exact .name hcall hname
  | stopped kind message => cases h

/-- What is raised behind a position of the script does not mislead. -/
theorem Report.not_misleads_of_script {l : Nat} {message : Text} {calls : Option (List Level)} :
    ¬(Report.raised (some ⟨scriptName, l⟩) message calls).Misleads line := by
  rintro (⟨hplace, -⟩)
  exact hplace _ rfl rfl

end Lua
end Stencil
