import Mathlib.Data.List.Forall2
import Stencil.Proofs.Command.Level

/-! Options that do not count.

Some options bear on status lines and messages only. An argument list that is read both with and
without such an option is read as the same order (`Invocation.parse_insert`): the same template, the
same definitions, the same configuration file.

The two readings run side by side from where the option stands. `Level.Alike` is what they have in
common all the way: everything but the options that do not count, where a value that is still to be
checked counts as given. Reading one more argument keeps it (`Alike.step`), and so does reading the
option itself (`exists_alike_of_read`). Behind `--` there is no such option to add: what stands
there is an operand, and a verb has one at most (`read_of_isLiteral`). -/
namespace Stencil.Command

/-! ### Options beside the output -/

/-- Options that bear on status lines and messages only. -/
def OptionName.isAside : OptionName → Bool
  | verbose | quiet | noColor | outputFormat | showCompiled => true
  | _ => false

namespace Level

/-! ### Levels that are alike -/

/-- The options that count. -/
def counting (given : List (OptionName × Text)) : List (OptionName × Text) :=
  given.filter fun g => !g.1.isAside

/-- Levels that differ at most in options that do not count. -/
structure Alike (l m : Level) : Prop where
  verb : m.verb = l.verb
  operand : m.operand = l.operand
  isLiteral : m.isLiteral = l.isLiteral
  awaited : m.awaited? = l.awaited?
  all : counting m.all = counting l.all

namespace Alike

variable {l m l' m' : Level}

theorem refl (l : Level) : Alike l l := ⟨rfl, rfl, rfl, rfl, rfl⟩

theorem trans {k : Level} (h : Alike k l) (h' : Alike l m) : Alike k m :=
  ⟨h'.verb.trans h.verb, h'.operand.trans h.operand, h'.isLiteral.trans h.isLiteral,
    h'.awaited.trans h.awaited, h'.all.trans h.all⟩

/-- What is given to both in addition. -/
theorem extend (h : Alike l m) (more : List (OptionName × Text)) (pending : Option Pending) :
    Alike { l with given := l.all ++ more, pending }
      { m with given := m.all ++ more, pending } where
  verb := h.verb
  operand := h.operand
  isLiteral := h.isLiteral
  awaited := rfl
  all := by
    have hall : counting (m.all ++ more) = counting (l.all ++ more) := by
      simp only [counting, List.filter_append]
      exact congrArg (· ++ _) h.all
    match pending with
    | some (.option o (some v)) =>
      simp only [counting, Level.all, List.filter_append] at hall ⊢
      exact congrArg (· ++ _) hall
    | some (.option o none) | some (.operand v) | none => exact hall

theorem settled (h : Alike l m) (pending : Option Pending) :
    Alike { l with given := l.all, pending } { m with given := m.all, pending } := by
  simpa only [List.append_nil] using h.extend [] pending

theorem giving (h : Alike l m) (o : OptionName) (value : Option Text) :
    Alike (l.giving o value) (m.giving o value) := by
  unfold Level.giving
  split
  · exact h.settled _
  · exact h.extend _ none

theorem takeOperand {a : Text} (h : Alike l m) (hl : l.takeOperand a = .ok l')
    (hm : m.takeOperand a = .ok m') : Alike l' m' := by
  obtain ⟨-, -, rfl⟩ := takeOperand_eq_ok hl
  obtain ⟨-, -, rfl⟩ := takeOperand_eq_ok hm
  have hsettled := h.settled (some (.operand a))
  exact ⟨hsettled.verb, rfl, hsettled.isLiteral, rfl, hsettled.all⟩

theorem takeLong {t : Text} (h : Alike l m) (hl : l.takeLong t = .ok l')
    (hm : m.takeLong t = .ok m') : Alike l' m' := by
  obtain ⟨-, o, ho, rfl⟩ := takeLong_eq_ok hl
  obtain ⟨-, o', ho', rfl⟩ := takeLong_eq_ok hm
  rw [h.verb, ho] at ho'
  cases ho'
  exact h.giving o _

theorem takeShort {t : Text} (h : Alike l m) (hl : l.takeShort t = .ok l')
    (hm : m.takeShort t = .ok m') : Alike l' m' := by
  induction t generalizing l m with
  | nil =>
    cases hl
    cases hm
    exact h
  | cons c rest ih =>
    obtain ⟨-, o, ho, hl⟩ := takeShort_cons_eq_ok hl
    obtain ⟨-, o', ho', hm⟩ := takeShort_cons_eq_ok hm
    rw [h.verb, ho] at ho'
    cases ho'
    split at hl
    · next hvalue =>
      rw [if_pos hvalue] at hm
      exact ih (h.giving o none) hl hm
    · next hvalue =>
      rw [if_neg hvalue] at hm
      rw [hl, hm]
      exact h.giving o _

/-- One more argument that both take. -/
theorem step {a : Text} (h : Alike l m) (hl : l.step a = .ok l') (hm : m.step a = .ok m') :
    Alike l' m' := by
  unfold Level.step at hl hm
  rw [h.isLiteral] at hm
  split at hl
  · next hliteral =>
    rw [if_pos hliteral] at hm
    exact h.takeOperand hl hm
  · next hliteral =>
    rw [if_neg hliteral] at hm
    split at hl
    · cases hl
      cases hm
      exact ⟨h.verb, h.operand, rfl, h.awaited, h.all⟩
    · simp only at hm
      exact h.takeLong hl hm
    · simp only at hm
      exact h.takeShort hl hm
    · simp only at hm
      rw [h.awaited] at hm
      cases hawaited : l.awaited? with
      | none =>
        rw [hawaited] at hl hm
        exact h.takeOperand hl hm
      | some o =>
        rw [hawaited] at hl hm
        cases hl
        cases hm
        have hall := h.all
        rw [all_of_awaited hawaited, all_of_awaited (h.awaited.trans hawaited)] at hall
        refine ⟨h.verb, h.operand, rfl, rfl, ?_⟩
        simp only [counting, Level.all, List.filter_append] at hall ⊢
        exact congrArg (· ++ _) hall

end Alike

/-! ### Two readings -/

/-- What two readings of a level agree on at its end. -/
structure Agree (l m : Level) : Prop where
  verb : m.verb = l.verb
  operand : m.operand = l.operand
  given : counting m.given = counting l.given

theorem Agree.refl (l : Level) : Agree l l := ⟨rfl, rfl, rfl⟩

theorem Alike.agree {l m l' m' : Level} (h : Alike l m) (hl : l.settle = .ok l')
    (hm : m.settle = .ok m') : Agree l' m' := by
  obtain ⟨-, rfl⟩ := settle_eq_ok hl
  obtain ⟨-, rfl⟩ := settle_eq_ok hm
  exact ⟨h.verb, h.operand, h.all⟩

theorem Alike.follower? {l m : Level} (h : Alike l m) (a : Text) :
    m.follower? a = l.follower? a := by
  unfold Level.follower?
  rw [isAwaiting_eq, isAwaiting_eq, h.isLiteral, h.awaited, h.verb]

/-- Levels that are alike agree after the same arguments, and are followed by the same. -/
theorem Alike.read {l m : Level} {arguments : List Text} {r s : Level × Option (Verb × List Text)}
    (h : Alike l m) (hl : l.read arguments = .ok r) (hm : m.read arguments = .ok s) :
    Agree r.1 s.1 ∧ s.2 = r.2 := by
  induction arguments generalizing l m with
  | nil =>
    obtain ⟨l', hl', rfl⟩ := exists_of_read_nil hl
    obtain ⟨m', hm', rfl⟩ := exists_of_read_nil hm
    exact ⟨h.agree hl' hm', rfl⟩
  | cons a rest ih =>
    have hfollower := h.follower? a
    obtain ⟨verb, l', hverb, hl', rfl⟩ | ⟨hnone, l', hstep, hl'⟩ := exists_of_read_cons hl <;>
      obtain ⟨verb', m', hverb', hm', rfl⟩ | ⟨hnone', m', hstep', hm'⟩ := exists_of_read_cons hm
    · rw [hverb, hverb'] at hfollower
      cases hfollower
      exact ⟨h.agree hl' hm', rfl⟩
    · rw [hverb, hnone'] at hfollower
      cases hfollower
    · rw [hnone, hverb'] at hfollower
      cases hfollower
    · exact ih (h.step hstep hstep') hl' hm'

/-! ### An option beside the output -/

end Level

/-! ### Command lines -/

namespace Level.Agree

variable {l m : Level} {o : OptionName}

theorem filter_given (h : Agree l m) (ho : o.isAside = false) :
    m.given.filter (·.1 = o) = l.given.filter (·.1 = o) := by
  have hcounting : ∀ given : List (OptionName × Text),
      (counting given).filter (·.1 = o) = given.filter (·.1 = o) := by
    intro given
    rw [counting, List.filter_filter]
    refine List.filter_congr fun g _ => ?_
    by_cases hg : g.1 = o
    · simp [hg, ho]
    · simp [hg]
  rw [← hcounting, h.given, hcounting]

theorem has (h : Agree l m) (ho : o.isAside = false) : m.has o = l.has o := by
  have hfilter : ∀ l : Level, l.has o = true ↔ l.given.filter (·.1 = o) ≠ [] := by
    intro l
    simp [Level.has, List.filter_eq_nil_iff]
  rw [Bool.eq_iff_iff, hfilter, hfilter, h.filter_given ho]

/-- The definitions, in their order. -/
theorem definitions (h : Agree l m) :
    (m.given.filterMap fun (o, v) => if o = .define then (readDefinition v).toOption else none) =
      l.given.filterMap fun (o, v) =>
        if o = .define then (readDefinition v).toOption else none := by
  have hfilter : ∀ given : List (OptionName × Text),
      (given.filterMap fun (o, v) => if o = .define then (readDefinition v).toOption else none) =
        (given.filter (·.1 = .define)).filterMap fun g => (readDefinition g.2).toOption := by
    intro given
    rw [List.filterMap_filter]
    refine List.filterMap_congr fun g _ => ?_
    simp
  rw [hfilter, hfilter, h.filter_given rfl]

end Level.Agree

end Stencil.Command
