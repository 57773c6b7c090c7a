import Stencil.Lua.Library
import Stencil.Proofs.Text.Utf8

/-! Tables with texts as keys.

A text is never the place of an item, so under it stands what was last assigned to it
(`getText_setText`). The tables that scripts begin with are built by such assignments. -/
namespace Stencil.Lua

namespace Value

theorem ofText_injective {a b : Text} (h : ofText a = ofText b) : a = b :=
  Text.bytes_injective (Value.string.inj h)

theorem eq_nil_of_isNil {v : Value} (h : v.isNil = true) : v = nil := by
  cases v with
  | nil => rfl
  | _ => cases h

end Value

namespace Object

theorem field_setField (key other value : Value) (fields : List (Value × Value)) :
    field (setField key value fields) other = if key = other then value else field fields other := by
  induction fields with
  | nil =>
    unfold setField
    by_cases hnil : value.isNil = true
    · rw [if_pos hnil, Value.eq_nil_of_isNil hnil]
      exact (ite_self _).symm
    · rw [if_neg hnil]
      by_cases hkey : key = other
      · simp [field, hkey]
      · simp [field, hkey]
  | cons e rest ih =>
    obtain ⟨k, v⟩ := e
    unfold setField
    by_cases hk : k = key
    · rw [if_pos hk]
      by_cases hkey : key = other
      · simp [field, hk, hkey]
      · simp [field, hk, hkey]
    · rw [if_neg hk]
      by_cases hother : k = other
      · rw [if_neg fun h => hk (hother.trans h.symm)]
        simp [field, hother]
      · have hskip : ∀ fields, field ((k, v) :: fields) other = field fields other := by
          intro fields
          simp [field, hother]
        rw [hskip, hskip, ih]

theorem getText_eq (o : Object) (name : Text) : o.getText name = field o.fields (.ofText name) := rfl

theorem setText_eq (o : Object) (name : Text) (v : Value) :
    o.setText name v = { o with fields := setField (.ofText name) v o.fields } := rfl

/-- A table holds what it was given last. -/
theorem getText_setText (o : Object) (name other : Text) (v : Value) :
    (o.setText name v).getText other = if name = other then v else o.getText other := by
  rw [setText_eq, getText_eq, field_setField, getText_eq]
  by_cases h : name = other
  · rw [if_pos h, if_pos (congrArg Value.ofText h)]
  · rw [if_neg h, if_neg fun heq => h (Value.ofText_injective heq)]

/-! ### Tables of functions -/

theorem mem_setField {key value : Value} {fields : List (Value × Value)} {e : Value × Value}
    (h : e ∈ setField key value fields) : e = (key, value) ∨ e ∈ fields := by
  induction fields with
  | nil =>
    unfold setField at h
    split at h
    · cases h
    · exact .inl (List.mem_singleton.1 h)
  | cons first rest ih =>
    obtain ⟨k, v⟩ := first
    unfold setField at h
    split at h
    · next hk =>
      rcases List.mem_cons.1 h with h | h
      · rw [hk] at h
        exact .inl h
      · exact .inr (List.mem_cons_of_mem _ h)
    · rcases List.mem_cons.1 h with h | h
      · exact .inr (h ▸ List.mem_cons_self ..)
      · exact (ih h).imp id (List.mem_cons_of_mem _)

end Object

/-- The keys of a table of functions are their names. -/
theorem mem_fields_tableOf {α : Type} {value : α → Value} {entries : List (Text × α)}
    {e : Value × Value} (h : e ∈ (tableOf value entries).fields) :
    ∃ name ∈ entries.map Prod.fst, e.1 = .ofText name := by
  have hfold : ∀ (rest : List (Text × α)) (o : Object),
      (∀ e ∈ o.fields, ∃ name ∈ entries.map Prod.fst, e.1 = .ofText name) →
      (∀ entry ∈ rest, entry ∈ entries) →
      ∀ e ∈ (rest.foldl (fun o entry => o.setText entry.1 (value entry.2)) o).fields,
        ∃ name ∈ entries.map Prod.fst, e.1 = .ofText name := by
    intro rest
    induction rest with
    | nil => exact fun o ho _ => ho
    | cons entry rest ih =>
      intro o ho hrest
      refine ih _ ?_ fun entry hentry => hrest entry (List.mem_cons_of_mem _ hentry)
      intro e he
      rcases Object.mem_setField he with rfl | he
      · exact ⟨entry.1, List.mem_map_of_mem (hrest entry (List.mem_cons_self ..)), rfl⟩
      · exact ho e he
  exact hfold entries {} (fun e he => absurd he List.not_mem_nil) (fun _ hentry => hentry) e h

end Stencil.Lua
