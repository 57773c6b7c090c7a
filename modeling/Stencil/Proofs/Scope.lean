import Mathlib.Data.List.TakeWhile
import Stencil.Proofs.Table
import Stencil.Proofs.Text.Utf8
import Stencil.Scope

/-! Scopes as maps.

Each update of a scope does to what the names hold what it does to a map (`get?_update`), so after
any of them a scope is the map that they come to, listed in byte order (`lists_after`), and answers
for it. Of a list of string variables those before the first name that is none for a variable are
set, whatever follows (`mergeStrings_eq`). `after_isOrderedMap` puts this together. -/
namespace Stencil.Scope

/-! ### String variables -/

/-- The string variables up to the first name that is none for a variable, as entries. -/
def settable (pairs : List (Text × Text)) : List (Text × Json) :=
  (pairs.takeWhile fun p => isVariableName p.1).map fun p => (p.1, .string p.2)

/-- What is said of the first name that is none for a variable. -/
def fault? (pairs : List (Text × Text)) : Option InputError :=
  (pairs.find? fun p => !isVariableName p.1).map fun p => .variableName p.1

theorem settable_cons (p : Text × Text) (rest : List (Text × Text)) :
    settable (p :: rest) =
      if isVariableName p.1 then (p.1, .string p.2) :: settable rest else [] := by
  unfold settable
  split
  · next h => rw [List.takeWhile_cons_of_pos (by exact h), List.map_cons]
  · next h => rw [List.takeWhile_cons_of_neg (by exact h), List.map_nil]

theorem fault?_cons (p : Text × Text) (rest : List (Text × Text)) :
    fault? (p :: rest) =
      if isVariableName p.1 then fault? rest else some (.variableName p.1) := by
  unfold fault?
  split
  · next h => rw [List.find?_cons_of_neg (by simpa using h)]
  · next h =>
    rw [List.find?_cons_of_pos (by simpa using h)]
    rfl

/-- The variables before the first name that is none for a variable are set, in order. -/
theorem mergeStrings_eq (s : Scope) (pairs : List (Text × Text)) :
    s.mergeStrings pairs =
      ((settable pairs).foldl (fun s (name, value) => s.insert name value) s,
        match fault? pairs with
        | some e => .error e
        | none => .ok ()) := by
  induction pairs generalizing s with
  | nil => rfl
  | cons p rest ih =>
    rw [settable_cons, fault?_cons, mergeStrings, tryInsert]
    by_cases hname : isVariableName p.1 = true
    · rw [if_pos hname, if_pos hname, if_pos hname]
      exact ih _
    · rw [if_neg hname, if_neg hname, if_neg hname]
      rfl

inductive Update
  /-- A variable set while the scope is put together. -/
  | withVariable (name : Text) (value : Json)
  | insert (name : Text) (value : Json)
  | tryInsert (name : Text) (value : Json)
  | merge (other : Scope)
  | mergeStrings (pairs : List (Text × Text))

inductive Answer
  | done
  /-- The value that the name had. -/
  | previous (value : Option Json)
  | refused (e : InputError)

/-- What an update answers, and the scope after it. -/
def update (s : Scope) : Update → Answer × Scope
  | .withVariable name value => (.done, s.insert name value)
  | .insert name value => (.previous (s.get? name), s.insert name value)
  | .tryInsert name value =>
    match s.tryInsert name value with
    | .ok after => (.previous (s.get? name), after)
    | .error e => (.refused e, s)
  | .merge other => (.done, s.merge other)
  | .mergeStrings pairs =>
    match s.mergeStrings pairs with
    | (after, .ok ()) => (.done, after)
    | (after, .error e) => (.refused e, after)

/-- The scope after some updates. -/
def after (s : Scope) (updates : List Update) : Scope :=
  updates.foldl (fun s u => (s.update u).2) s

/-! ### The map -/

/-- What an update does to a map from names to values. -/
def Update.apply (m : Text → Option Json) : Update → Text → Option Json
  | withVariable name value | insert name value => Function.update m name (some value)
  | tryInsert name value =>
    if isVariableName name then Function.update m name (some value) else m
  | merge other => fun name => (other.get? name).or (m name)
  | mergeStrings pairs => fun name => (Table.latest? name (settable pairs)).or (m name)

/-- What an update of a map answers. -/
def Update.answer (m : Text → Option Json) : Update → Answer
  | withVariable _ _ | merge _ => .done
  | insert name _ => .previous (m name)
  | tryInsert name _ =>
    if isVariableName name then .previous (m name) else .refused (.variableName name)
  | mergeStrings pairs =>
    match fault? pairs with
    | some e => .refused e
    | none => .done

theorem get?_insert_eq (s : Scope) (name : Text) (value : Json) :
    (s.insert name value).get? = Function.update s.get? name (some value) := by
  funext other
  rw [Table.get?_insert, Function.update_apply]
  exact if_congr eq_comm rfl rfl

/-- One update does to what the names of a scope hold what it does to a map. -/
theorem get?_update (s : Scope) (u : Update) : (s.update u).2.get? = u.apply s.get? := by
  cases u with
  | withVariable name value => exact get?_insert_eq s name value
  | insert name value => exact get?_insert_eq s name value
  | tryInsert name value =>
    rw [update, tryInsert, Update.apply]
    by_cases hname : isVariableName name = true
    · rw [if_pos hname, if_pos hname]
      exact get?_insert_eq s name value
    · rw [if_neg hname, if_neg hname]
  | merge other =>
    funext name
    exact Table.get?_merge s other name
  | mergeStrings pairs =>
    funext name
    rw [update, mergeStrings_eq]
    refine Eq.trans ?_ (Table.get?_foldl_insert s (settable pairs) name)
    cases fault? pairs with
    | some e => rfl
    | none => rfl

theorem fst_update (s : Scope) (u : Update) : (s.update u).1 = u.answer s.get? := by
  cases u with
  | withVariable name value => rfl
  | insert name value => rfl
  | tryInsert name value =>
    rw [update, tryInsert, Update.answer]
    by_cases hname : isVariableName name = true
    · rw [if_pos hname, if_pos hname]
    · rw [if_neg hname, if_neg hname]
  | merge other => rfl
  | mergeStrings pairs =>
    rw [update, mergeStrings_eq, Update.answer]
    cases fault? pairs with
    | some e => rfl
    | none => rfl

theorem get?_after (s : Scope) (updates : List Update) :
    (after s updates).get? = updates.foldl Update.apply s.get? := by
  induction updates generalizing s with
  | nil => rfl
  | cons u rest ih => rw [List.foldl_cons, ← get?_update, ← ih]; rfl

/-! ### Scopes that list a map -/

/-- The entries of the scope are those of the map, each name once and in byte order. -/
structure Lists (s : Scope) (m : Text → Option Json) : Prop where
  get? : ∀ name, s.get? name = m name
  mem_iff : ∀ name value, (name, value) ∈ s.entries ↔ m name = some value
  sorted : s.entries.Pairwise fun a b => a.1.bytes < b.1.bytes

theorem lists_get? (s : Scope) : s.Lists s.get? where
  get? _ := rfl
  mem_iff _ _ := Table.mem_entries_iff
  sorted := s.sorted.imp Text.bytes_lt

theorem lists_after (s : Scope) (updates : List Update) :
    (after s updates).Lists (updates.foldl Update.apply s.get?) :=
  get?_after s updates ▸ lists_get? _

/-- A scope that merges others over it: of two values of a name the upper one counts, to merge a
scope again changes nothing, and it does not matter which of two merges is made first. -/
structure MergesOver (s : Scope) : Prop where
  upper : ∀ other name, (Table.merge s other).get? name = (other.get? name).or (s.get? name)
  self : Table.merge s s = s
  again : ∀ other, (Table.merge s other).merge other = Table.merge s other
  assoc : ∀ middle upper, (Table.merge s middle).merge upper = Table.merge s (middle.merge upper)

theorem mergesOver (s : Scope) : s.MergesOver where
  upper := Table.get?_merge s
  self := Table.merge_self s
  again := Table.merge_merge_self s
  assoc := Table.merge_assoc s

/-- **A scope is an ordered map.** After any updates it lists the map that they come to, and the
next update answers for that map. One that is refused a name leaves the scope as it is; merges are
those of maps; and of a list of string variables those before the first name that is none for a
variable are set, in order, with that name told if there is one. -/
theorem after_isOrderedMap (s : Scope) (updates : List Update) :
    let reached := after s updates
    let m := updates.foldl Update.apply s.get?
    reached.Lists m ∧
      (∀ u, (reached.update u).1 = u.answer m ∧ (reached.update u).2.Lists (u.apply m)) ∧
      (∀ name value, isVariableName name = false →
        reached.update (.tryInsert name value) = (.refused (.variableName name), reached)) ∧
      reached.MergesOver ∧
      ∀ pairs,
        (reached.update (.mergeStrings pairs)).2 =
            (settable pairs).foldl (fun s (name, value) => s.insert name value) reached ∧
          ∀ e, (reached.update (.mergeStrings pairs)).1 = .refused e ↔ fault? pairs = some e := by
  intro reached m
  have hm : reached.get? = m := get?_after s updates
  refine ⟨lists_after s updates, fun u => ⟨?_, ?_⟩, fun name value hname => ?_, reached.mergesOver,
    fun pairs => ?_⟩
  · rw [fst_update, hm]
  · rw [← hm, ← get?_update]
    exact lists_get? _
  · rw [update, tryInsert, hname]
    rfl
  · rw [update, mergeStrings_eq]
    cases hfault : fault? pairs with
    | some e => simp
    | none => simp

/-- A name that is none for a variable stands between others. -/
example :
    let s := after .empty [.insert "b" .null, .tryInsert "no name" .null,
      .mergeStrings [("c", "1"), ("a", "2"), ("c", "3"), ("end", "4"), ("d", "5")]]
    s.names = ["a", "b", "c"].map String.toList ∧ s.get? "c" = some (.string "3") :=
  ⟨by decide +kernel, rfl⟩

end Stencil.Scope
