import Mathlib.Data.List.Induction
import Mathlib.Data.List.Nodup
import Stencil.Table

/-! Tables as maps.

A table is known from what its names hold (`ext_get?`), as its entries stand in one order. So what
is shown of `get?` is shown of the table itself: a name holds what the latest of some insertions
gave it (`get?_foldl_insert`), and of two tables that are merged the upper one counts
(`get?_merge`). -/
namespace Stencil.Table

variable {α : Type} {name : Text} {value : α}

/-! ### Entries -/

theorem nodup_names (t : Table α) : t.names.Nodup := by
  refine List.pairwise_map.2 (t.sorted.imp fun h heq => ?_)
  rw [heq] at h
  exact List.lt_irrefl _ h

theorem mem_entries_iff {t : Table α} : (name, value) ∈ t.entries ↔ t.get? name = some value := by
  unfold get?
  constructor
  · intro h
    have hsome : (t.entries.find? (·.1 = name)).isSome := by
      rw [List.find?_isSome]
      exact ⟨_, h, decide_eq_true rfl⟩
    obtain ⟨e, hfind⟩ := Option.isSome_iff_exists.1 hsome
    have hname : e.1 = name := by simpa using List.find?_some hfind
    have heq : e = (name, value) :=
      List.inj_on_of_nodup_map t.nodup_names (List.mem_of_find?_eq_some hfind) h hname
    rw [hfind, heq]
    rfl
  · intro h
    obtain ⟨e, hfind, rfl⟩ := Option.map_eq_some_iff.1 h
    have hname : e.1 = name := by simpa using List.find?_some hfind
    exact hname ▸ List.mem_of_find?_eq_some hfind

/-- Tables whose names hold the same are the same. -/
theorem ext_get? {t u : Table α} (h : ∀ name, t.get? name = u.get? name) : t = u := by
  have hmem : ∀ e, e ∈ t.entries ↔ e ∈ u.entries := fun (name, value) => by
    rw [mem_entries_iff, mem_entries_iff, h]
  have hperm : t.entries.Perm u.entries :=
    (List.perm_ext_iff_of_nodup t.nodup_names.of_map u.nodup_names.of_map).2 hmem
  have hentries : t.entries = u.entries :=
    hperm.eq_of_pairwise (fun a b _ _ hab hba => absurd hba (List.lt_asymm hab)) t.sorted u.sorted
  cases t
  cases u
  exact (Table.mk.injEq ..).mpr hentries

/-! ### Several insertions -/

/-- The value of the last entry that has a name. -/
def latest? (name : Text) (entries : List (Text × α)) : Option α :=
  ((entries.filter (·.1 = name)).getLast?).map Prod.snd

theorem latest?_concat (name : Text) (entries : List (Text × α)) (e : Text × α) :
    latest? name (entries ++ [e]) = if e.1 = name then some e.2 else latest? name entries := by
  unfold latest?
  rw [List.filter_append]
  by_cases h : e.1 = name
  · simp [h]
  · simp [h]

theorem mem_of_latest? {entries : List (Text × α)} (h : latest? name entries = some value) :
    (name, value) ∈ entries := by
  obtain ⟨e, hlast, rfl⟩ := Option.map_eq_some_iff.1 h
  obtain ⟨hmem, hname⟩ := List.mem_filter.1 (List.mem_of_getLast? hlast)
  exact of_decide_eq_true hname ▸ hmem

theorem latest?_eq_none_iff {entries : List (Text × α)} :
    latest? name entries = none ↔ ∀ e ∈ entries, e.1 ≠ name := by
  simp [latest?]

/-- Of the entries of a table at most one has a name. -/
theorem latest?_entries (t : Table α) (name : Text) : latest? name t.entries = t.get? name := by
  cases hlatest : latest? name t.entries with
  | some value => exact (mem_entries_iff.1 (mem_of_latest? hlatest)).symm
  | none =>
    refine (Option.eq_none_iff_forall_ne_some.2 fun value h => ?_).symm
    exact latest?_eq_none_iff.1 hlatest _ (mem_entries_iff.2 h) rfl

/-- Of several insertions under a name the last one counts. -/
theorem get?_foldl_insert (t : Table α) (entries : List (Text × α)) (name : Text) :
    (entries.foldl (fun t (name, value) => t.insert name value) t).get? name =
      (latest? name entries).or (t.get? name) := by
  induction entries using List.reverseRecOn with
  | nil => rfl
  | append_singleton entries e ih =>
    rw [List.foldl_concat, get?_insert, ih, latest?_concat]
    split
    · rfl
    · rfl

/-! ### Two tables -/

theorem get?_merge (t upper : Table α) (name : Text) :
    (t.merge upper).get? name = (upper.get? name).or (t.get? name) := by
  rw [merge, get?_foldl_insert, latest?_entries]

/-- A table over itself is that table. -/
theorem merge_self (t : Table α) : t.merge t = t :=
  ext_get? fun name => by rw [get?_merge, Option.or_self]

theorem merge_merge_self (t upper : Table α) : (t.merge upper).merge upper = t.merge upper :=
  ext_get? fun name => by
    rw [get?_merge, get?_merge, ← Option.or_assoc, Option.or_self]

theorem merge_assoc (t middle upper : Table α) :
    (t.merge middle).merge upper = t.merge (middle.merge upper) :=
  ext_get? fun name => by
    rw [get?_merge, get?_merge, get?_merge, get?_merge, Option.or_assoc]

end Stencil.Table
