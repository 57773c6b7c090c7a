import Stencil.Text.Basic

/-! Values under names.

The entries of a table stand in byte order of their names, each name once. The view is `get?`:
`get?_insert` says what a table holds after an insertion, and nothing else about the order of
insertions is kept. -/
namespace Stencil

structure Table (α : Type) where
  entries : List (Text × α)
  sorted : entries.Pairwise fun a b => a.1 < b.1

namespace Table

variable {α : Type}

def empty : Table α := ⟨[], .nil⟩

instance : Inhabited (Table α) := ⟨empty⟩

def size (t : Table α) : Nat := t.entries.length

def names (t : Table α) : List Text := t.entries.map Prod.fst

def get? (t : Table α) (name : Text) : Option α :=
  (t.entries.find? (·.1 = name)).map Prod.snd

def contains (t : Table α) (name : Text) : Bool := (t.get? name).isSome

/-! ### Insertion -/

/-- The entries with a name set, in their order. -/
def insertEntry (name : Text) (value : α) : List (Text × α) → List (Text × α)
  | [] => [(name, value)]
  | (k, v) :: rest =>
    if name = k then (name, value) :: rest
    else if name < k then (name, value) :: (k, v) :: rest
    else (k, v) :: insertEntry name value rest

theorem mem_insertEntry {name : Text} {value : α} {entries : List (Text × α)} {e : Text × α}
    (h : e ∈ insertEntry name value entries) : e = (name, value) ∨ e ∈ entries := by
  induction entries with
  | nil => simpa [insertEntry] using h
  | cons kv rest ih =>
    obtain ⟨k, v⟩ := kv
    unfold insertEntry at h
    split at h
    · rcases List.mem_cons.1 h with h | h
      · exact .inl h
      · exact .inr (List.mem_cons_of_mem _ h)
    · split at h
      · rcases List.mem_cons.1 h with h | h
        · exact .inl h
        · exact .inr h
      · rcases List.mem_cons.1 h with h | h
        · exact .inr (h ▸ List.mem_cons_self ..)
        · exact (ih h).imp id (List.mem_cons_of_mem _)

theorem sorted_insertEntry (name : Text) (value : α) {entries : List (Text × α)}
    (h : entries.Pairwise fun a b => a.1 < b.1) :
    (insertEntry name value entries).Pairwise fun a b => a.1 < b.1 := by
  induction entries with
  | nil => simp [insertEntry]
  | cons kv rest ih =>
    obtain ⟨k, v⟩ := kv
    obtain ⟨hk, hrest⟩ := List.pairwise_cons.1 h
    unfold insertEntry
    split
    · next heq => exact List.pairwise_cons.2 ⟨fun e he => heq ▸ hk e he, hrest⟩
    · next hne =>
      split
      · next hlt =>
        refine List.pairwise_cons.2 ⟨fun e he => ?_, h⟩
        rcases List.mem_cons.1 he with rfl | he
        · exact hlt
        · exact List.lt_trans hlt (hk e he)
      · next hnlt =>
        refine List.pairwise_cons.2 ⟨fun e he => ?_, ih hrest⟩
        rcases mem_insertEntry he with rfl | he
        · refine Decidable.byContradiction fun hlt => ?_
          exact hne (List.le_antisymm (List.not_lt.1 hlt) (List.not_lt.1 hnlt))
        · exact hk e he

/-- The table with a name set to a value. -/
def insert (t : Table α) (name : Text) (value : α) : Table α :=
  ⟨insertEntry name value t.entries, sorted_insertEntry name value t.sorted⟩

/-- The later of two entries with one name counts. -/
def ofList (entries : List (Text × α)) : Table α :=
  entries.foldl (fun t (name, value) => t.insert name value) empty

/-- The entries of two tables; where both have a name, that of `upper` counts. -/
def merge (t upper : Table α) : Table α :=
  upper.entries.foldl (fun t (name, value) => t.insert name value) t

theorem get?_insert (t : Table α) (name other : Text) (value : α) :
    (t.insert name value).get? other = if name = other then some value else t.get? other := by
  obtain ⟨entries, sorted⟩ := t
  simp only [insert, get?]
  clear sorted
  induction entries with
  | nil => by_cases h : name = other <;> simp [insertEntry, h]
  | cons kv rest ih =>
    obtain ⟨k, v⟩ := kv
    unfold insertEntry
    by_cases hn : name = other <;> by_cases hk : k = other <;> split <;> (try split) <;>
      simp_all

/-! ### Names -/

theorem mem_names_insertEntry {entries : List (Text × α)} {name : Text} (other : Text) (value : α)
    (h : name ∈ entries.map Prod.fst) : name ∈ (insertEntry other value entries).map Prod.fst := by
  induction entries with
  | nil => cases h
  | cons e rest ih =>
    obtain ⟨key, held⟩ := e
    unfold insertEntry
    split
    · next heq => exact heq ▸ h
    · split
      · exact List.mem_cons_of_mem _ h
      · rcases List.mem_cons.1 h with rfl | hrest
        · exact List.mem_cons_self ..
        · exact List.mem_cons_of_mem _ (ih hrest)

/-- No name is lost under those of another table. -/
theorem mem_names_merge {t upper : Table α} {name : Text} (h : name ∈ t.names) :
    name ∈ (t.merge upper).names := by
  unfold merge
  generalize upper.entries = entries
  induction entries generalizing t with
  | nil => exact h
  | cons e rest ih => exact ih (mem_names_insertEntry e.1 e.2 h)

end Table
end Stencil
