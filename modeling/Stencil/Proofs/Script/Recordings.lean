import Mathlib.Data.List.DropRight
import Mathlib.Data.List.Induction
import Mathlib.Order.Monotone.Basic
import Stencil.Proofs.Script.LineMap

/-! The line map of a script that grows.

Lines are recorded one at a time, and a reset starts over, so a map is that of the lines since the
last reset (`after_eq_ofLines`). Its entries count the lines up to each phantom
(`entries_ofLines`), and what is taken off a line number are the phantoms up to it
(`shiftFrom_ofLines`); `counts_after` draws the conclusions for every number, also beyond the last
line. -/
namespace Stencil.LineMap

/-! ### Recordings -/

inductive Recording
  | line (kind : LineKind)
  | reset
deriving Repr, DecidableEq

def Recording.kind? : Recording → Option LineKind
  | line kind => some kind
  | reset => none

def next (m : LineMap) : Recording → LineMap
  | .line kind => m.record kind
  | .reset => empty

/-- The map after some recordings, from the empty one. -/
def after (history : List Recording) : LineMap := history.foldl next empty

/-- The lines that have been recorded since the last reset. -/
def recorded (history : List Recording) : List LineKind :=
  (history.rtakeWhile (· ≠ .reset)).filterMap Recording.kind?

theorem ofLines_concat (kinds : List LineKind) (kind : LineKind) :
    ofLines (kinds ++ [kind]) = (ofLines kinds).record kind := by
  rw [ofLines, List.foldl_append]
  rfl

theorem after_eq_ofLines (history : List Recording) :
    after history = ofLines (recorded history) := by
  induction history using List.reverseRecOn with
  | nil => rfl
  | append_singleton history r ih =>
    rw [after, List.foldl_append, ← after, ih]
    unfold recorded
    rw [List.rtakeWhile_concat]
    cases r with
    | line kind =>
      rw [if_pos (by simp), List.filterMap_append]
      exact (ofLines_concat _ kind).symm
    | reset => rfl

/-! ### Entries -/

/-- The lines of a script that are phantoms, counted from 1. -/
def phantomLines (kinds : List LineKind) : List Nat :=
  (List.range' 1 kinds.length).filter fun line => kinds[line - 1]? = some .phantom

/-- The number of lines of each kind, up to and including a line. -/
def upTo (kinds : List LineKind) (line : Nat) : Shift :=
  ⟨(kinds.take line).count .real, (kinds.take line).count .phantom⟩

theorem phantomLines_concat (kinds : List LineKind) (kind : LineKind) :
    phantomLines (kinds ++ [kind]) =
      phantomLines kinds ++ if kind = .phantom then [kinds.length + 1] else [] := by
  have hold : (List.range' 1 kinds.length).filter
      (fun line => (kinds ++ [kind])[line - 1]? = some .phantom) = phantomLines kinds := by
    apply List.filter_congr
    intro line hline
    have := List.mem_range'_1.1 hline
    rw [List.getElem?_append_left (by omega)]
  rw [phantomLines, List.length_append, List.length_singleton, List.range'_concat,
    List.filter_append, hold, Nat.one_mul, Nat.add_comm 1]
  congr 1
  cases kind <;> simp

theorem le_length_of_mem_phantomLines {kinds : List LineKind} {line : Nat}
    (h : line ∈ phantomLines kinds) : line ≤ kinds.length := by
  have := List.mem_range'_1.1 (List.mem_of_mem_filter h)
  omega

theorem position_upTo {kinds : List LineKind} {line : Nat} (h : line ≤ kinds.length) :
    (upTo kinds line).position = line := by
  rw [Shift.position, upTo, LineKind.count_real_add_count_phantom, List.length_take_of_le h]

/-- **There is one entry for each phantom**, with the lines up to it. -/
theorem entries_ofLines (kinds : List LineKind) :
    (ofLines kinds).entries = (phantomLines kinds).map (upTo kinds) := by
  induction kinds using List.reverseRecOn with
  | nil => rfl
  | append_singleton kinds kind ih =>
    have hold : (phantomLines kinds).map (upTo (kinds ++ [kind])) =
        (phantomLines kinds).map (upTo kinds) := by
      apply List.map_congr_left
      intro line hline
      rw [upTo, List.take_append_of_le_length (le_length_of_mem_phantomLines hline), upTo]
    rw [ofLines_concat, phantomLines_concat, List.map_append, hold, ← ih]
    cases kind with
    | real => simp [record]
    | phantom => simp [record, ofLines_eq, upTo, List.take_of_length_le]

/-- The entries count the phantoms one by one. -/
theorem map_phantom_entries (kinds : List LineKind) :
    (ofLines kinds).entries.map Shift.phantom = List.range' 1 (kinds.count .phantom) := by
  induction kinds using List.reverseRecOn with
  | nil => rfl
  | append_singleton kinds kind ih =>
    rw [ofLines_concat, List.count_append]
    cases kind with
    | real => simpa [record] using ih
    | phantom =>
      have hcount : (ofLines kinds).phantom = kinds.count .phantom := by rw [ofLines_eq]
      show ((ofLines kinds).entries ++ [_]).map Shift.phantom = _
      rw [List.map_append, ih, hcount, List.count_singleton_self, List.range'_concat, Nat.one_mul,
        Nat.add_comm 1]
      rfl

theorem map_position_entries (kinds : List LineKind) :
    (ofLines kinds).entries.map Shift.position = phantomLines kinds := by
  rw [entries_ofLines, List.map_map]
  conv_rhs => rw [← List.map_id (phantomLines kinds)]
  apply List.map_congr_left
  intro line hline
  exact position_upTo (le_length_of_mem_phantomLines hline)

/-! ### Source lines -/

/-- What is taken off a line number are the phantoms up to the line. -/
theorem shiftFrom_ofLines (kinds : List LineKind) (line : Nat) :
    shiftFrom line 0 (ofLines kinds).entries = (kinds.take line).count .phantom := by
  rw [ofLines_eq, shiftFrom_entriesFrom, Nat.zero_add, Nat.add_zero, Nat.sub_zero]

theorem sourceLine_eq (kinds : List LineKind) (line : Nat) :
    (ofLines kinds).sourceLine line = line - (kinds.take line).count .phantom := by
  rw [sourceLine, shiftFrom_ofLines]

theorem count_take_le (kinds : List LineKind) (line : Nat) :
    (kinds.take line).count .phantom ≤ line :=
  List.count_le_length.trans (List.length_take_le line kinds)

/-- No line comes from further up than the one before it. -/
theorem monotone_sourceLine (kinds : List LineKind) : Monotone (ofLines kinds).sourceLine := by
  apply monotone_nat_of_le_succ
  intro line
  have hnext : (kinds.take (line + 1)).count .phantom ≤ (kinds.take line).count .phantom + 1 := by
    rw [List.take_add_one, List.count_append]
    cases kinds[line]? with
    | none => simp
    | some kind =>
      have := List.count_le_length (a := LineKind.phantom) (l := [kind])
      rw [List.length_singleton] at this
      simpa using this
  have := count_take_le kinds line
  rw [sourceLine_eq, sourceLine_eq]
  omega

/-- From one entry to the next both counts go up, and so does the line. -/
theorem pairwise_entries (kinds : List LineKind) : (ofLines kinds).entries.Pairwise fun a b =>
    a.phantom < b.phantom ∧ a.position < b.position ∧ a.real ≤ b.real := by
  have hlines : (phantomLines kinds).Pairwise (· < ·) :=
    List.Pairwise.filter _ List.pairwise_lt_range'
  have hphantom : (ofLines kinds).entries.Pairwise fun a b => a.phantom < b.phantom := by
    rw [← List.pairwise_map (R := (· < ·)), map_phantom_entries]
    exact List.pairwise_lt_range'
  have hposition : (ofLines kinds).entries.Pairwise fun a b => a.position < b.position := by
    rwa [← List.pairwise_map (R := (· < ·)), map_position_entries]
  have hreal : (ofLines kinds).entries.Pairwise fun a b => a.real ≤ b.real := by
    rw [entries_ofLines, List.pairwise_map]
    refine hlines.imp fun {line later} hlt => ?_
    exact (List.take_prefix_take_left (Nat.le_of_lt hlt)).sublist.count_le _
  exact hphantom.and (hposition.and hreal)

/-! ### The map -/

/-- What a line map knows of the lines that have been recorded: the line that each line of a script
comes from, and an entry for each phantom. No number is smaller than what is taken off it. -/
structure Counts (m : LineMap) (kinds : List LineKind) : Prop where
  real : m.real = kinds.count .real
  phantom : m.phantom = kinds.count .phantom
  total : m.total = kinds.length
  within : ∀ line, 1 ≤ line → line ≤ m.total → m.sourceLine line = (kinds.take line).count .real
  behind : ∀ line, m.total < line → m.phantom ≤ line ∧ m.sourceLine line = line - m.phantom
  zero : m.sourceLine 0 = 0
  monotone : Monotone m.sourceLine
  fits : ∀ line, shiftFrom line 0 m.entries ≤ line
  entries : m.entries = (phantomLines kinds).map (upTo kinds)
  ordered : m.entries.Pairwise fun a b =>
    a.phantom < b.phantom ∧ a.position < b.position ∧ a.real ≤ b.real

/-- **A line of a script maps to the number of real lines up to it**, whatever has been recorded
before the last reset; a line behind the last one is moved by all phantoms, and the map never goes
back. -/
theorem counts_after (history : List Recording) : Counts (after history) (recorded history) := by
  rw [after_eq_ofLines]
  generalize recorded history = kinds
  have htotal := total_ofLines kinds
  have hphantom : (ofLines kinds).phantom = kinds.count .phantom := by rw [ofLines_eq]
  refine
    { real := by rw [ofLines_eq]
      phantom := hphantom
      total := htotal
      within := fun line _ hline => sourceLine_ofLines kinds line (htotal ▸ hline)
      behind := fun line hline => ?_
      zero := by rw [sourceLine_eq, Nat.zero_sub]
      monotone := monotone_sourceLine kinds
      fits := fun line => by
        rw [shiftFrom_ofLines]
        exact count_take_le kinds line
      entries := entries_ofLines kinds
      ordered := pairwise_entries kinds }
  have hall : kinds.take line = kinds := List.take_of_length_le (by omega)
  have hle := count_take_le kinds line
  rw [hall] at hle
  rw [sourceLine_eq, hall, hphantom]
  exact ⟨hle, rfl⟩

/-- Two phantoms in a row, and what was there before the reset. -/
example :
    let m := after [.line .phantom, .reset, .line .real, .line .real, .line .phantom,
      .line .phantom, .line .real]
    m.entries = [⟨2, 1⟩, ⟨2, 2⟩] ∧
      (List.range 8).map m.sourceLine = [0, 1, 2, 2, 2, 3, 4, 5] := by
  decide

end Stencil.LineMap
