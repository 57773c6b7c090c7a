import Mathlib.Data.List.Count
import Stencil.Script.Basic

/-! What a line map says about a script.

`sourceLine_ofLines`: a line of a script maps to the number of real lines up to it. The table of
phantoms is only the form in which that number is kept. From it, a script that is cut into groups,
each a real line and the phantoms behind it, is cut by its own map in the same places
(`linesOf_flatten`). -/
namespace Stencil

/-! ### Counting -/

namespace LineKind

theorem count_real_add_count_phantom (kinds : List LineKind) :
    kinds.count .real + kinds.count .phantom = kinds.length := by
  induction kinds with
  | nil => rfl
  | cons kind rest ih =>
    cases kind with
    | real =>
      rw [List.count_cons_self, List.count_cons_of_ne (by decide), List.length_cons]
      omega
    | phantom =>
      rw [List.count_cons_self, List.count_cons_of_ne (by decide), List.length_cons]
      omega

end LineKind

namespace LineMap

/-- The entries for some lines, behind so many real lines and phantoms. -/
def entriesFrom (real phantom : Nat) : List LineKind → List Shift
  | [] => []
  | .real :: rest => entriesFrom (real + 1) phantom rest
  | .phantom :: rest => ⟨real, phantom + 1⟩ :: entriesFrom real (phantom + 1) rest

theorem foldl_record (m : LineMap) (kinds : List LineKind) :
    kinds.foldl record m =
      { real := m.real + kinds.count .real
        phantom := m.phantom + kinds.count .phantom
        entries := m.entries ++ entriesFrom m.real m.phantom kinds } := by
  induction kinds generalizing m with
  | nil => simp [entriesFrom]
  | cons kind rest ih =>
    rw [List.foldl_cons, ih]
    cases kind with
    | real =>
      rw [List.count_cons_self, List.count_cons_of_ne (by decide)]
      simp only [record, entriesFrom, LineMap.mk.injEq, and_true]
      omega
    | phantom =>
      rw [List.count_cons_self, List.count_cons_of_ne (by decide)]
      simp only [record, entriesFrom, LineMap.mk.injEq, List.append_assoc, List.cons_append,
        List.nil_append, and_true, true_and]
      omega

theorem ofLines_eq (kinds : List LineKind) :
    ofLines kinds = ⟨kinds.count .real, kinds.count .phantom, entriesFrom 0 0 kinds⟩ := by
  rw [ofLines, foldl_record]
  simp [empty]

theorem total_ofLines (kinds : List LineKind) : (ofLines kinds).total = kinds.length := by
  rw [ofLines_eq, total, LineKind.count_real_add_count_phantom]

/-- The search stops at the first entry that is not before the line, so it has passed exactly the
phantoms up to the line. -/
theorem shiftFrom_entriesFrom (line real phantom : Nat) (kinds : List LineKind) :
    shiftFrom line phantom (entriesFrom real phantom kinds) =
      phantom + (kinds.take (line - (real + phantom))).count .phantom := by
  induction kinds generalizing real phantom with
  | nil => simp [entriesFrom, shiftFrom]
  | cons kind rest ih =>
    cases kind with
    | real =>
      rw [entriesFrom, ih]
      by_cases h : line ≤ real + phantom
      · rw [show line - (real + phantom) = 0 by omega,
          show line - (real + 1 + phantom) = 0 by omega]
        rfl
      · rw [show line - (real + phantom) = line - (real + 1 + phantom) + 1 by omega,
          List.take_succ_cons, List.count_cons_of_ne (by decide)]
    | phantom =>
      rw [entriesFrom, shiftFrom]
      simp only [show Shift.position ⟨real, phantom + 1⟩ = real + phantom + 1 from rfl]
      by_cases heq : real + phantom + 1 = line
      · rw [if_pos heq, show line - (real + phantom) = 0 + 1 by omega, List.take_succ_cons]
        rfl
      · by_cases hlt : line < real + phantom + 1
        · rw [if_neg heq, if_pos hlt, show line - (real + phantom) = 0 by omega]
          rfl
        · rw [if_neg heq, if_neg hlt, ih,
            show line - (real + phantom) = line - (real + (phantom + 1)) + 1 by omega,
            List.take_succ_cons, List.count_cons_self]
          omega

/-- **A script line maps to the number of real lines up to it.** -/
theorem sourceLine_ofLines (kinds : List LineKind) (line : Nat) (h : line ≤ kinds.length) :
    (ofLines kinds).sourceLine line = (kinds.take line).count .real := by
  rw [ofLines_eq, sourceLine, shiftFrom_entriesFrom]
  have hcount := LineKind.count_real_add_count_phantom (kinds.take line)
  rw [List.length_take, Nat.min_eq_left h] at hcount
  simp only [Nat.add_zero, Nat.sub_zero, Nat.zero_add]
  omega

/-- From one line to the next the source line stays or goes up by one. -/
theorem sourceLine_step (kinds : List LineKind) (line : Nat) (h : line < kinds.length) :
    (ofLines kinds).sourceLine line ≤ (ofLines kinds).sourceLine (line + 1) ∧
      (ofLines kinds).sourceLine (line + 1) ≤ (ofLines kinds).sourceLine line + 1 := by
  rw [sourceLine_ofLines kinds line (by omega), sourceLine_ofLines kinds (line + 1) h,
    List.take_succ_eq_append_getElem h, List.count_append]
  have := List.count_le_length (a := LineKind.real) (l := [kinds[line]])
  rw [List.length_singleton] at this
  omega

end LineMap

/-- The map counts the lines of the script. -/
theorem Script.length_lines (script : Script) : script.lines.length = script.lineMap.total := by
  rw [lines, lineMap, LineMap.total_ofLines, List.length_map, List.length_map]

/-! ### Groups of statements -/

/-- A statement for a template line and what the line has beyond it. -/
structure IsGroup (group : List Statement) : Prop where
  split : ∃ first rest, group = first :: rest ∧ first.kind = .real ∧
    ∀ s ∈ rest, s.kind = .phantom

/-- The statements, each with the number of real ones up to it, behind `real` others. -/
def numbered (real : Nat) : List Statement → List (Statement × Nat)
  | [] => []
  | s :: rest =>
    let real := real + [s.kind].count .real
    (s, real) :: numbered real rest

theorem numbered_phantoms (real : Nat) (phantoms rest : List Statement)
    (h : ∀ s ∈ phantoms, s.kind = .phantom) :
    numbered real (phantoms ++ rest) = phantoms.map (·, real) ++ numbered real rest := by
  induction phantoms with
  | nil => rfl
  | cons s phantoms ih =>
    have hs : s.kind = .phantom := h s List.mem_cons_self
    rw [List.cons_append, numbered, hs]
    simpa using ih fun s hs => h s (List.mem_cons_of_mem _ hs)

theorem numbered_group (real : Nat) (group rest : List Statement) (h : IsGroup group) :
    numbered real (group ++ rest) = group.map (·, real + 1) ++ numbered (real + 1) rest := by
  obtain ⟨first, phantoms, rfl, hfirst, hphantoms⟩ := h.split
  rw [List.cons_append, numbered, hfirst]
  simpa using numbered_phantoms (real + 1) phantoms rest hphantoms

/-- Groups behind `real` others are numbered `real + 1`, `real + 2`, …. -/
theorem filter_numbered_flatten (real k : Nat) (groups : List (List Statement))
    (h : ∀ g ∈ groups, IsGroup g) :
    ((numbered real groups.flatten).filter fun e => e.2 == k).map Prod.fst =
      if real < k then (groups[k - real - 1]?).getD [] else [] := by
  induction groups generalizing real with
  | nil => simp [numbered]
  | cons g groups ih =>
    rw [List.flatten_cons, numbered_group real g _ (h g List.mem_cons_self), List.filter_append,
      List.map_append, ih (real + 1) fun g hg => h g (List.mem_cons_of_mem _ hg)]
    by_cases heq : k = real + 1
    · have hself : (g.map (·, real + 1)).filter (fun e => e.2 == k) = g.map (·, real + 1) := by
        simp [heq]
      rw [hself, if_neg (by omega), if_pos (by omega), show k - real - 1 = 0 by omega]
      simp [Function.comp_def]
    · have hother : (g.map (·, real + 1)).filter (fun e => e.2 == k) = [] := by
        simp [Ne.symm heq]
      rw [hother]
      by_cases hlt : real + 1 < k
      · rw [if_pos hlt, if_pos (by omega), show k - real - 1 = k - (real + 1) - 1 + 1 by omega]
        simp
      · rw [if_neg hlt, if_neg (by omega)]
        rfl

namespace Script

/-- The statements that the line map counts to a line of the template. -/
def linesOf (s : Script) (line : Nat) : List Statement :=
  ((s.statements.zipIdx 1).filter fun e => s.lineMap.sourceLine e.2 == line).map Prod.fst

theorem map_sourceLine_eq_numbered (before statements : List Statement) :
    ((statements.zipIdx (before.length + 1)).map fun e =>
        (e.1, (LineMap.ofLines ((before ++ statements).map Statement.kind)).sourceLine e.2)) =
      numbered ((before.map Statement.kind).count .real) statements := by
  induction statements generalizing before with
  | nil => rfl
  | cons s rest ih =>
    have hrest := ih (before ++ [s])
    simp only [List.append_assoc, List.cons_append, List.nil_append, List.length_append,
      List.length_cons, List.length_nil, List.map_append, List.count_append] at hrest
    rw [List.zipIdx_cons, List.map_cons, numbered, LineMap.sourceLine_ofLines _ _ (by simp)]
    have htake : ((before ++ s :: rest).map Statement.kind).take (before.length + 1) =
        before.map Statement.kind ++ [s.kind] := by
      rw [List.map_append, List.take_append, List.take_of_length_le (by simp), List.length_map,
        Nat.add_sub_cancel_left]
      rfl
    rw [htake, List.count_append]
    simpa using hrest

/-- **A script made of groups is cut by its own line map in the same places.** -/
theorem linesOf_flatten (unit k : Nat) (groups : List (List Statement))
    (h : ∀ g ∈ groups, IsGroup g) :
    (Script.mk unit groups.flatten).linesOf (k + 1) = (groups[k]?).getD [] := by
  have hnumbered := map_sourceLine_eq_numbered [] groups.flatten
  have hfilter := filter_numbered_flatten 0 (k + 1) groups h
  simp only [List.length_nil, Nat.zero_add, List.nil_append, List.map_nil, List.count_nil]
    at hnumbered
  rw [← hnumbered, List.filter_map, List.map_map, if_pos (by omega)] at hfilter
  exact hfilter

end Script
end Stencil
