import Mathlib.Data.List.Induction
import Stencil.Proofs.Path
import Stencil.Render.Memory

/-! Files as a map on normal forms.

Every operation takes a path to its normal form for itself, and none of them looks at anything else
of it. So whatever changes the files have gone through, what is held at a normal form is the text of
the latest insertion there that nothing has undone (`held?_after`); no normal form is held twice, and
none that is not one of a path (`isKept_after`), which lets the paths that are listed stand for
themselves. `after_isMap` puts this together. -/
namespace Stencil.Files

open Stencil.Path (Component)

/-! ### Changes -/

inductive Change
  | insert (path : Path) (text : Text)
  /-- An insertion while the files are put together. -/
  | withFile (path : Path) (text : Text)
  | remove (path : Path)
  | clear
deriving Repr, DecidableEq

/-- What a change answers, and the files after it. A removal answers whether there was a file. -/
def change (f : Files) : Change → Option Bool × Files
  | .insert path text | .withFile path text => (none, f.insert path text)
  | .remove path => (some (f.exists? path), f.remove path)
  | .clear => (none, empty)

/-- The files after some changes, from none at all. -/
def after (changes : List Change) : Files := changes.foldl (fun f c => (f.change c).2) empty

theorem after_concat (changes : List Change) (c : Change) :
    after (changes ++ [c]) = ((after changes).change c).2 := List.foldl_concat ..

/-- The change puts a text at a normal form. -/
def Change.Stores (form : List Component) (text : Text) : Change → Prop
  | insert path stored | withFile path stored => Path.normalize path = form ∧ stored = text
  | remove _ | clear => False

/-- Whatever was at the normal form is no longer there after the change. -/
def Change.Overrides (form : List Component) : Change → Prop
  | insert path _ | withFile path _ | remove path => Path.normalize path = form
  | clear => True

/-- The text is that of the latest insertion at a normal form, and nothing has undone it since. -/
def Stands (changes : List Change) (form : List Component) (text : Text) : Prop :=
  ∃ before stored since, changes = before ++ stored :: since ∧ stored.Stores form text ∧
    ∀ c ∈ since, ¬ c.Overrides form

section

variable {form : List Component} {text : Text}

theorem not_stands_nil : ¬ Stands [] form text := by
  rintro ⟨before, stored, since, h, _⟩
  exact List.append_ne_nil_of_right_ne_nil before (List.cons_ne_nil _ _) h.symm

theorem stands_concat {changes : List Change} {c : Change} :
    Stands (changes ++ [c]) form text ↔
      c.Stores form text ∨ ¬ c.Overrides form ∧ Stands changes form text := by
  constructor
  · rintro ⟨before, stored, since, h, hstored, hsince⟩
    rcases List.eq_nil_or_concat since with rfl | ⟨since, last, rfl⟩
    · obtain ⟨_, hc⟩ := List.append_inj' h rfl
      exact .inl (List.singleton_inj.1 hc ▸ hstored)
    · rw [List.concat_eq_append, ← List.cons_append, ← List.append_assoc] at h
      obtain ⟨rfl, hc⟩ := List.append_inj' h rfl
      rw [List.concat_eq_append, List.forall_mem_append, List.forall_mem_singleton,
        ← List.singleton_inj.1 hc] at hsince
      exact .inr ⟨hsince.2, before, stored, since, rfl, hstored, hsince.1⟩
  · rintro (hstored | ⟨hc, before, stored, since, rfl, hstored, hsince⟩)
    · exact ⟨changes, c, [], rfl, hstored, nofun⟩
    · refine ⟨before, stored, since ++ [c], List.append_assoc .., hstored, ?_⟩
      exact List.forall_mem_append.2 ⟨hsince, List.forall_mem_singleton.2 hc⟩

end

/-! ### What is held -/

/-- The text at a normal form. -/
def held? (f : Files) (form : List Component) : Option Text :=
  (f.entries.find? (·.1 = form)).map Prod.snd

section

variable (f : Files) {form : List Component}

theorem held?_remove (path : Path) :
    (f.remove path).held? form = if Path.normalize path = form then none else f.held? form := by
  unfold remove held?
  rw [List.find?_filter]
  split
  · next heq =>
    rw [List.find?_eq_none.2, Option.map_none]
    intro e _
    simp [heq]
  · next hne =>
    congr 2
    funext e
    by_cases he : e.1 = form
    · simp [he, Ne.symm hne]
    · simp [he]

theorem held?_insert (path : Path) (text : Text) :
    (f.insert path text).held? form =
      if Path.normalize path = form then some text else f.held? form := by
  have hinsert : (f.insert path text).held? form =
      if Path.normalize path = form then some text else (f.remove path).held? form := by
    unfold insert held?
    rw [List.find?_cons]
    by_cases h : Path.normalize path = form <;> simp [h]
  rw [hinsert, held?_remove]
  split
  · rfl
  · rfl

/-- One change does to what is held what it does to the text that stands. -/
theorem held?_change (c : Change) (text : Text) :
    (f.change c).2.held? form = some text ↔
      c.Stores form text ∨ ¬ c.Overrides form ∧ f.held? form = some text := by
  have hinsert : ∀ path stored, (f.insert path stored).held? form = some text ↔
      (Path.normalize path = form ∧ stored = text) ∨
        ¬ Path.normalize path = form ∧ f.held? form = some text := by
    intro path stored
    rw [held?_insert]
    by_cases h : Path.normalize path = form <;> simp [h]
  cases c with
  | insert path stored => exact hinsert path stored
  | withFile path stored => exact hinsert path stored
  | remove path =>
    rw [show (f.change (.remove path)).2 = f.remove path from rfl, held?_remove]
    by_cases h : Path.normalize path = form <;> simp [h, Change.Stores, Change.Overrides]
  | clear =>
    refine iff_of_false nofun ?_
    rintro (h | ⟨h, _⟩)
    · exact h
    · exact h trivial

end

/-- **What is held is what stands.** -/
theorem held?_after (changes : List Change) (form : List Component) (text : Text) :
    (after changes).held? form = some text ↔ Stands changes form text := by
  induction changes using List.reverseRecOn with
  | nil => exact iff_of_false nofun not_stands_nil
  | append_singleton changes c ih => rw [after_concat, held?_change, stands_concat, ih]

/-! ### Listing -/

/-- The normal forms that are held, in no order. -/
def forms (f : Files) : List (List Component) := f.entries.map Prod.fst

theorem mem_forms_iff {f : Files} {form : List Component} :
    form ∈ f.forms ↔ ∃ text, f.held? form = some text := by
  rw [forms, List.mem_map]
  constructor
  · rintro ⟨e, he, rfl⟩
    have hfind : (f.entries.find? fun other => other.1 = e.1).isSome := by
      rw [List.find?_isSome]
      exact ⟨e, he, decide_eq_true rfl⟩
    obtain ⟨found, hfound⟩ := Option.isSome_iff_exists.1 hfind
    exact ⟨found.2, congrArg (Option.map Prod.snd) hfound⟩
  · rintro ⟨text, htext⟩
    obtain ⟨e, he, _⟩ := Option.map_eq_some_iff.1 htext
    have hform := List.find?_some he
    exact ⟨e, List.mem_of_find?_eq_some he, of_decide_eq_true hform⟩

/-- Each normal form is held once, and is one of a path. -/
structure IsKept (f : Files) : Prop where
  nodup : f.forms.Nodup
  normal : ∀ form ∈ f.forms, ∃ path, Path.normalize path = form

namespace IsKept

theorem empty : IsKept .empty := ⟨List.nodup_nil, nofun⟩

variable {f : Files} (h : f.IsKept)
include h

theorem remove (path : Path) : (f.remove path).IsKept := by
  have hsub : (f.remove path).forms.Sublist f.forms := List.filter_sublist.map _
  exact ⟨h.nodup.sublist hsub, fun form hform => h.normal form (hsub.mem hform)⟩

theorem insert (path : Path) (text : Text) : (f.insert path text).IsKept := by
  have hforms : (f.insert path text).forms = Path.normalize path :: (f.remove path).forms := rfl
  have hremoved := h.remove path
  refine ⟨?_, ?_⟩
  · rw [hforms, List.nodup_cons]
    refine ⟨fun hmem => ?_, hremoved.nodup⟩
    obtain ⟨found, hfound⟩ := mem_forms_iff.1 hmem
    rw [held?_remove, if_pos rfl] at hfound
    cases hfound
  · rw [hforms]
    exact List.forall_mem_cons.2 ⟨⟨path, rfl⟩, hremoved.normal⟩

theorem change (c : Change) : (f.change c).2.IsKept := by
  cases c with
  | insert path text => exact h.insert path text
  | withFile path text => exact h.insert path text
  | remove path => exact h.remove path
  | clear => exact empty

end IsKept

theorem isKept_after (changes : List Change) : (after changes).IsKept := by
  induction changes using List.reverseRecOn with
  | nil => exact .empty
  | append_singleton changes c ih => exact after_concat changes c ▸ ih.change c

/-- The paths are listed by the order of their components. -/
theorem IsKept.map_components_paths {f : Files} (h : f.IsKept) :
    f.paths.map Path.components = f.forms.mergeSort fun a b => !Path.before b a := by
  have hpaths : f.paths =
      (f.forms.mergeSort fun a b => !Path.before b a).map Path.ofComponents := rfl
  rw [hpaths, List.map_map]
  refine (List.map_congr_left fun form hform => ?_).trans (List.map_id _)
  obtain ⟨path, rfl⟩ := h.normal form (List.mem_mergeSort.1 hform)
  exact Path.components_ofComponents_normalize path

theorem IsKept.mem_paths_iff {f : Files} (h : f.IsKept) (form : List Component) :
    form ∈ f.paths.map Path.components ↔ ∃ text, f.held? form = some text := by
  rw [h.map_components_paths, List.mem_mergeSort, mem_forms_iff]

/-- A path that is listed is in normal form. -/
theorem IsKept.normalize_of_mem_paths {f : Files} (h : f.IsKept) {path : Path}
    (hpath : path ∈ f.paths) : Path.normalize path = Path.components path ∧
      Path.ofComponents (Path.normalize path) = path := by
  obtain ⟨form, hform, rfl⟩ := List.mem_map.1 hpath
  obtain ⟨path, rfl⟩ := h.normal form (List.mem_mergeSort.1 hform)
  rw [Path.normalize_ofComponents_normalize, Path.components_ofComponents_normalize]
  exact ⟨rfl, rfl⟩

/-- As no normal form is held twice, each path that is listed is before the next one. -/
theorem IsKept.pairwise_before {f : Files} (h : f.IsKept) :
    (f.paths.map Path.components).Pairwise fun a b => Path.before a b = true := by
  rw [h.map_components_paths]
  have hsorted := List.pairwise_mergeSort Path.not_before_trans Path.not_before_total f.forms
  have hnodup : (f.forms.mergeSort fun a b => !Path.before b a).Nodup :=
    (List.mergeSort_perm f.forms _).nodup_iff.2 h.nodup
  refine hsorted.imp₂ (fun a b hle hne => ?_) hnodup
  exact Path.before_of_not_before hne hle

/-! ### The map -/

/-- What a path answers where some text is stored, or none is: to the question for its text, to the
two questions of a renderer, which leave the files as they are, and to a removal. -/
structure Answers (f : Files) (path : Path) (stored : Text → Prop) : Prop where
  read? : ∀ text, f.read? path = some text ↔ stored text
  load_ok : ∀ text after, (loader.load path).run f = (.ok text, after) ↔ stored text ∧ after = f
  load_error : ∀ e after, (loader.load path).run f = (.error e, after) ↔
    (∀ text, ¬ stored text) ∧ e = .filesystem path "No such template in memory" ∧ after = f
  exists? : ∀ found after, (loader.exists? path).run f = (found, after) ↔
    (found = true ↔ ∃ text, stored text) ∧ after = f
  remove : ∀ found, (f.change (.remove path)).1 = some found ↔
    (found = true ↔ ∃ text, stored text)

/-- The paths that are listed: strictly in order, one for each normal form where a text is stored,
and spelled as their normal form, which reads back its text. -/
structure Lists (f : Files) (stored : List Component → Text → Prop) : Prop where
  sorted : (f.paths.map Path.components).Pairwise fun a b => Path.before a b = true
  mem_iff : ∀ form, form ∈ f.paths.map Path.components ↔ ∃ text, stored form text
  normal : ∀ path ∈ f.paths, Path.normalize path = Path.components path ∧
    Path.ofComponents (Path.normalize path) = path
  readBack : ∀ path ∈ f.paths, ∃ text, stored (Path.components path) text ∧
    f.read? path = some text

section

variable {f : Files} {path : Path}

theorem load_eq_ok_iff {text : Text} : f.load path = .ok text ↔ f.read? path = some text := by
  unfold load
  cases f.read? path with
  | none => exact iff_of_false nofun nofun
  | some found => rw [Except.ok.injEq, Option.some.injEq]

theorem load_eq_error_iff {e : Error} : f.load path = .error e ↔
    f.read? path = none ∧ e = .filesystem path "No such template in memory" := by
  unfold load
  cases f.read? path with
  | none => rw [Except.error.injEq, eq_self, true_and, eq_comm]
  | some found => exact iff_of_false nofun fun h => nomatch h.1

theorem run_load : (loader.load path).run f = (f.load path, f) := by
  have hlift : (loader.load path).run f = (liftM (f.load path) : Attempt Files Text).run f := rfl
  rw [hlift]
  cases f.load path with
  | ok text => rfl
  | error e => rfl

theorem answers_of_held? {stored : Text → Prop}
    (h : ∀ text, f.held? (Path.normalize path) = some text ↔ stored text) :
    f.Answers path stored := by
  have hread : ∀ text, f.read? path = some text ↔ stored text := h
  have hnone : f.read? path = none ↔ ∀ text, ¬ stored text := by
    rw [Option.eq_none_iff_forall_ne_some]
    exact forall_congr' fun text => not_congr (hread text)
  have hexists : ∀ found, f.exists? path = found ↔ (found = true ↔ ∃ text, stored text) := by
    intro found
    rw [Bool.eq_iff_iff, exists?, Option.isSome_iff_exists, exists_congr hread]
    exact Iff.comm
  refine ⟨hread, fun text after => ?_, fun e after => ?_, fun found after => ?_, fun found => ?_⟩
  · rw [run_load, Prod.mk.injEq, load_eq_ok_iff, hread, eq_comm (a := f)]
  · rw [run_load, Prod.mk.injEq, load_eq_error_iff, hnone, and_assoc, eq_comm (a := f)]
  · rw [show (loader.exists? path).run f = (f.exists? path, f) from rfl, Prod.mk.injEq, hexists,
      eq_comm (a := f)]
  · rw [show (f.change (.remove path)).1 = some (f.exists? path) from rfl, Option.some.injEq,
      hexists]

end

/-- **Files are a map on normal forms.** After any changes each path answers for the text that
stands at its normal form. The paths listed are those of the normal forms where a text stands, each
once and in order, and each reads back its own text; a path in normal form comes down to itself. -/
theorem after_isMap (changes : List Change) :
    (∀ path, (after changes).Answers path (Stands changes (Path.normalize path))) ∧
      (after changes).Lists (Stands changes) ∧
      ∀ path, Path.normalize (Path.ofComponents (Path.normalize path)) = Path.normalize path := by
  have hkept := isKept_after changes
  have hmem : ∀ form, form ∈ (after changes).paths.map Path.components ↔
      ∃ text, Stands changes form text := by
    intro form
    rw [hkept.mem_paths_iff]
    exact exists_congr fun text => held?_after changes form text
  have hanswers : ∀ path, (after changes).Answers path (Stands changes (Path.normalize path)) :=
    fun path => answers_of_held? (held?_after changes (Path.normalize path))
  refine ⟨hanswers, ⟨hkept.pairwise_before, hmem, fun path => hkept.normalize_of_mem_paths, ?_⟩,
    Path.normalize_ofComponents_normalize⟩
  intro path hpath
  obtain ⟨text, htext⟩ := (hmem _).1 (List.mem_map_of_mem hpath)
  refine ⟨text, htext, ((hanswers path).read? text).2 ?_⟩
  rwa [(hkept.normalize_of_mem_paths hpath).1]

/-- Two spellings of one path, a path that climbs past the root, and a removal by another
spelling. -/
example :
    let files := after [.insert "./b/c" "1", .insert "b" "2", .withFile "a/../b//c/" "3",
      .insert "/../x" "4", .remove "b/."]
    files.paths.map String.ofList = ["/../x", "b/c"] ∧ files.read? "b/../b/c" = some "3".toList ∧
      files.read? "b" = none := by
  cbv

end Stencil.Files
