import Mathlib.Data.Char
import Mathlib.Data.List.Lex
import Stencil.Path
import Stencil.Proofs.Text.Parts

/-! Normal forms of paths.

The components that a path comes down to are settled: behind an optional root and at most one `..`
there are names only (`settled_normalize`). Settled components are read back from their path
(`components_ofComponents_normalize`) and have nothing left to resolve, so a path in normal form
comes down to itself (`normalize_ofComponents_normalize`). Any two different lists of components can
be put in order (`before_of_not_before`). -/
namespace Stencil

namespace Path

namespace Component

/-- The component that a piece between separators stands for. -/
def ofPiece? (piece : Text) : Option Component :=
  if piece = [] ∨ piece = ['.'] then none
  else if piece = ['.', '.'] then some .parent
  else some (.name piece)

/-- A component that is read back from its text as a piece of a path. -/
structure IsPiece (c : Component) : Prop where
  separator_not_mem : '/' ∉ c.text
  ofPiece?_text : ofPiece? c.text = some c

theorem isPiece_parent : parent.IsPiece := ⟨by decide, rfl⟩

theorem isPiece_of_ofPiece? {piece : Text} {c : Component} (hpiece : '/' ∉ piece)
    (h : ofPiece? piece = some c) : c.IsPiece := by
  have htext : c.text = piece := by
    unfold ofPiece? at h
    split at h
    · cases h
    · split at h
      · next hparent =>
        cases h
        exact hparent.symm
      · cases h
        rfl
  exact ⟨htext ▸ hpiece, htext ▸ h⟩

theorem IsPiece.text_ne_nil {c : Component} (h : c.IsPiece) : c.text ≠ [] := by
  intro hnil
  have hpiece := h.ofPiece?_text
  rw [hnil] at hpiece
  cases hpiece

theorem IsPiece.ne_root {c : Component} (h : c.IsPiece) : c ≠ root := by
  rintro rfl
  exact h.text_ne_nil rfl

end Component

/-- The components of the pieces of a path, without the root. -/
def pieces (p : Path) : List Component := (Text.splitOn '/' p).filterMap Component.ofPiece?

theorem components_of_isAbsolute {p : Path} (h : isAbsolute p = true) :
    components p = .root :: pieces p := if_pos h

theorem components_of_not_isAbsolute {p : Path} (h : isAbsolute p = false) :
    components p = pieces p := if_neg (Bool.eq_false_iff.1 h)

theorem isPiece_of_mem_pieces {p : Path} {c : Component} (h : c ∈ pieces p) : c.IsPiece := by
  obtain ⟨piece, hpiece, hc⟩ := List.mem_filterMap.1 h
  exact Component.isPiece_of_ofPiece? (Text.not_mem_of_mem_splitOn hpiece) hc

/-! ### Reading components back -/

section

variable {cs : List Component} (h : ∀ c ∈ cs, c.IsPiece)
include h

theorem pieces_join : pieces (Text.join "/" (cs.map Component.text)) = cs := by
  cases cs with
  | nil => rfl
  | cons c rest =>
    have hsplit : Text.splitOn '/' (Text.join "/" ((c :: rest).map Component.text)) =
        (c :: rest).map Component.text := by
      refine Text.splitOn_join (List.cons_ne_nil _ _) fun text htext => ?_
      obtain ⟨component, hcomponent, rfl⟩ := List.mem_map.1 htext
      exact (h component hcomponent).separator_not_mem
    rw [pieces, hsplit, List.filterMap_map]
    refine Eq.trans (List.filterMap_congr fun component hcomponent => ?_) List.filterMap_some
    exact (h component hcomponent).ofPiece?_text

/-- A path of pieces alone starts with the first of them, which is no separator. -/
theorem not_isAbsolute_join : isAbsolute (Text.join "/" (cs.map Component.text)) = false := by
  cases cs with
  | nil => rfl
  | cons c rest =>
    obtain ⟨hc, _⟩ := List.forall_mem_cons.1 h
    obtain ⟨first, text, htext⟩ := List.exists_cons_of_ne_nil hc.text_ne_nil
    have hfirst : first ≠ '/' := by
      rintro rfl
      exact hc.separator_not_mem (htext ▸ List.mem_cons_self)
    obtain ⟨more, hjoin⟩ := Text.isPrefix_join "/" c.text (rest.map Component.text)
    rw [List.map_cons, ← hjoin, htext]
    exact beq_eq_false_iff_ne.2 fun heq => hfirst (Option.some.inj heq)

theorem components_ofComponents_pieces : components (ofComponents cs) = cs := by
  have hpath : ofComponents cs = Text.join "/" (cs.map Component.text) := by
    unfold ofComponents
    split
    · exact absurd rfl (h .root (List.mem_singleton_self _)).ne_root
    · rfl
  rw [hpath, components_of_not_isAbsolute (not_isAbsolute_join h), pieces_join h]

theorem components_ofComponents_root : components (ofComponents (.root :: cs)) = .root :: cs := by
  cases cs with
  | nil => rfl
  | cons c rest =>
    have hpath : ofComponents (.root :: c :: rest) =
        '/' :: Text.join "/" ((c :: rest).map Component.text) := rfl
    have hpieces : ∀ t : Text, pieces ('/' :: t) = pieces t := fun t => rfl
    rw [hpath, components_of_isAbsolute rfl, hpieces, pieces_join h]

end

/-! ### Normal forms -/

/-- Components with nothing to resolve, innermost first. A `..` is left only where nothing stands
before it but the root. -/
inductive Settled : List Component → Prop
  | nil : Settled []
  | root : Settled [.root]
  | parent : Settled [.parent]
  | beyondRoot : Settled [.parent, .root]
  | name {done : List Component} {n : Text} : (Component.name n).IsPiece → Settled done →
    Settled (.name n :: done)

theorem Settled.resolve {done : List Component} (h : Settled done) {c : Component}
    (hc : c.IsPiece) : Settled (resolve done c) := by
  cases c with
  | root => exact absurd rfl hc.ne_root
  | name n => exact .name hc h
  | parent =>
    cases h with
    | nil => exact .parent
    | root => exact .beyondRoot
    | parent => exact .nil
    | beyondRoot => exact .root
    | name _ hdone => exact hdone

theorem Settled.foldl_resolve {done cs : List Component} (h : Settled done)
    (hcs : ∀ c ∈ cs, c.IsPiece) : Settled (cs.foldl Path.resolve done) := by
  induction cs generalizing done with
  | nil => exact h
  | cons c rest ih =>
    obtain ⟨hc, hrest⟩ := List.forall_mem_cons.1 hcs
    exact ih (h.resolve hc) hrest

theorem settled_normalize (p : Path) : Settled (normalize p).reverse := by
  rw [normalize, List.reverse_reverse]
  have hpieces : ∀ c ∈ pieces p, c.IsPiece := fun c hc => isPiece_of_mem_pieces hc
  cases habsolute : isAbsolute p with
  | true =>
    rw [components_of_isAbsolute habsolute]
    exact Settled.root.foldl_resolve hpieces
  | false =>
    rw [components_of_not_isAbsolute habsolute]
    exact Settled.nil.foldl_resolve hpieces

namespace Settled

variable {done : List Component}

/-- Resolving settled components takes them over one by one. -/
theorem foldl_resolve_reverse (h : Settled done) : done.reverse.foldl Path.resolve [] = done := by
  induction h with
  | nil | root | parent | beyondRoot => rfl
  | @name done n _ _ ih =>
    rw [List.reverse_cons, List.foldl_append, ih]
    rfl

theorem exists_pieces (h : Settled done) :
    ∃ cs, (∀ c ∈ cs, c.IsPiece) ∧ (done.reverse = cs ∨ done.reverse = .root :: cs) := by
  have hparent : ∀ c ∈ [Component.parent], c.IsPiece :=
    List.forall_mem_singleton.2 Component.isPiece_parent
  induction h with
  | nil => exact ⟨[], nofun, .inl rfl⟩
  | root => exact ⟨[], nofun, .inr rfl⟩
  | parent => exact ⟨_, hparent, .inl rfl⟩
  | beyondRoot => exact ⟨_, hparent, .inr rfl⟩
  | @name done n hn _ ih =>
    obtain ⟨cs, hcs, hdone⟩ := ih
    refine ⟨cs ++ [.name n], List.forall_mem_append.2 ⟨hcs, List.forall_mem_singleton.2 hn⟩, ?_⟩
    rw [List.reverse_cons]
    rcases hdone with hdone | hdone
    · exact .inl (hdone ▸ rfl)
    · exact .inr (hdone ▸ rfl)

theorem components_ofComponents (h : Settled done) :
    components (ofComponents done.reverse) = done.reverse := by
  obtain ⟨cs, hcs, hdone | hdone⟩ := h.exists_pieces
  · rw [hdone, components_ofComponents_pieces hcs]
  · rw [hdone, components_ofComponents_root hcs]

end Settled

/-- The components of a normal form are read back from its path. -/
theorem components_ofComponents_normalize (p : Path) :
    components (ofComponents (normalize p)) = normalize p := by
  have h := (settled_normalize p).components_ofComponents
  rwa [List.reverse_reverse] at h

/-- **A path in normal form comes down to itself.** -/
theorem normalize_ofComponents_normalize (p : Path) :
    normalize (ofComponents (normalize p)) = normalize p := by
  have h := (settled_normalize p).foldl_resolve_reverse
  rw [List.reverse_reverse] at h
  rw [normalize, components_ofComponents_normalize, h, List.reverse_reverse]

/-! ### Order -/

theorem Component.orderKey_injective : Function.Injective Component.orderKey := by
  intro a b h
  cases a <;> cases b <;> simp_all [Component.orderKey]

theorem before_iff {a b : List Component} :
    before a b = true ↔ a.map Component.orderKey < b.map Component.orderKey := decide_eq_true_iff

theorem not_before_iff {a b : List Component} :
    (!before b a) = true ↔ a.map Component.orderKey ≤ b.map Component.orderKey := by
  rw [Bool.not_eq_true', Bool.eq_false_iff, ne_eq, before_iff, not_lt]

theorem not_before_trans (a b c : List Component) (hab : (!before b a) = true)
    (hbc : (!before c b) = true) : (!before c a) = true :=
  not_before_iff.2 (le_trans (not_before_iff.1 hab) (not_before_iff.1 hbc))

theorem not_before_total (a b : List Component) : (!before b a || !before a b) = true := by
  rw [Bool.or_eq_true, not_before_iff, not_before_iff]
  exact le_total _ _

/-- Of two different lists of components one is before the other. -/
theorem before_of_not_before {a b : List Component} (hne : a ≠ b) (h : (!before b a) = true) :
    before a b = true := by
  refine before_iff.2 (lt_of_le_of_ne (not_before_iff.1 h) fun heq => hne ?_)
  exact List.map_injective_iff.2 Component.orderKey_injective heq

end Path
end Stencil
