import Mathlib.Logic.Relation
import Stencil.Proofs.Files

/-! Where relative paths lead.

Lexical resolution looks at nothing but the pieces of a path: what names nothing is dropped, and a
`..` takes back the name right before it, until the path only goes up and then down. There is one
such end for every path (`resolves_iff`), and two paths have the same end just when they lead to the
same place from every directory (`leadsFrom_eq_iff`). The normal form of a path goes down as its end
does, but goes up only by the remainder of an even number of steps (`normalize_eq_halved`), so files
are told apart by that remainder (`normalize_relative`). -/
namespace Stencil.Path

/-! ### Lexical resolution -/

/-- A piece of a path that names something inside a directory. -/
def IsName (piece : Text) : Prop := ¬ (piece = [] ∨ piece = ['.']) ∧ piece ≠ ['.', '.']

instance (piece : Text) : Decidable (IsName piece) := by
  unfold IsName
  infer_instance

theorem piece_cases (piece : Text) :
    (piece = [] ∨ piece = ['.']) ∨ piece = ['.', '.'] ∨ IsName piece := by
  by_cases hidle : piece = [] ∨ piece = ['.']
  · exact .inl hidle
  by_cases hup : piece = ['.', '.']
  · exact .inr (.inl hup)
  · exact .inr (.inr ⟨hidle, hup⟩)

/-- One step of lexical resolution. -/
inductive Shortens : List Text → List Text → Prop
  /-- An empty piece and a `.` lead nowhere else. -/
  | drop {piece : Text} (before behind : List Text) : piece = [] ∨ piece = ['.'] →
    Shortens (before ++ piece :: behind) (before ++ behind)
  /-- A `..` takes back the name right before it. -/
  | takeBack {name : Text} (before behind : List Text) : IsName name →
    Shortens (before ++ name :: ['.', '.'] :: behind) (before ++ behind)

/-- What is left of a path: steps up, and then names. -/
structure Resolution where
  ups : Nat
  names : List Text
deriving Repr, DecidableEq

def Resolution.pieces (r : Resolution) : List Text := List.replicate r.ups ['.', '.'] ++ r.names

/-- The path is resolved step by step, and nothing can be taken back any more. -/
structure Resolves (p : Path) (r : Resolution) : Prop where
  shortens : Relation.ReflTransGen Shortens (Text.splitOn '/' p) r.pieces
  names : ∀ name ∈ r.names, IsName name

namespace Resolution

/-- The resolution of a path with one more piece. -/
def step (r : Resolution) (piece : Text) : Resolution :=
  if piece = [] ∨ piece = ['.'] then r
  else if piece = ['.', '.'] then
    if r.names = [] then { r with ups := r.ups + 1 } else { r with names := r.names.dropLast }
  else { r with names := r.names ++ [piece] }

def ofPieces (pieces : List Text) : Resolution := pieces.foldl step ⟨0, []⟩

variable (r : Resolution)

theorem step_idle {piece : Text} (h : piece = [] ∨ piece = ['.']) : r.step piece = r := if_pos h

theorem step_name {name : Text} (h : IsName name) :
    r.step name = { r with names := r.names ++ [name] } := by
  rw [step, if_neg h.1, if_neg h.2]

theorem step_up (ups : Nat) : step ⟨ups, []⟩ ['.', '.'] = ⟨ups + 1, []⟩ := rfl

theorem step_takeBack (ups : Nat) (names : List Text) (name : Text) :
    step ⟨ups, names ++ [name]⟩ ['.', '.'] = ⟨ups, names⟩ := by
  simp [step]

/-- What a step of resolution takes out makes no difference to the pieces behind it. -/
theorem foldl_step_of_shortens {a b : List Text} (h : Shortens a b) :
    a.foldl step r = b.foldl step r := by
  cases h with
  | drop before behind hpiece =>
    rw [List.foldl_append, List.foldl_append, List.foldl_cons, step_idle _ hpiece]
  | takeBack before behind hname =>
    rw [List.foldl_append, List.foldl_append, List.foldl_cons, List.foldl_cons, step_name _ hname,
      step_takeBack]

theorem ofPieces_of_shortens {a b : List Text} (h : Relation.ReflTransGen Shortens a b) :
    ofPieces a = ofPieces b := by
  induction h with
  | refl => rfl
  | tail _ hstep ih => rw [ih, ofPieces, foldl_step_of_shortens _ hstep, ofPieces]

theorem foldl_step_ups (n ups : Nat) :
    (List.replicate n ['.', '.']).foldl step ⟨ups, []⟩ = ⟨ups + n, []⟩ := by
  induction n generalizing ups with
  | zero => rfl
  | succ n ih =>
    rw [List.replicate_succ, List.foldl_cons, step_up, ih, Nat.add_assoc, Nat.add_comm 1]

theorem foldl_step_names {names : List Text} (h : ∀ name ∈ names, IsName name) (r : Resolution) :
    names.foldl step r = { r with names := r.names ++ names } := by
  induction names generalizing r with
  | nil => rw [List.foldl_nil, List.append_nil]
  | cons name rest ih =>
    obtain ⟨hname, hrest⟩ := List.forall_mem_cons.1 h
    rw [List.foldl_cons, step_name _ hname, ih hrest, List.append_assoc]
    rfl

/-- What is fully resolved is its own resolution. -/
theorem ofPieces_pieces (h : ∀ name ∈ r.names, IsName name) : ofPieces r.pieces = r := by
  rw [ofPieces, pieces, List.foldl_append, foldl_step_ups, foldl_step_names h]
  simp

/-- One more piece is resolved in at most one step. -/
theorem shortens_step (h : ∀ name ∈ r.names, IsName name) (piece : Text) (behind : List Text) :
    Relation.ReflTransGen Shortens (r.pieces ++ piece :: behind) ((r.step piece).pieces ++ behind) ∧
      ∀ name ∈ (r.step piece).names, IsName name := by
  rcases piece_cases piece with hidle | rfl | hname
  · rw [step_idle r hidle]
    exact ⟨.single (.drop _ _ hidle), h⟩
  · obtain ⟨ups, names⟩ := r
    rcases List.eq_nil_or_concat names with rfl | ⟨names, last, rfl⟩
    · rw [step_up, pieces, pieces, List.replicate_succ']
      simp only [List.append_nil, List.append_assoc, List.cons_append, List.nil_append]
      exact ⟨.refl, nofun⟩
    · rw [List.concat_eq_append] at h ⊢
      obtain ⟨hnames, hlast⟩ := List.forall_mem_append.1 h
      rw [step_takeBack, pieces, pieces]
      simp only [← List.append_assoc]
      rw [List.append_assoc _ [last]]
      exact ⟨.single (.takeBack _ _ (hlast _ List.mem_cons_self)), hnames⟩
  · rw [step_name r hname, pieces, pieces]
    refine ⟨?_, List.forall_mem_append.2 ⟨h, List.forall_mem_singleton.2 hname⟩⟩
    simp only [List.append_assoc, List.cons_append, List.nil_append]
    exact .refl

theorem shortens_foldl (pieces : List Text) (r : Resolution) (h : ∀ name ∈ r.names, IsName name) :
    Relation.ReflTransGen Shortens (r.pieces ++ pieces) (pieces.foldl step r).pieces ∧
      ∀ name ∈ (pieces.foldl step r).names, IsName name := by
  induction pieces generalizing r with
  | nil =>
    rw [List.append_nil]
    exact ⟨.refl, h⟩
  | cons piece rest ih =>
    obtain ⟨hstep, hnames⟩ := r.shortens_step h piece rest
    obtain ⟨hrest, hall⟩ := ih (r.step piece) hnames
    exact ⟨hstep.trans hrest, hall⟩

end Resolution

def resolution (p : Path) : Resolution := .ofPieces (Text.splitOn '/' p)

/-- **Every path is resolved in exactly one way.** -/
theorem resolves_iff {p : Path} {r : Resolution} : p.Resolves r ↔ r = resolution p := by
  constructor
  · intro h
    rw [resolution, Resolution.ofPieces_of_shortens h.shortens, r.ofPieces_pieces h.names]
  · intro h
    obtain ⟨hshortens, hnames⟩ := Resolution.shortens_foldl (Text.splitOn '/' p) ⟨0, []⟩ nofun
    rw [h]
    exact ⟨hshortens, hnames⟩

/-! ### Places -/

/-- Where a piece leads from a directory, which is given by the names that lead there from the root,
the innermost first. The directory around the root is the root. -/
def follow (directory : List Text) (piece : Text) : List Text :=
  if piece = [] ∨ piece = ['.'] then directory
  else if piece = ['.', '.'] then directory.tail
  else piece :: directory

def leadsFrom (directory : List Text) (p : Path) : List Text :=
  (Text.splitOn '/' p).foldl follow directory

/-- Where a resolved path leads. -/
def Resolution.place (directory : List Text) (r : Resolution) : List Text :=
  r.names.reverse ++ directory.drop r.ups

theorem follow_place (directory : List Text) (r : Resolution) (piece : Text) :
    follow (r.place directory) piece = (r.step piece).place directory := by
  rcases piece_cases piece with hidle | rfl | hname
  · rw [follow, if_pos hidle, r.step_idle hidle]
  · obtain ⟨ups, names⟩ := r
    rcases List.eq_nil_or_concat names with rfl | ⟨names, last, rfl⟩
    · show (directory.drop ups).tail = directory.drop (ups + 1)
      rw [List.tail_drop]
    · rw [List.concat_eq_append, Resolution.step_takeBack]
      simp [follow, Resolution.place]
  · rw [r.step_name hname, follow, if_neg hname.1, if_neg hname.2]
    simp [Resolution.place]

theorem leadsFrom_eq_place (directory : List Text) (p : Path) :
    leadsFrom directory p = (resolution p).place directory := by
  have hfold : ∀ pieces : List Text, ∀ r : Resolution,
      pieces.foldl follow (r.place directory) =
        (pieces.foldl Resolution.step r).place directory := by
    intro pieces
    induction pieces with
    | nil => exact fun _ => rfl
    | cons piece rest ih =>
      intro r
      rw [List.foldl_cons, List.foldl_cons, follow_place, ih]
  exact hfold _ ⟨0, []⟩

/-- **Two paths lead to the same place from every directory just when they are resolved to the
same.** -/
theorem leadsFrom_eq_iff {p q : Path} :
    (∀ directory, leadsFrom directory p = leadsFrom directory q) ↔ resolution p = resolution q := by
  constructor
  · intro h
    simp only [leadsFrom_eq_place, Resolution.place] at h
    generalize resolution p = r at *
    generalize resolution q = s at *
    obtain ⟨ups, names⟩ := r
    obtain ⟨ups', names'⟩ := s
    -- at the root only the names count, and deep enough every step up does
    have hnames := h []
    simp only [List.drop_nil, List.append_nil, List.reverse_inj] at hnames
    have hups := congrArg List.length (h (List.replicate (ups + ups') ['d']))
    simp only [List.length_append, List.length_drop, List.length_replicate, hnames] at hups
    rw [Resolution.mk.injEq]
    exact ⟨by omega, hnames⟩
  · intro h directory
    rw [leadsFrom_eq_place, leadsFrom_eq_place, h]

/-! ### Normal forms -/

namespace Resolution

def components (r : Resolution) : List Component :=
  List.replicate r.ups .parent ++ r.names.map .name

/-- Two steps up in a row take each other back. -/
def halved (r : Resolution) : Resolution := { r with ups := r.ups % 2 }

/-- A second step up takes back the first. -/
theorem resolve_parent (r : Resolution) :
    resolve r.halved.components.reverse .parent =
      (r.step ['.', '.']).halved.components.reverse := by
  obtain ⟨ups, names⟩ := r
  rcases List.eq_nil_or_concat names with rfl | ⟨names, last, rfl⟩
  · rw [step_up]
    simp only [halved, components, List.map_nil, List.append_nil]
    rcases Nat.mod_two_eq_zero_or_one ups with heven | hodd
    · rw [heven, show (ups + 1) % 2 = 1 by omega]
      rfl
    · rw [hodd, show (ups + 1) % 2 = 0 by omega]
      rfl
  · rw [List.concat_eq_append, step_takeBack]
    simp only [halved, components, List.map_append, List.reverse_append]
    rfl

theorem resolve_name (r : Resolution) {name : Text} (h : IsName name) :
    resolve r.halved.components.reverse (.name name) =
      (r.step name).halved.components.reverse := by
  rw [r.step_name h]
  simp only [halved, components, List.map_append, List.reverse_append]
  rfl

theorem foldl_resolve_halved (pieces : List Text) (r : Resolution) :
    (pieces.filterMap Component.ofPiece?).foldl resolve r.halved.components.reverse =
      (pieces.foldl step r).halved.components.reverse := by
  induction pieces generalizing r with
  | nil => rfl
  | cons piece rest ih =>
    rw [List.foldl_cons]
    rcases piece_cases piece with hidle | rfl | hname
    · have hnone : Component.ofPiece? piece = none := if_pos hidle
      rw [List.filterMap_cons_none hnone, step_idle r hidle, ih]
    · have hparent : Component.ofPiece? ['.', '.'] = some .parent := rfl
      rw [List.filterMap_cons_some hparent, List.foldl_cons, resolve_parent, ih]
    · have hsome : Component.ofPiece? piece = some (.name piece) := by
        rw [Component.ofPiece?, if_neg hname.1, if_neg hname.2]
      rw [List.filterMap_cons_some hsome, List.foldl_cons, resolve_name r hname, ih]

theorem components_injective : Function.Injective components := by
  intro r s h
  obtain ⟨ups, names⟩ := r
  obtain ⟨ups', names'⟩ := s
  have hcount : ∀ names : List Text, (names.map Component.name).count .parent = 0 := by
    intro names
    rw [List.count_eq_zero]
    simp
  have hups := congrArg (List.count Component.parent) h
  simp only [components, List.count_append, List.count_replicate_self, hcount] at hups
  obtain rfl : ups = ups' := hups
  have hnames := List.append_cancel_left h
  have hinjective : Function.Injective Component.name := fun _ _ => Component.name.inj
  exact congrArg (Resolution.mk ups) (List.map_injective_iff.2 hinjective hnames)

theorem map_text_components (r : Resolution) : r.components.map Component.text = r.pieces := by
  rw [components, pieces, List.map_append, List.map_replicate, List.map_map]
  congr 1
  exact List.map_id _

theorem ofComponents_components (r : Resolution) :
    ofComponents r.components = Text.join "/" r.pieces := by
  rw [← r.map_text_components]
  unfold ofComponents
  split
  · next hroot =>
    have hmem : Component.root ∈ r.components := hroot ▸ List.mem_singleton_self _
    simp [components] at hmem
  · rfl

theorem halved_eq_self_iff {r : Resolution} : r.halved = r ↔ r.ups ≤ 1 := by
  obtain ⟨ups, names⟩ := r
  simp only [halved, Resolution.mk.injEq, and_true]
  omega

end Resolution

/-- **The normal form of a relative path goes up by the remainder of an even number of steps, and
then down as the path does.** -/
theorem normalize_eq_halved {p : Path} (h : isAbsolute p = false) :
    normalize p = (resolution p).halved.components := by
  have hfold := Resolution.foldl_resolve_halved (Text.splitOn '/' p) ⟨0, []⟩
  rw [normalize, components_of_not_isAbsolute h, pieces]
  exact List.reverse_eq_iff.2 hfold

/-- **A relative path comes down to its resolution, but for every two steps up that are left of
it.** Files are told apart by what paths come down to, so an insertion at one path is seen at another
just when their resolutions differ by an even number of steps up at most; then they need not lead to
the same place. -/
theorem normalize_relative {p : Path} (h : isAbsolute p = false) :
    ∃ r : Resolution, (∀ s, p.Resolves s ↔ s = r) ∧
      normalize p = r.halved.components ∧
      ofComponents (normalize p) = Text.join "/" r.halved.pieces ∧
      (normalize p = r.components ↔ r.ups ≤ 1) ∧
      ∀ (q : Path) (s : Resolution), isAbsolute q = false → q.Resolves s →
        (∀ (f : Files) (text : Text), (f.insert p text).read? q =
          if r.halved = s.halved then some text else f.read? q) ∧
        ((∀ directory, leadsFrom directory p = leadsFrom directory q) ↔ r = s) := by
  have hnormal := normalize_eq_halved h
  refine ⟨resolution p, fun _ => resolves_iff, hnormal, ?_, ?_, ?_⟩
  · rw [hnormal, Resolution.ofComponents_components]
  · rw [hnormal, Resolution.components_injective.eq_iff, Resolution.halved_eq_self_iff]
  · intro q s hq hs
    rw [resolves_iff.1 hs]
    refine ⟨fun f text => ?_, leadsFrom_eq_iff⟩
    have hread : (f.insert p text).read? q = if normalize p = normalize q then some text
      else f.read? q := f.held?_insert p text
    rw [hread, hnormal, normalize_eq_halved hq]
    exact if_congr Resolution.components_injective.eq_iff rfl rfl

/-- One step up stays in front, and a file is found by another path that goes up as often. -/
theorem normalize_relative_up :
    isAbsolute "b/.././../a".toList = false ∧ Resolves "b/.././../a".toList ⟨1, ["a".toList]⟩ ∧
      isAbsolute "../c//../a".toList = false ∧ Resolves "../c//../a".toList ⟨1, ["a".toList]⟩ ∧
      normalize "b/.././../a".toList = [.parent, .name "a".toList] ∧
      (Files.empty.insert "b/.././../a" "text").read? "../c//../a" = some "text".toList := by
  have hp : Resolves "b/.././../a".toList ⟨1, ["a".toList]⟩ := resolves_iff.2 (by decide)
  have hq : Resolves "../c//../a".toList ⟨1, ["a".toList]⟩ := resolves_iff.2 (by decide)
  obtain ⟨r, hr, hnormal, _, _, hread⟩ := normalize_relative (p := "b/.././../a".toList) rfl
  obtain rfl := (hr _).1 hp
  exact ⟨rfl, hp, rfl, hq, hnormal, (hread _ _ rfl hq).1 Files.empty "text".toList⟩

/-- Two steps up are lost: two directories further up there is another file of that name. -/
theorem normalize_two_ups :
    Resolves "../../a".toList ⟨2, ["a".toList]⟩ ∧ Resolves "a".toList ⟨0, ["a".toList]⟩ ∧
      normalize "../../a".toList = [.name "a".toList] ∧
      normalize "../../a".toList = normalize "a".toList ∧
      (Files.empty.insert "../../a" "text").exists? "a" = true ∧
      leadsFrom ["c".toList, "b".toList] "../../a".toList = ["a".toList] ∧
      leadsFrom ["c".toList, "b".toList] "a".toList = ["a".toList, "c".toList, "b".toList] :=
  ⟨resolves_iff.2 (by decide), resolves_iff.2 (by decide), by decide, by decide, by decide,
    by decide, by decide⟩

end Stencil.Path
