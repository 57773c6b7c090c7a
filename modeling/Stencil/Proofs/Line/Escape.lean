import Stencil.Proofs.Line.Form
import Stencil.Proofs.Text.Blank
import Stencil.Proofs.Text.Lines
import Stencil.Proofs.Text.Parts

/-! Text with its left delimiters made literal.

`Delimiters.escapeAll` puts the escape marker behind every left delimiter of a text. Where the text
starts with a left delimiter is not changed by that, even if delimiters could overlap
(`after?_escapeAll`, `cut?_escapeAll`), so the fragments of an escaped text are literal and say what
the text was (`fragments_escapeAll`). -/
namespace Stencil

namespace Delimiters

/-- The text with every left delimiter made literal; they are looked for from the left, each behind
the one before it. -/
def escapeAll (d : Delimiters) : Text → Text
  | [] => []
  | c :: cs =>
    match _h : Text.after? d.left (c :: cs) with
    | some rest => d.escapedLeft ++ d.escapeAll rest
    | none => c :: d.escapeAll cs
termination_by t => t.length
decreasing_by
  · have := congrArg List.length (Text.after?_eq_some_iff.1 _h)
    have := List.length_pos_iff.2 d.left_ne
    simp only [List.length_append, List.length_cons] at *
    omega
  · exact Nat.lt_succ_self _

variable (d : Delimiters) {t rest : Text}

@[simp] theorem escapeAll_nil : d.escapeAll [] = [] := by rw [escapeAll]

theorem escapeAll_of_some (h : Text.after? d.left t = some rest) :
    d.escapeAll t = d.left ++ (d.escape ++ d.escapeAll rest) := by
  cases t with
  | nil => exact absurd (List.append_eq_nil_iff.1 (Text.after?_eq_some_iff.1 h).symm).1 d.left_ne
  | cons c cs =>
    rw [escapeAll]
    split
    · next found hfound =>
      rw [h] at hfound
      cases hfound
      rw [escapedLeft, List.append_assoc]
    · next hnone =>
      rw [h] at hnone
      cases hnone

theorem escapeAll_cons_of_none {c : Char} {cs : Text} (h : Text.after? d.left (c :: cs) = none) :
    d.escapeAll (c :: cs) = c :: d.escapeAll cs := by
  rw [escapeAll]
  split
  · next found hfound =>
    rw [h] at hfound
    cases hfound
  · rfl

theorem escapeAll_ne_nil (h : t ≠ []) : d.escapeAll t ≠ [] := by
  cases t with
  | nil => exact absurd rfl h
  | cons c cs =>
    cases hafter : Text.after? d.left (c :: cs) with
    | some rest =>
      rw [escapeAll_of_some d hafter]
      exact List.append_ne_nil_of_left_ne_nil d.left_ne _
    | none =>
      rw [escapeAll_cons_of_none d hafter]
      exact List.cons_ne_nil _ _

/-- The steps that an escaped text is made in. -/
theorem escapeAll_induction {P : Text → Prop} (nil : P [])
    (delimiter : ∀ t rest, Text.after? d.left t = some rest → P rest → P t)
    (char : ∀ c cs, Text.after? d.left (c :: cs) = none → P cs → P (c :: cs)) (t : Text) : P t := by
  induction t using escapeAll.induct d with
  | case1 => exact nil
  | case2 c cs rest h ih => exact delimiter (c :: cs) rest h ih
  | case3 c cs h ih => exact char c cs h ih

/-! ### Left delimiters in it -/

/-- No more than a left delimiter can be read, an escaped text starts like the text itself. -/
theorem isPrefix_of_isPrefix_escapeAll {part : Text} (h : part <+: d.escapeAll t)
    (hlength : part.length ≤ d.left.length) : part <+: t := by
  induction t using escapeAll_induction d generalizing part with
  | nil => rwa [escapeAll_nil] at h
  | delimiter t rest hafter ih =>
    rw [escapeAll_of_some d hafter] at h
    have hleft : part <+: d.left :=
      List.prefix_of_prefix_length_le h (List.prefix_append _ _) hlength
    rw [Text.after?_eq_some_iff.1 hafter]
    exact hleft.trans (List.prefix_append _ _)
  | char c cs hafter ih =>
    rw [escapeAll_cons_of_none d hafter] at h
    cases part with
    | nil => exact List.nil_prefix
    | cons p ps =>
      obtain ⟨rfl, hps⟩ := List.cons_prefix_cons.1 h
      have hshort : ps.length ≤ d.left.length := Nat.le_trans (Nat.le_succ _) hlength
      exact List.cons_prefix_cons.2 ⟨rfl, ih hps hshort⟩

theorem after?_escapeAll (t : Text) :
    Text.after? d.left (d.escapeAll t) =
      (Text.after? d.left t).map fun rest => d.escape ++ d.escapeAll rest := by
  cases hafter : Text.after? d.left t with
  | some rest =>
    rw [escapeAll_of_some d hafter, Text.after?_append]
    rfl
  | none =>
    rw [Option.map_none, Text.after?_eq_none_iff]
    intro rest heq
    obtain ⟨more, hmore⟩ :=
      isPrefix_of_isPrefix_escapeAll d ⟨rest, heq.symm⟩ (Nat.le_refl _)
    exact Text.after?_eq_none_iff.1 hafter more hmore.symm

theorem cut?_escapeAll (t : Text) :
    Text.cut? d.left (d.escapeAll t) =
      (Text.cut? d.left t).map fun (before, rest) => (before, d.escape ++ d.escapeAll rest) := by
  induction t using escapeAll_induction d with
  | nil =>
    rw [escapeAll_nil, Text.cut?, if_neg d.left_ne]
    rfl
  | delimiter t rest hafter ih =>
    rw [Text.cut?_of_after? d.left_ne hafter, escapeAll_of_some d hafter,
      Text.cut?_of_after? d.left_ne (Text.after?_append _ _)]
    rfl
  | char c cs hafter ih =>
    have hescaped := after?_escapeAll d (c :: cs)
    rw [hafter, escapeAll_cons_of_none d hafter] at hescaped
    rw [escapeAll_cons_of_none d hafter, Text.cut?_cons_of_none _ _ hescaped, ih,
      Text.cut?_cons_of_none _ _ hafter]
    cases Text.cut? d.left cs with
    | none => rfl
    | some parts => rfl

/-- A text without left delimiters is left as it is. -/
theorem escapeAll_of_cut?_eq_none (h : Text.cut? d.left t = none) : d.escapeAll t = t := by
  induction t with
  | nil => exact escapeAll_nil d
  | cons c cs ih =>
    cases hafter : Text.after? d.left (c :: cs) with
    | some rest =>
      rw [Text.cut?_of_after? d.left_ne hafter] at h
      cases h
    | none =>
      rw [Text.cut?_cons_of_none _ _ hafter, Option.map_eq_none_iff] at h
      rw [escapeAll_cons_of_none d hafter, ih h]

/-! ### Other characters -/

theorem escapeAll_append_cons {c : Char} (hc : c ∉ d.left) (t rest : Text) :
    d.escapeAll (t ++ c :: rest) = d.escapeAll t ++ c :: d.escapeAll rest := by
  induction t using escapeAll_induction d with
  | nil =>
    have hhead : ∀ p ∈ d.left.head?, p ≠ c := by
      rintro p hp rfl
      exact hc (List.mem_of_mem_head? hp)
    have hafter := Text.after?_of_head_ne d.left_ne hhead rest
    rw [List.nil_append, escapeAll_cons_of_none d hafter, escapeAll_nil, List.nil_append]
  | delimiter t behind hafter ih =>
    rw [escapeAll_of_some d (Text.after?_append_of_some hafter (c :: rest)), ih,
      escapeAll_of_some d hafter, List.append_assoc, List.append_assoc]
  | char x xs hafter ih =>
    have hnone := Text.after?_append_cons_of_none hafter hc rest
    rw [List.cons_append] at hnone ⊢
    rw [escapeAll_cons_of_none d hnone, ih, escapeAll_cons_of_none d hafter, List.cons_append]

/-- A character that is in neither part is in the escaped text only if it is in the text. -/
theorem mem_of_mem_escapeAll {c : Char} (hleft : c ∉ d.left) (hescape : c ∉ d.escape)
    (h : c ∈ d.escapeAll t) : c ∈ t := by
  induction t using escapeAll_induction d with
  | nil => rwa [escapeAll_nil] at h
  | delimiter t rest hafter ih =>
    rw [escapeAll_of_some d hafter, List.mem_append, List.mem_append] at h
    rcases h with h | h | h
    · exact absurd h hleft
    · exact absurd h hescape
    · rw [Text.after?_eq_some_iff.1 hafter]
      exact List.mem_append_right _ (ih h)
  | char x xs hafter ih =>
    rw [escapeAll_cons_of_none d hafter] at h
    rcases List.mem_cons.1 h with rfl | h
    · exact List.mem_cons_self ..
    · exact List.mem_cons_of_mem _ (ih h)

end Delimiters

/-! ### Its fragments -/

/-- The text that a fragment stands for, if it stands for a text. -/
def Fragment.literal? (d : Delimiters) : Fragment → Option Text
  | literal text => some text
  | escaped before => some (before ++ d.left)
  | placeholder _ => none

/-- **An escaped text is cut into literal fragments that make up the text.** -/
theorem fragments_escapeAll (d : Delimiters) (t : Text) :
    ∃ (fs : List Fragment) (pieces : List Text), fragments d (d.escapeAll t) = .ok fs ∧
      fs.map (Fragment.literal? d) = pieces.map some ∧ pieces.flatten = t := by
  generalize hn : t.length = n
  induction n using Nat.strongRecOn generalizing t with
  | ind n ih =>
    by_cases hnil : t = []
    · exact ⟨[], [], by rw [hnil, Delimiters.escapeAll_nil, fragments_nil], rfl, hnil.symm⟩
    · have hescaped := d.cut?_escapeAll t
      cases hcut : Text.cut? d.left t with
      | none =>
        rw [hcut, Option.map_none] at hescaped
        rw [d.escapeAll_of_cut?_eq_none hcut] at hescaped ⊢
        exact ⟨[.literal t], [t], fragments_of_cut?_none hnil hescaped, rfl, by simp⟩
      | some parts =>
        obtain ⟨before, rest⟩ := parts
        rw [hcut, Option.map_some] at hescaped
        have hshorter := Text.length_lt_of_cut? d.left_ne hcut
        obtain ⟨fs, pieces, hfragments, hliteral, hpieces⟩ := ih rest.length (hn ▸ hshorter) rest rfl
        refine ⟨.escaped before :: fs, (before ++ d.left) :: pieces,
          fragments_of_escape hescaped (Text.after?_append _ _) hfragments, ?_, ?_⟩
        · rw [List.map_cons, List.map_cons, hliteral]
          rfl
        · rw [List.flatten_cons, hpieces, ← Text.cut?_eq_some hcut]

/-! ### Its lines -/

namespace Delimiters

variable (d : Delimiters) {t : Text}

theorem getLast?_escapeAll (hescape : '\r' ∉ d.escape)
    (h : (d.escapeAll t).getLast? = some '\r') : t.getLast? = some '\r' := by
  induction t using escapeAll_induction d with
  | nil => rwa [escapeAll_nil] at h
  | delimiter t rest hafter ih =>
    rw [escapeAll_of_some d hafter, List.getLast?_append, List.getLast?_append] at h
    rw [Text.after?_eq_some_iff.1 hafter, List.getLast?_append]
    cases hlast : (d.escapeAll rest).getLast? with
    | some c =>
      rw [hlast] at h ih
      rw [ih h]
      rfl
    | none =>
      obtain ⟨c, hc⟩ := Option.ne_none_iff_exists'.1 (mt List.getLast?_eq_none_iff.1 d.escape_ne)
      rw [hlast, hc] at h
      exact absurd (Option.some.inj h ▸ List.mem_of_getLast? hc) hescape
  | char c cs hafter ih =>
    rw [escapeAll_cons_of_none d hafter] at h
    by_cases hcs : cs = []
    · rw [hcs, escapeAll_nil] at h
      rwa [hcs]
    · rw [List.getLast?_cons_of_ne_nil (escapeAll_ne_nil d hcs)] at h
      rw [List.getLast?_cons_of_ne_nil hcs, ih h]

theorem dropReturn_escapeAll (hleft : '\r' ∉ d.left) (hescape : '\r' ∉ d.escape) (t : Text) :
    (d.escapeAll t).dropReturn = d.escapeAll t.dropReturn := by
  by_cases hlast : t.getLast? = some '\r'
  · obtain ⟨line, rfl⟩ := List.getLast?_eq_some_iff.1 hlast
    rw [escapeAll_append_cons d hleft, escapeAll_nil, Text.dropReturn_append_return,
      Text.dropReturn_append_return]
  · rw [Text.dropReturn_of_ne (mt (getLast?_escapeAll d hescape) hlast), Text.dropReturn_of_ne hlast]

theorem rawLines_escapeAll (t : Text) :
    (d.escapeAll t).rawLines = t.rawLines.map fun l => (d.escapeAll l.1, l.2) := by
  obtain ⟨hleft, _, hescape⟩ := d.one_line
  have hline : ∀ {line}, '\n' ∉ line → '\n' ∉ d.escapeAll line :=
    fun h => mt (mem_of_mem_escapeAll d hleft hescape) h
  induction t using Text.induction_lines with
  | nil =>
    rw [escapeAll_nil]
    rfl
  | line t ht hne =>
    rw [Text.rawLines_line ht hne, Text.rawLines_line (hline ht) (escapeAll_ne_nil d hne)]
    rfl
  | append t rest ht ih =>
    rw [escapeAll_append_cons d hleft, Text.rawLines_append (hline ht), ih,
      Text.rawLines_append ht]
    rfl

/-- The lines of an escaped source are the escaped lines of the source. -/
theorem ofSource_escapeAll (hleft : '\r' ∉ d.left) (hescape : '\r' ∉ d.escape) (source : Text) :
    Line.ofSource (d.escapeAll source) =
      (Line.ofSource source).map fun l => { l with content := d.escapeAll l.content } := by
  unfold Line.ofSource
  dsimp only
  rw [rawLines_escapeAll, List.zipIdx_map, List.map_map, List.map_map, List.length_map]
  refine List.map_congr_left fun l _ => ?_
  simp only [Function.comp_apply, Prod.map_fst, Prod.map_snd, id, dropReturn_escapeAll d hleft hescape]

/-! ### What its lines are -/

variable (hleft : Text.StartsInk d.left)

include hleft

theorem escapeAll_blank_append {indent : Text} (h : ∀ c ∈ indent, isBlank c = true) (t : Text) :
    d.escapeAll (indent ++ t) = indent ++ d.escapeAll t := by
  induction indent with
  | nil => rfl
  | cons c cs ih =>
    have hafter := hleft.after?_eq_none d.left_ne (h c (List.mem_cons_self ..)) (cs ++ t)
    rw [List.cons_append, escapeAll_cons_of_none d hafter,
      ih fun x hx => h x (List.mem_cons_of_mem _ hx), List.cons_append]

theorem startsInk_escapeAll (h : t.StartsInk) : (d.escapeAll t).StartsInk := by
  cases t with
  | nil => rwa [escapeAll_nil]
  | cons x xs =>
    cases hafter : Text.after? d.left (x :: xs) with
    | none =>
      rw [escapeAll_cons_of_none d hafter]
      exact h
    | some rest =>
      rw [escapeAll_of_some d hafter]
      exact hleft.append d.left_ne _

/-- A blank line is left as it is, and any other line is text that says what the line was. -/
theorem ofLine_escapeAll (content : Text) :
    (content.isBlankLine = true ∧ Form.ofLine d (d.escapeAll content) = .ok (.blank content)) ∨
    ∃ (indent : Text) (fs : List Fragment) (pieces : List Text),
      Form.ofLine d (d.escapeAll content) = .ok (.text indent fs) ∧
      fs.map (Fragment.literal? d) = pieces.map some ∧ pieces ≠ [] ∧ pieces.flatten = content := by
  have hindent : ∀ c ∈ content.indentation, isBlank c = true :=
    fun c hc => Text.isBlank_of_mem_indentation hc
  have hsplit : d.escapeAll content = content.indentation ++ d.escapeAll content.trimStart := by
    rw [← escapeAll_blank_append d hleft hindent, Text.indentation_append_trimStart]
  have htrim : (d.escapeAll content).trimStart = d.escapeAll content.trimStart := by
    rw [hsplit, Text.trimStart_append hindent
      (startsInk_escapeAll d hleft (Text.startsInk_trimStart content))]
  cases hblank : content.isBlankLine with
  | true =>
    have hrest := Text.isBlankLine_iff.1 hblank
    have hcontent : d.escapeAll content = content := by
      rw [hsplit, hrest, escapeAll_nil]
      have := Text.indentation_append_trimStart content
      rwa [hrest] at this
    rw [hcontent]
    exact .inl ⟨rfl, Form.ofLine_blank hblank⟩
  | false =>
    have hrest := Text.isBlankLine_eq_false_iff.1 hblank
    obtain ⟨fs, pieces, hfragments, hliteral, hpieces⟩ := fragments_escapeAll d content
    refine .inr ⟨_, fs, pieces, Form.ofLine_text ?_ ?_ hfragments, hliteral, ?_, hpieces⟩
    · rw [Text.isBlankLine_eq_false_iff, htrim]
      exact escapeAll_ne_nil d hrest
    · intro inside hinside
      rw [htrim, after?_escapeAll, Option.map_eq_some_iff] at hinside
      obtain ⟨rest, _, rfl⟩ := hinside
      rw [Text.after?_append]
      exact Option.some_ne_none _
    · rintro rfl
      rw [← hpieces] at hrest
      exact hrest rfl

end Delimiters
end Stencil
