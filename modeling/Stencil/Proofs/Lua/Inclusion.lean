import Stencil.Proofs.Lua.Library
import Stencil.Proofs.Text.Lines

/-! What an include writes.

The text that the host has loses its end of line, or a carriage return where it ends in one
(`chomp_eq_iff`, `chomp_append_return`); of what is left each line is written behind the
indentation, but for those with nothing on them (`indentLines_eq`). Whatever the call comes with,
that and the end of line of its options is all that is added to what there was
(`callTemplate_include`). -/
namespace Stencil.Lua

variable {t line indent : Text}

/-! ### Indented lines -/

/-- A line behind an indentation, unless nothing or only carriage returns are on it. -/
def indentLine (indent line : Text) : Text :=
  if line.all (· == '\r') then line else indent ++ line

theorem indentLine_eq (indent : Text) (h : '\n' ∉ line) (behind : Text)
    (hbehind : behind.all isLineEnd = true) :
    (if (line ++ behind).all isLineEnd then line ++ behind else indent ++ (line ++ behind)) =
      indentLine indent line ++ behind := by
  have hall : line.all isLineEnd = line.all (· == '\r') := by
    rw [Bool.eq_iff_iff, List.all_eq_true, List.all_eq_true]
    refine forall₂_congr fun c hc => ?_
    have hfeed : c ≠ '\n' := fun heq => h (heq ▸ hc)
    simp [isLineEnd, hfeed]
  rw [List.all_append, hbehind, Bool.and_true, hall, indentLine]
  split
  · rfl
  · rw [List.append_assoc]

/-- A text is indented line by line. -/
theorem indentLines_eq (indent t : Text) :
    indentLines indent t = Text.join "\n" ((Text.splitOn '\n' t).map (indentLine indent)) := by
  unfold indentLines
  induction t using Text.induction_lines with
  | nil => rfl
  | line t ht hne =>
    have hline := indentLine_eq indent ht [] rfl
    rw [List.append_nil, List.append_nil] at hline
    rw [Text.mapLines_line _ ht hne, Text.splitOn_of_not_mem ht, hline]
    rfl
  | append t rest ht ih =>
    have hrest : (Text.splitOn '\n' rest).map (indentLine indent) ≠ [] :=
      mt List.map_eq_nil_iff.1 (Text.splitOn_ne_nil '\n' rest)
    rw [Text.mapLines_append _ ht, Text.splitOn_append ht, List.map_cons, Text.join_cons _ _ hrest,
      ← ih, indentLine_eq indent ht ['\n'] rfl, List.append_assoc]
    rfl

/-! ### The end of the text -/

/-- The text without the line feed, or the carriage return and line feed, that it ends in. -/
def withoutLineEnd (t : Text) : Text :=
  match t.reverse with
  | '\n' :: '\r' :: rest => rest.reverse
  | '\n' :: rest => rest.reverse
  | _ => t

theorem dropLineFeed_append_lineFeed (t : Text) : Text.dropLineFeed (t ++ ['\n']) = t := by
  unfold Text.dropLineFeed
  rw [Text.before?_eq_some_iff.2 rfl]
  rfl

theorem dropLineFeed_of_ne {t : Text} (h : t.getLast? ≠ some '\n') : t.dropLineFeed = t := by
  unfold Text.dropLineFeed
  rw [Text.before?_of_getLast?_ne (List.cons_ne_nil _ _) h]
  rfl

/-- A carriage return is dropped also where no line feed stands behind it. -/
theorem chomp_append_return (t : Text) : chomp (t ++ ['\r']) = t := by
  have hlast : (t ++ ['\r']).getLast? ≠ some '\n' := by
    rw [List.getLast?_concat]
    decide
  rw [chomp, dropLineFeed_of_ne hlast, Text.dropReturn_append_return]

theorem chomp_append_lineFeed (t : Text) : chomp (t ++ ['\n']) = t.dropReturn := by
  rw [chomp, dropLineFeed_append_lineFeed]

/-- Nothing else is dropped. -/
theorem chomp_of_ne (h : t.getLast? ≠ some '\r') : chomp t = withoutLineEnd t := by
  unfold withoutLineEnd
  split
  · next rest heq =>
    obtain rfl : t = rest.reverse ++ ['\r'] ++ ['\n'] := by
      rw [← t.reverse_reverse, heq]
      simp
    rw [chomp_append_lineFeed, Text.dropReturn_append_return]
  · next rest hreturn heq =>
    obtain rfl : t = rest.reverse ++ ['\n'] := by
      rw [← t.reverse_reverse, heq]
      simp
    have hlast : rest.reverse.getLast? ≠ some '\r' := by
      rw [List.getLast?_reverse]
      intro hhead
      obtain ⟨others, rfl⟩ := List.head?_eq_some_iff.1 hhead
      exact hreturn others rfl
    rw [chomp_append_lineFeed, Text.dropReturn_of_ne hlast]
  · next hother =>
    have hfeed : t.getLast? ≠ some '\n' := by
      rw [← List.head?_reverse]
      intro hhead
      obtain ⟨others, heq⟩ := List.head?_eq_some_iff.1 hhead
      exact hother others heq
    rw [chomp, dropLineFeed_of_ne hfeed, Text.dropReturn_of_ne h]

/-- A text that ends in a carriage return has no end of line at its end. -/
theorem withoutLineEnd_of_return (h : t.getLast? = some '\r') : withoutLineEnd t = t := by
  obtain ⟨rest, rfl⟩ := List.getLast?_eq_some_iff.1 h
  simp [withoutLineEnd]

/-- **A carriage return at the end is the only thing that is dropped wrongly.** -/
theorem chomp_eq_iff : chomp t = withoutLineEnd t ↔ t.getLast? ≠ some '\r' := by
  refine ⟨fun h hlast => ?_, chomp_of_ne⟩
  obtain ⟨rest, rfl⟩ := List.getLast?_eq_some_iff.1 hlast
  rw [withoutLineEnd_of_return hlast, chomp_append_return] at h
  exact List.cons_ne_nil _ _ (List.self_eq_append_right.1 h)

/-! ### The call -/

variable {σ : Type} {invoke : Invoke σ} {context : Context σ}

/-- A call includes a path, with the indentation that is put into the call, if it is a call that one
is put into, and with the values of its scope and of its options. -/
inductive Includes (c : Call) : TemplateFunction → Text → Text → Value → Value → Prop
  | file {path : Text} (hpath : textOf (c.value 0) = .ok path) :
    Includes c .includeFile [] path (c.value 1) (c.value 2)
  | indented {injected path : Text} (hinjected : textOf (c.value 0) = .ok injected)
    (hpath : textOf (c.value 1) = .ok path) :
    Includes c .includeIndented injected path (c.value 2) (c.value 3)

/-- The variables that a value stands for. -/
def scopeOf (m : Machine) (v : Value) : Except Mismatch Scope :=
  if v.isNil then .ok .empty else m.scope v

/-- An include with its arguments read. -/
theorem callTemplate_eq {c : Call} {f : TemplateFunction} {injected path : Text}
    {scope options : Value} (h : Includes c f injected path scope options) :
    callTemplate invoke context f c = do
      includeWith invoke context injected path scope options
      return [] := by
  cases h with
  | file hpath => simp [callTemplate, textArgument, requireText, hpath]
  | indented hinjected hpath => simp [callTemplate, textArgument, requireText, hinjected, hpath]

theorem includeWith_run {m m₁ : Machine} {world world₁ world₂ : σ} {ofCall path t : Text}
    {v options : Value} {scope : Scope} {o : WriteOptions} (hscope : scopeOf m v = .ok scope)
    (hoptions : ((writeOptions invoke options).run.run m).run world = ((.ok o, m₁), world₁))
    (hhost : (context.host path scope).run.run world₁ = (.ok t, world₂)) :
    ((includeWith invoke context ofCall path v options).run.run m).run world =
      ((.ok (), { m₁ with
        written := (indentLines (o.indentation ofCall) (chomp t) ++ o.lineEnd) :: m₁.written }),
      world₂) := by
  have hrendered : ((monadLift (context.host path scope).run : Eval σ (Except Error Text)).run.run
      m₁).run world₁ = ((.ok (.ok t), m₁), world₂) := by
    show ((context.host path scope).run >>= fun a => pure (Except.ok a, m₁)).run world₁ = _
    rw [StateT.run_bind, hhost]
    rfl
  unfold includeWith scopeOf at *
  by_cases hnil : v.isNil = true
  · rw [if_pos hnil] at hscope ⊢
    cases hscope
    rw [pure_bind, run_bind_of_ok hoptions, run_bind_of_ok hrendered]
    rfl
  · rw [if_neg hnil] at hscope ⊢
    rw [(Yields.get m).run_bind, hscope]
    have hexchanged : ((exchanged (.ok scope) : Eval σ Scope).run.run m).run world =
        ((.ok scope, m), world) := rfl
    rw [run_bind_of_ok hexchanged, run_bind_of_ok hoptions, run_bind_of_ok hrendered]
    rfl

/-- **An include adds the text of the host to what there was**, without the end of line that it ends
in, each line with something on it behind the indentation, and with the end of line of the options.
Where the text of the host ends in a carriage return, which is no end of line, that is lost, and
nothing else is. -/
theorem callTemplate_include {c : Call} {f : TemplateFunction} {injected path t : Text}
    {scopeValue options : Value} {scope : Scope} {o : WriteOptions} {m m₁ : Machine}
    {world world₁ world₂ : σ} (hcall : Includes c f injected path scopeValue options)
    (hscope : scopeOf m scopeValue = .ok scope)
    (hoptions : ((writeOptions invoke options).run.run m).run world = ((.ok o, m₁), world₁))
    (hhost : (context.host path scope).run.run world₁ = (.ok t, world₂)) :
    ∃ kept m', ((callTemplate invoke context f c).run.run m).run world =
        ((.ok [], m'), world₂) ∧
      m'.output = m₁.output ++ Text.join "\n" ((Text.splitOn '\n' kept).map
        (indentLine (if o.isIndented then o.indent.getD injected else []))) ++ o.lineEnd ∧
      m' = { m₁ with written := m'.written } ∧
      (kept = withoutLineEnd t ↔ t.getLast? ≠ some '\r') ∧
      (t.getLast? = some '\r' → t = kept ++ ['\r']) := by
  refine ⟨chomp t, { m₁ with
    written := (indentLines (o.indentation injected) (chomp t) ++ o.lineEnd) :: m₁.written },
    ?_, ?_, rfl, chomp_eq_iff, fun hlast => ?_⟩
  · rw [callTemplate_eq hcall, run_bind_of_ok (includeWith_run hscope hoptions hhost)]
    rfl
  · rw [indentLines_eq]
    simp [Machine.output, WriteOptions.indentation]
  · obtain ⟨rest, rfl⟩ := List.getLast?_eq_some_iff.1 hlast
    rw [chomp_append_return]

/-- A template that includes a text, whatever the path. -/
def including (t : Text) : Context Unit where
  host _ _ := pure t
  scope := .empty
  functions := .empty

theorem callTemplate_include_lines :
    (Includes ⟨"__include", false, [.ofText "  ", .ofText "part", .nil, .ofText "!"]⟩
      .includeIndented "  " "part" .nil (.ofText "!") ∧
        ("a\r\n\r\n\rb\r\n" : Text).getLast? ≠ some '\r') ∧
      ∃ m', ((callTemplate (Lua.invoke (including "a\r\n\r\n\rb\r\n") 8)
          (including "a\r\n\r\n\rb\r\n") .includeIndented
          ⟨"__include", false, [.ofText "  ", .ofText "part", .nil, .ofText "!"]⟩).run.run
            ({ written := ["before"] } : Machine)).run () = ((.ok [], m'), ()) ∧
        m'.output = "before  a\r\n\r\n  \rb!" := by
  have hcall : Includes ⟨"__include", false, [.ofText "  ", .ofText "part", .nil, .ofText "!"]⟩
      .includeIndented "  " "part" .nil (.ofText "!") := .indented rfl rfl
  have hlast : ("a\r\n\r\n\rb\r\n" : Text).getLast? ≠ some '\r' := by decide
  refine ⟨⟨hcall, hlast⟩, ?_⟩
  have hoptions : ((writeOptions (Lua.invoke (including "a\r\n\r\n\rb\r\n") 8)
      (.ofText "!")).run.run ({ written := ["before"] } : Machine)).run () =
        ((.ok { lineEnd := "!" }, { written := ["before"] }), ()) := rfl
  have hhost : ((including "a\r\n\r\n\rb\r\n").host "part" .empty).run.run () =
      (.ok "a\r\n\r\n\rb\r\n", ()) := rfl
  obtain ⟨kept, m', hrun, houtput, -, hkept, -⟩ := callTemplate_include hcall rfl hoptions hhost
  refine ⟨m', hrun, ?_⟩
  rw [houtput, hkept.2 hlast]
  decide

/-- A carriage return at the end of the text, and no line feed: it is lost. -/
theorem callTemplate_include_return :
    ∃ m', ((callTemplate (Lua.invoke (including "a\r") 8) (including "a\r") .includeFile
          ⟨"include", false, [.ofText "part"]⟩).run.run {}).run () = ((.ok [], m'), ()) ∧
        m'.output = "a\n" ∧ m'.output ≠ withoutLineEnd "a\r" ++ "\n" := by
  refine ⟨_, rfl, ?_, ?_⟩
  · decide
  · decide

end Stencil.Lua
