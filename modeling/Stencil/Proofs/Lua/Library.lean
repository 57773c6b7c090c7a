import Stencil.Proofs.Lua.Evaluation

/-! What the functions for templates do with texts and integers.

`print` writes a text as it is, with the end of line that it is given, and `str` makes of an integer
the text that it is written with. An include writes what the host has for its path, indented. -/
namespace Stencil.Lua

variable {σ : Type} {world : σ} {context : Context σ} {m : Machine} {naming : Option Naming}
  {depth : Nat}

/-- No line is changed by an indentation of nothing. -/
theorem indentLines_nil (t : Text) : indentLines [] t = t := by
  unfold indentLines Text.mapLines
  have hline : (fun line : Text => if line.all isLineEnd then line else [] ++ line) = id := by
    funext line
    exact ite_self line
  rw [hline]
  exact Text.unlines_rawLines t

theorem text_int {i : Int} (h : Number.inRange i = true) :
    (Number.ofInt i).text = Number.integerText i := by
  simp only [Number.inRange, Bool.and_eq_true, decide_eq_true_eq] at h
  show Number.integerText (Int64.ofInt i).toInt = _
  rw [Int64.toInt_ofInt_of_le h.1 h.2]

namespace Writes

/-- A text is written as it is, with an end of line. -/
theorem writeLines (o : WriteOptions) (hindent : o.indent = none) (content : Text) :
    Writes world (writeLines o [] content : Eval σ Unit) m () (content ++ o.lineEnd) := by
  have hindentation : o.indentation [] = [] := by
    unfold WriteOptions.indentation
    rw [hindent]
    exact ite_self _
  unfold Lua.writeLines
  rw [hindentation, indentLines_nil]
  exact write _ m

theorem requireText (label t : Text) :
    Writes world (requireText label (.ofText t) : Eval σ Text) m t [] := by
  unfold Lua.requireText textOf
  dsimp only [Value.ofText, Value.bytes?]
  rw [Bytes.text?_bytes]
  exact pure _ _

/-- `print` writes a text and an end of line, which is a line feed unless it is told otherwise. -/
theorem print (content : Text) (lineEnd : Option Text) :
    Writes world (invoke context (depth + 1) (.native (.template .print))
      (.ofText content :: (lineEnd.map Value.ofText).toList) naming) m []
      (content ++ lineEnd.getD ['\n']) := by
  refine invoke_native fun _ => ?_
  refine bindSilent (a := ()) (silent (a := content) ?_ fun _ => ?_) fun _ => pure _ _
  · show Writes world (Pure.pure (Bytes.text content.bytes)) _ _ _
    rw [Bytes.text_bytes]
    exact pure _ _
  · cases lineEnd with
    | none => exact silent (pure _ _) fun _ => writeLines _ rfl content
    | some lineEnd =>
      refine silent (a := ({ lineEnd } : WriteOptions)) ?_ fun _ => writeLines _ rfl content
      show Writes world (Pure.pure ({ lineEnd := Bytes.text lineEnd.bytes } : WriteOptions)) _ _ _
      rw [Bytes.text_bytes]
      exact pure _ _

/-- `tostring` makes of an integer the text that it is written with. -/
theorem toString {i : Int} (h : Number.inRange i = true) :
    Writes world (invoke context (depth + 1) (.native (.core .toString)) [.int i] naming) m
      [.ofText (Number.integerText i)] [] := by
  refine invoke_native fun _ => silent (pure (Value.int i) _) fun _ => ?_
  refine silent (a := (Number.integerText i).bytes) ?_ fun _ => pure _ _
  show Writes world (Pure.pure (Number.ofInt i).text.bytes) _ _ _
  rw [text_int h]
  exact pure _ _

/-- `str` asks the global function `tostring`. -/
theorem str {i : Int} (h : Number.inRange i = true) (hglobals : globals < m.objects.size)
    (htoString : (m.object globals).getText "tostring" = .native (.core .toString)) :
    Writes world (invoke context (depth + 2) (.native (.template .str)) [.int i] naming) m
      [.ofText (Number.integerText i)] [] := by
  refine invoke_native fun hm => ?_
  refine silent (a := Number.integerText i) ?_ fun _ => pure _ _
  refine silent (object globals _) fun hm' => ?_
  rw [hm.object hglobals, htoString]
  refine silent (a := [.ofText (Number.integerText i)]) ?_ fun _ => ?_
  · exact silent (get _) fun _ => caught (toString h)
  · exact requireText [] (Number.integerText i)

/-- `str` has a text for itself. -/
theorem str_ofText (t : Text) :
    Writes world (invoke context (depth + 1) (.native (.template .str)) [.ofText t] naming) m
      [.ofText t] [] := by
  refine invoke_native fun _ => silent (a := t) ?_ fun _ => pure _ _
  show Writes world (Pure.pure (Bytes.text t.bytes)) _ _ _
  rw [Bytes.text_bytes]
  exact pure _ _

/-- An include writes what the host has for the path, without one end of line and indented. -/
theorem includeWith {invoke : Invoke σ} {indent path included : Text}
    (h : (context.host path .empty).run.run world = (.ok included, world)) :
    Writes world (includeWith invoke context indent path .nil .nil) m ()
      (indentLines indent (chomp included) ++ ['\n']) := by
  have hhost : ∀ m, Writes world (monadLift (context.host path .empty).run : Eval σ _) m
      (Except.ok included) [] := fun m => ⟨m, .lift h m, .refl m⟩
  have hscope : ∀ m, Writes world (Pure.pure .empty : Eval σ Scope) m .empty [] := pure _
  have hoptions : ∀ m, Writes world (writeOptions invoke .nil : Eval σ WriteOptions) m {} [] := pure _
  exact silent (hscope m) fun _ => silent (hoptions _) fun _ => silent (hhost _) fun _ => write _ _

theorem includeIndented {indent path included : Text}
    (h : (context.host path .empty).run.run world = (.ok included, world)) :
    Writes world (invoke context (depth + 1) (.native (.template .includeIndented))
      [.ofText indent, .ofText path] naming) m []
      (indentLines indent (chomp included) ++ ['\n']) :=
  invoke_native fun _ => silent (requireText _ indent) fun _ =>
    silent (requireText _ path) fun _ => bindSilent (includeWith h) fun _ => pure _ _

end Writes
end Stencil.Lua
