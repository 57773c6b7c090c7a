import Stencil.Proofs.Render.Course

/-! How deep includes go, and how their failures are told.

Each level of includes uses up one of the levels that are left (`inclusion_bounded`), so no event of
a course is nested deeper than the limit allows, and a chain of includes is longer than that only
where one was refused. `Call.perform_includes` tells from it which frames an error has. -/
namespace Stencil.Playback

/-! ### Bounds -/

/-- What holds of a course that starts nested in `depth` templates, when templates may be nested in
`limit` others: no event is nested deeper, and it breaks down on an include beyond the limit just
when all the includes up to there are in the chain. -/
structure Course.Bounded (c : Course) (depth limit : Nat) : Prop where
  events : ∀ x ∈ c.events, x.1 ≤ limit
  ending : ∀ b, c.ending = .error b → depth + b.frames.length ≤ limit + 1 ∧
    ((∃ path, b.stop = .refused path) ↔ depth + b.frames.length = limit + 1)

namespace Course.Bounded

variable {c : Course} {depth limit : Nat}

/-- A course that stops at once, and not because of the limit. -/
theorem stopped {stop : Stop} (hdepth : depth ≤ limit) (hstop : ∀ path, stop ≠ .refused path) :
    (stopped stop).Bounded depth limit where
  events := nofun
  ending := by
    intro b hb
    cases hb
    refine ⟨Nat.le_succ_of_le hdepth, iff_of_false (fun ⟨path, hpath⟩ => hstop path hpath) ?_⟩
    exact Nat.ne_of_lt (Nat.lt_succ_of_le hdepth)

theorem refused {path : Path} (hdepth : depth = limit + 1) :
    (Course.stopped (.refused path)).Bounded depth limit where
  events := nofun
  ending := by
    intro b hb
    cases hb
    exact ⟨Nat.le_of_eq hdepth, iff_of_true ⟨path, rfl⟩ hdepth⟩

theorem writing (h : c.Bounded depth limit) (text : Text) :
    (c.writing text).Bounded depth limit where
  events := h.events
  ending := by
    intro b hb
    cases hc : c.ending with
    | ok output =>
      rw [Course.writing, hc] at hb
      cases hb
    | error found =>
      rw [Course.writing, hc] at hb
      cases hb
      exact h.ending b hc

theorem after (h : c.Bounded depth limit) {events : List (Nat × Event)}
    (hevents : ∀ x ∈ events, x.1 ≤ limit) : (c.after events).Bounded depth limit where
  events := by
    intro x hx
    rcases List.mem_append.1 hx with hx | hx
    · exact hevents x hx
    · exact h.events x hx
  ending := h.ending

/-- What breaks down one level deeper has one frame less. -/
theorem within {events : List (Nat × Event)} {b : Breakdown}
    (h : Course.Bounded ⟨events, .error b⟩ (depth + 1) limit) (f : Frame) :
    Course.Bounded ⟨events, .error (b.within f)⟩ depth limit where
  events := h.events
  ending := by
    intro found hfound
    cases hfound
    have hlength : depth + (b.within f).frames.length = depth + 1 + b.frames.length := by
      simp only [Breakdown.within, List.length_cons]
      omega
    rw [hlength]
    exact h.ending b rfl

end Course.Bounded

theorem search_depth (files : Files) (depth : Nat) (paths : List Path) :
    ∀ x ∈ (search files depth paths).1, x.1 = depth := by
  induction paths with
  | nil => exact nofun
  | cons path rest ih =>
    intro x hx
    rw [search] at hx
    split at hx
    · rcases List.mem_cons.1 hx with rfl | hx
      · rfl
      · exact congrArg Prod.fst (List.mem_singleton.1 hx)
    · rcases List.mem_cons.1 hx with rfl | hx
      · rfl
      · exact ih x hx

section
variable {s : Settings} {rules : List Rule} {files : Files} {depth limit : Nat}

theorem follow_bounded {inner : Path → Scope → Course} (hdepth : depth ≤ limit)
    (hinner : ∀ path scope, (inner path scope).Bounded (depth + 1) limit)
    (t : Template) (script : Script) (scope : Scope) (acts : List Action) :
    (follow s inner t script scope acts).Bounded depth limit := by
  induction acts with
  | nil => exact ⟨nofun, nofun⟩
  | cons action rest ih =>
    cases action with
    | write text => exact ih.writing text
    | «variable» name => exact ih.writing _
    | «include» path given line =>
      rw [follow]
      have hpath := hinner path given
      cases hcourse : inner path given with
      | mk events ending =>
        rw [hcourse] at hpath
        cases ending with
        | ok text => exact (ih.writing text).after hpath.events
        | error b => exact hpath.within ⟨t, script, line⟩
    | call function arguments line =>
      rw [follow]
      cases functionText s.functions function arguments with
      | ok text => exact ih.writing text
      | error message => exact .stopped hdepth fun _ => Stop.noConfusion
    | fail kind message attributes line => exact .stopped hdepth fun _ => Stop.noConfusion

theorem execution_bounded {inner : Path → Scope → Course} (hdepth : depth ≤ limit)
    (hinner : ∀ path scope, (inner path scope).Bounded (depth + 1) limit)
    (t : Template) (script : Script) (scope : Scope) :
    (execution s rules depth inner t script scope).Bounded depth limit :=
  (follow_bounded hdepth hinner t script scope _).after
    fun _ hx => List.mem_singleton.1 hx ▸ hdepth

theorem rendering_bounded {inner : Option Path → Path → Scope → Course} (hdepth : depth ≤ limit)
    (hinner : ∀ directory path scope, (inner directory path scope).Bounded (depth + 1) limit)
    (t : Template) (scope : Scope) :
    (rendering s rules depth inner t scope).Bounded depth limit := by
  rw [rendering]
  cases t.compile s.delimiters s.indentUnit with
  | error fault => exact .stopped hdepth fun _ => Stop.noConfusion
  | ok script => exact execution_bounded hdepth (hinner t.directory?) t script scope

/-- With each level that is taken, one less is left. -/
theorem inclusion_bounded (levels : Nat) (hlevels : depth + levels = limit + 1)
    (directory : Option Path) (path : Path) (scope : Scope) :
    (inclusion s rules files directory levels depth path scope).Bounded depth limit := by
  induction levels generalizing depth directory path scope with
  | zero => exact .refused hlevels
  | succ levels ih =>
    have hdepth : depth ≤ limit := by omega
    have hsearch := search_depth files depth [Renderer.target directory path,
      Renderer.target directory path ++ "." ++ s.suffix]
    rw [inclusion]
    cases hfound : search files depth [Renderer.target directory path,
      Renderer.target directory path ++ "." ++ s.suffix] with
    | mk events found =>
      rw [hfound] at hsearch
      have hevents : ∀ x ∈ events, x.1 ≤ limit := fun x hx => hsearch x hx ▸ hdepth
      cases found with
      | none =>
        have hstop : ∀ attempted path, Stop.unloaded attempted ≠ .refused path := nofun
        exact (Course.Bounded.stopped hdepth (hstop _)).after hevents
      | some t =>
        refine (rendering_bounded hdepth ?_ t scope).after hevents
        exact fun directory => ih (by omega) directory

theorem Call.course_bounded (call : Call) :
    (call.course s rules files).Bounded 0 s.maxIncludeDepth := by
  have hinner : ∀ directory path scope, (inclusion s rules files directory s.maxIncludeDepth 1 path
      scope).Bounded (0 + 1) s.maxIncludeDepth :=
    inclusion_bounded s.maxIncludeDepth (Nat.add_comm _ _)
  cases call with
  | render t scope => exact rendering_bounded (Nat.zero_le _) hinner t scope
  | renderFile path scope =>
    exact inclusion_bounded (s.maxIncludeDepth + 1) (Nat.zero_add _) none path scope
  | execute t script scope =>
    exact execution_bounded (Nat.zero_le _) (hinner t.directory?) t script scope

end

/-! ### Frames -/

theorem Breakdown.frames_error (s : Settings) (b : Breakdown) :
    (b.error s).frames = b.frames.map Frame.location := by
  obtain ⟨frames, stop⟩ := b
  induction frames with
  | nil => cases stop <;> rfl
  | cons f rest ih => exact congrArg (f.location :: ·) ih

theorem Breakdown.innermost_error (s : Settings) (b : Breakdown) :
    (b.error s).innermost = b.stop.error s := by
  obtain ⟨frames, stop⟩ := b
  induction frames with
  | nil => cases stop <;> rfl
  | cons f rest ih => exact ih

theorem Stop.error_eq_includeDepthExceeded_iff (s : Settings) (stop : Stop) :
    (∃ limit path, stop.error s = .includeDepthExceeded limit path) ↔ ∃ path, stop = .refused path := by
  cases stop with
  | refused path => exact iff_of_true ⟨_, path, rfl⟩ ⟨path, rfl⟩
  | unloaded | uncompiled | failed =>
    exact iff_of_false (fun ⟨_, _, h⟩ => nomatch h) (fun ⟨_, h⟩ => nomatch h)

/-- **Includes are bounded, and a failure is framed by those that led to it.** Whatever the files
and the rules are, a call asks for the events of its course, and none of them, neither a question
to the loader nor an execution, is nested in more templates than the limit allows. If it fails, the
course broke down: the frames of the error are the includes in the chain of the breakdown, each
with the line of the script that was told and the line of its own template for it, and the
innermost error is what stopped the last of them. The limit was exceeded just when there is one
frame more than templates may be nested. -/
theorem Call.perform_includes (s : Settings) (rules : List Rule) (files : Files) (log : List Event)
    (call : Call) :
    let run := (call.perform (renderer s rules)).run.run ⟨files, log⟩
    let course := call.course s rules files
    run = (course.ending.mapError (·.error s),
      ⟨files, (course.events.map Prod.snd).reverse ++ log⟩) ∧
    (∀ x ∈ course.events, x.1 ≤ s.maxIncludeDepth) ∧
    ∀ e, run.1 = .error e → ∃ b, course.ending = .error b ∧
      e.frames = b.frames.map Frame.location ∧
      e.frames.length ≤ s.maxIncludeDepth + 1 ∧
      e.innermost = b.stop.error s ∧
      ((∃ limit path, e.innermost = .includeDepthExceeded limit path) ↔
        e.frames.length = s.maxIncludeDepth + 1) := by
  intro run course
  have hrun : run = (course.ending.mapError (·.error s),
      ⟨files, (course.events.map Prod.snd).reverse ++ log⟩) := call.course_describes log
  have hbounded : course.Bounded 0 s.maxIncludeDepth := call.course_bounded
  refine ⟨hrun, hbounded.events, ?_⟩
  intro e he
  rw [hrun] at he
  cases hending : course.ending with
  | ok output =>
    rw [hending] at he
    cases he
  | error b =>
    rw [hending] at he
    cases he
    have hlength : (b.error s).frames.length = b.frames.length := by
      rw [b.frames_error, List.length_map]
    obtain ⟨hle, hiff⟩ := hbounded.ending b hending
    rw [Nat.zero_add] at hle hiff
    refine ⟨b, rfl, b.frames_error s, hlength ▸ hle, b.innermost_error s, ?_⟩
    rw [b.innermost_error, b.stop.error_eq_includeDepthExceeded_iff, hiff, hlength]

/-- The error of a result, if it is one; it can be computed whether that is some given error. -/
def failure? {ε α : Type} : Except ε α → Option ε
  | .error e => some e
  | .ok _ => none

theorem eq_error_of_failure? {ε α : Type} {result : Except ε α} {e : ε}
    (h : failure? result = some e) : result = .error e := by
  cases result with
  | ok a => cases h
  | error found => exact congrArg Except.error (Option.some.inj h)

/-- A template that includes itself on its second line, where templates may be nested in two. -/
theorem Call.perform_includes_self :
    let rules : List Rule := [⟨"__include".toList, [.include "self.tpl" .empty (some 2)]⟩]
    let files := Files.ofList [("self.tpl".toList, "a\n<% include('self.tpl')".toList)]
    let here : Location := ⟨"self.tpl", some 2, some 2⟩
    ∃ e, ((perform (renderer { maxIncludeDepth := 2 } rules) (.renderFile "self.tpl" .empty)).run.run
        ⟨files, []⟩).1 = .error e ∧
      e.innermost = .includeDepthExceeded 2 "self.tpl" ∧ e.frames.length = 2 + 1 ∧
      e = .nestedInclude here (.nestedInclude here (.nestedInclude here e.innermost)) := by
  intro rules files here
  have he : ((perform (renderer { maxIncludeDepth := 2 } rules)
      (.renderFile "self.tpl" .empty)).run.run ⟨files, []⟩).1 =
        .error (.nestedInclude here (.nestedInclude here (.nestedInclude here
          (.includeDepthExceeded 2 "self.tpl")))) :=
    eq_error_of_failure? (by decide +kernel)
  obtain ⟨b, _, _, _, _, hlimit⟩ := (perform_includes _ rules files [] _).2.2 _ he
  exact ⟨_, he, rfl, hlimit.1 ⟨2, "self.tpl", rfl⟩, rfl⟩

end Stencil.Playback
