import Stencil.Proofs.Script.Standing

/-! Blocks over a whole run.

In the course of a run each block is opened once, and closed once if it does not stand any more
(`nodup_events`, `closed_mem_events`). Openings and closings are matched like parentheses
(`pending_events`): what was opened last is closed first. `tracks_standing` puts this together with
what is known of the blocks that stand. -/
namespace Stencil.Nesting

/-! ### Openings and closings -/

inductive Event
  | opened (o : Opening)
  | closed (o : Opening)
deriving Repr, DecidableEq

def Event.closed? : Event → Option Opening
  | opened _ => none
  | closed o => some o

/-- What happens at the step behind a history: blocks are closed before one is opened. -/
def eventsAt (history : List Step) (s : Step) : List Event :=
  (closedBy history s).map .closed ++ (openedBy history s).map .opened

/-- What happens at some steps behind a history. -/
def eventsFrom (history : List Step) : List Step → List Event
  | [] => []
  | s :: rest => eventsAt history s ++ eventsFrom (history ++ [s]) rest

def events (history : List Step) : List Event := eventsFrom [] history

/-- All blocks that have been closed, from the first to the last. -/
def closings (history : List Step) : List Opening := (events history).filterMap Event.closed?

theorem eventsFrom_concat (history steps : List Step) (s : Step) :
    eventsFrom history (steps ++ [s]) =
      eventsFrom history steps ++ eventsAt (history ++ steps) s := by
  induction steps generalizing history with
  | nil => simp [eventsFrom]
  | cons first rest ih =>
    rw [List.cons_append, eventsFrom, ih, eventsFrom, List.append_assoc, List.append_assoc]
    rfl

theorem events_concat (history : List Step) (s : Step) :
    events (history ++ [s]) = events history ++ eventsAt history s := eventsFrom_concat [] history s

theorem closings_concat (history : List Step) (s : Step) :
    closings (history ++ [s]) = closings history ++ closedBy history s := by
  have hclosed : ∀ os : List Opening, (os.map Event.closed).filterMap Event.closed? = os := by
    intro os
    rw [List.filterMap_map]
    exact List.filterMap_some
  have hopened : ∀ os : List Opening, (os.map Event.opened).filterMap Event.closed? = [] := by
    intro os
    rw [List.filterMap_map]
    exact List.filterMap_eq_nil_iff.2 fun _ _ => rfl
  rw [closings, events_concat, eventsAt, List.filterMap_append, List.filterMap_append, hclosed,
    hopened, List.append_nil]
  rfl

theorem mem_closings {history : List Step} {o : Opening} :
    o ∈ closings history ↔ .closed o ∈ events history := by
  unfold closings
  rw [List.mem_filterMap]
  constructor
  · intro h
    obtain ⟨e, he, heq⟩ := h
    cases e with
    | opened a => cases heq
    | closed a =>
      cases heq
      exact he
  · exact fun h => ⟨_, h, rfl⟩

/-! ### Each block once -/

section

variable {history : List Step} {s : Step} {o : Opening}

theorem opened_mem_eventsAt : .opened o ∈ eventsAt history s ↔ o ∈ openedBy history s := by
  simp [eventsAt]

theorem closed_mem_eventsAt :
    .closed o ∈ eventsAt history s ↔ o ∈ standing history ∧ s.keeps o = false := by
  simp [eventsAt, closedBy]

theorem opened_mem_events : .opened o ∈ events history ↔ o ∈ openings history := by
  induction history using List.reverseRecOn with
  | nil => exact iff_of_false nofun nofun
  | append_singleton history s ih =>
    rw [events_concat, openings_concat, List.mem_append, List.mem_append, ih, opened_mem_eventsAt]

/-- What is closed is what has been opened and does not stand. -/
theorem closed_mem_events :
    .closed o ∈ events history ↔ o ∈ openings history ∧ o ∉ standing history := by
  induction history using List.reverseRecOn with
  | nil => exact iff_of_false nofun fun h => nomatch h.1
  | append_singleton history s ih =>
    have hstep : o ∈ openings history → o ∉ openedBy history s := by
      intro hold hnew
      have := step_lt_length hold
      have := (mem_openedBy.1 hnew).1
      omega
    have hopening : o ∈ standing history → o ∈ openings history := mem_openings_of_mem_standing
    rw [events_concat, openings_concat, standing_concat, List.mem_append, ih, closed_mem_eventsAt,
      List.mem_append, List.mem_append, keptBy, List.mem_filter]
    cases s.keeps o <;> grind

theorem nodup_events (history : List Step) : (events history).Nodup := by
  induction history using List.reverseRecOn with
  | nil => exact .nil
  | append_singleton history s ih =>
    have hat : (eventsAt history s).Nodup := by
      rw [eventsAt, List.nodup_append']
      refine ⟨?_, ?_, ?_⟩
      · exact (List.nodup_reverse.2 ((nodup_standing history).filter _)).map
          fun _ _ => Event.closed.inj
      · have hopened : (openedBy history s).Nodup := pairwise_openedBy history s _
        exact hopened.map fun _ _ => Event.opened.inj
      · intro e hclosed hopened
        obtain ⟨_, _, rfl⟩ := List.mem_map.1 hclosed
        obtain ⟨_, _, heq⟩ := List.mem_map.1 hopened
        cases heq
    rw [events_concat, List.nodup_append']
    refine ⟨ih, hat, fun e hold hnew => ?_⟩
    cases e with
    | opened o =>
      have := step_lt_length (opened_mem_events.1 hold)
      have := (mem_openedBy.1 (opened_mem_eventsAt.1 hnew)).1
      omega
    | closed o => exact (closed_mem_events.1 hold).2 (closed_mem_eventsAt.1 hnew).1

theorem nodup_closings (history : List Step) : (closings history).Nodup := by
  refine (nodup_events history).filterMap fun a b o ha hb => ?_
  cases a <;> cases b <;> simp_all [Event.closed?]

/-- When a template ends all that has been opened has been closed. -/
theorem perm_closings_closeAll (history : List Step) :
    (closings (history ++ [.closeAll])).Perm (openings history) := by
  have hopens : openings (history ++ [.closeAll]) = openings history := by
    rw [openings_concat]
    exact List.append_nil _
  rw [List.perm_ext_iff_of_nodup (nodup_closings _) (nodup_openings history)]
  intro o
  have hstanding : standing (history ++ [.closeAll]) = [] := by
    rw [standing_concat, keptBy_closeAll]
    rfl
  rw [mem_closings, closed_mem_events, hopens, hstanding]
  exact and_iff_left List.not_mem_nil

end

/-! ### Last opened, first closed -/

/-- Every block that is opened among these events is closed among them, and the other way round. -/
def Whole (es : List Event) : Prop := ∀ o, .opened o ∈ es ↔ .closed o ∈ es

/-- Events behind which these blocks are open, innermost first: between the openings of two of them,
and behind the last, there are whole blocks only. -/
inductive Pending : List Opening → List Event → Prop
  | none {es : List Event} : Whole es → Pending [] es
  | inside {outer : List Opening} {before es : List Event} (o : Opening) : Pending outer before →
    Whole es → Pending (o :: outer) (before ++ .opened o :: es)

/-- A block is closed after all that have been opened inside of it. -/
def LastFirst (es : List Event) : Prop :=
  ∀ o before behind, es = before ++ .closed o :: behind →
    ∃ outside inside, before = outside ++ .opened o :: inside ∧ Whole inside

section

variable {es : List Event} {o : Opening} {outer : List Opening}

theorem Whole.append {es₁ es₂ : List Event} (h₁ : Whole es₁) (h₂ : Whole es₂) :
    Whole (es₁ ++ es₂) := by
  intro o
  rw [List.mem_append, List.mem_append, h₁ o, h₂ o]

theorem Whole.block (h : Whole es) (o : Opening) : Whole (.opened o :: es ++ [.closed o]) := by
  intro a
  have := h a
  simp [this, or_comm]

theorem Pending.append {more : List Event} (h : Pending outer es) (hmore : Whole more) :
    Pending outer (es ++ more) := by
  cases h with
  | none hes => exact .none (hes.append hmore)
  | inside o hbefore hes =>
    rw [List.append_assoc, List.cons_append]
    exact .inside o hbefore (hes.append hmore)

/-- The innermost open block can be closed. -/
theorem Pending.close (h : Pending (o :: outer) es) :
    Pending outer (es ++ [.closed o]) ∧
      ∃ outside inside, es = outside ++ .opened o :: inside ∧ Whole inside := by
  cases h with
  | @inside _ before es _ hbefore hes =>
    refine ⟨?_, before, es, rfl, hes⟩
    rw [List.append_assoc]
    exact hbefore.append (hes.block o)

theorem LastFirst.concat {e : Event} (h : LastFirst es)
    (hlast : ∀ o, e = .closed o →
      ∃ outside inside, es = outside ++ .opened o :: inside ∧ Whole inside) :
    LastFirst (es ++ [e]) := by
  intro o before behind heq
  rcases List.eq_nil_or_concat behind with rfl | ⟨behind, last, rfl⟩
  · obtain ⟨rfl, he⟩ := List.append_inj' heq rfl
    exact hlast o (List.singleton_inj.1 he)
  · rw [List.concat_eq_append, ← List.cons_append, ← List.append_assoc] at heq
    exact h o before behind (List.append_inj' heq rfl).1

/-- The innermost blocks can be closed one after the other. -/
theorem Pending.closeAll {inner : List Opening} (h : Pending (inner ++ outer) es)
    (hlast : LastFirst es) :
    Pending outer (es ++ inner.map .closed) ∧ LastFirst (es ++ inner.map .closed) := by
  induction inner generalizing es with
  | nil => simpa using ⟨h, hlast⟩
  | cons o inner ih =>
    obtain ⟨hclosed, hsplit⟩ := h.close
    have hfirst : LastFirst (es ++ [.closed o]) := hlast.concat fun a ha => by
      cases ha
      exact hsplit
    have := ih hclosed hfirst
    rwa [List.append_assoc] at this

/-- One more block can be opened. -/
theorem Pending.opening (h : Pending outer es) (hlast : LastFirst es) (o : Opening) :
    Pending (o :: outer) (es ++ [.opened o]) ∧ LastFirst (es ++ [.opened o]) :=
  ⟨.inside o h fun _ => iff_of_false nofun nofun, hlast.concat nofun⟩

end

/-- **The blocks of a run are matched like parentheses**: those that stand are pending, and each
that has been closed is around whole blocks only. -/
theorem pending_events (history : List Step) :
    Pending (standing history).reverse (events history) ∧ LastFirst (events history) := by
  induction history using List.reverseRecOn with
  | nil =>
    refine ⟨.none fun _ => iff_of_false nofun nofun, fun o before behind h => ?_⟩
    exact absurd h.symm (List.append_ne_nil_of_right_ne_nil _ (List.cons_ne_nil _ _))
  | append_singleton history s ih =>
    obtain ⟨hpending, hlast⟩ := ih
    rw [standing_eq_append history s, List.reverse_append, List.reverse_reverse] at hpending
    obtain ⟨hclosed, hclosedLast⟩ := hpending.closeAll hlast
    rw [events_concat, eventsAt, ← List.append_assoc, standing_concat, List.reverse_append,
      openedBy]
    cases s.opens? with
    | none => simpa using ⟨hclosed, hclosedLast⟩
    | some block => exact hclosed.opening hclosedLast ⟨history.length, block⟩

/-! ### What is answered -/

/-- The blocks that an answer tells to be closed. -/
def Answer.closed : Answer → List ClosedBlock
  | line _ place => place.closed
  | continuation _ => []
  | closeAll blocks => blocks

theorem closed_answer_after (unit : Nat) (history : List Step) (s : Step) :
    ((after history).answer unit s).closed = (closedBy history s).map (reported history) := by
  cases s with
  | line indent opens =>
    show ((after history).placement indent).closed = _
    rw [placement_after history indent opens]
  | continuation =>
    rw [closedBy_continuation]
    rfl
  | closeAll =>
    rw [closedBy_closeAll]
    exact closeAll_after history

theorem answers_concat (unit : Nat) (n : Nesting) (steps : List Step) (s : Step) :
    answers unit n (steps ++ [s]) =
      answers unit n steps ++ [(steps.foldl next n).answer unit s] := by
  induction steps generalizing n with
  | nil => rfl
  | cons first rest ih =>
    rw [List.cons_append, answers, ih, answers, List.foldl_cons, List.cons_append]

/-- The depth of a block stays what it was when the run goes on. -/
theorem reported_append {history : List Step} {o : Opening} (h : o ∈ openings history)
    (more : List Step) : reported (history ++ more) o = reported history o := by
  rw [reported, around, List.take_append_of_le_length (Nat.le_of_lt (step_lt_length h))]
  rfl

/-- The blocks that are told to be closed are those that are closed, in the same order. -/
theorem flatMap_closed_answers (unit : Nat) (history : List Step) :
    (answers unit [] history).flatMap Answer.closed =
      (closings history).map (reported history) := by
  induction history using List.reverseRecOn with
  | nil => rfl
  | append_singleton history s ih =>
    have hold : ∀ o ∈ closings history ++ closedBy history s, o ∈ openings history := by
      intro o ho
      rw [List.mem_append, mem_closings, closed_mem_events, closedBy, List.mem_reverse,
        List.mem_filter] at ho
      exact ho.elim And.left fun h => mem_openings_of_mem_standing h.1
    have hreported : (closings history ++ closedBy history s).map (reported (history ++ [s])) =
        (closings history ++ closedBy history s).map (reported history) :=
      List.map_congr_left fun o ho => reported_append (hold o ho) [s]
    rw [answers_concat, List.flatMap_append, ih, List.flatMap_singleton, closings_concat, hreported,
      List.map_append]
    congr 1
    exact closed_answer_after unit history s

/-- What there is to know of the open blocks behind a history. A line closes those that are not
indented less than it is, and stands at the depth of those that remain. -/
structure Tracks (unit : Nat) (history : List Step) : Prop where
  stack : after history = (standing history).reverse.map Opening.block
  widths : (standing history).Pairwise fun outer inner => outer.width < inner.width
  line : ∀ indent opens,
    let kept := keptBy history (.line indent opens)
    (after history).answer unit (.line indent opens) =
      .line (Text.spaces (unit * kept.length))
        { depth := kept.length
          closed := (closedBy history (.line indent opens)).map (reported history)
          leftover := indent.drop ((kept.getLast?.map Opening.width).getD 0) }
  indented : ∀ indent opens, ∀ innermost ∈ (keptBy history (.line indent opens)).getLast?,
    innermost.width < indent.length
  continuation : (after history).answer unit .continuation =
    .continuation (Text.spaces (unit * (standing history).length))
  closeAll : (after history).answer unit .closeAll =
    .closeAll ((standing history).reverse.map (reported history))

/-- What there is to know of the blocks that have been opened and closed in a run. Each is opened
once and closed at most once, and exactly once when the template ends. -/
structure Matches (unit : Nat) (history : List Step) : Prop where
  told : (answers unit [] history).flatMap Answer.closed = (closings history).map (reported history)
  once : (events history).Nodup
  opened : ∀ o, .opened o ∈ events history ↔ o ∈ openings history
  closed : ∀ o, .closed o ∈ events history ↔ o ∈ openings history ∧ o ∉ standing history
  lastFirst : LastFirst (events history)
  ended : (closings (history ++ [.closeAll])).Perm (openings history)

/-- **The open blocks are those that every line behind their opening is indented more than.** A line
closes the others, innermost first, each at the depth that it was opened at, and over a whole run
what was opened last is closed first. -/
theorem tracks_standing (unit : Nat) (history : List Step) :
    Tracks unit history ∧ Matches unit history := by
  refine ⟨⟨after_eq_standing history, pairwise_width_standing history, ?_, ?_, ?_, ?_⟩,
    ⟨flatMap_closed_answers unit history, nodup_events history, fun _ => opened_mem_events,
      fun _ => closed_mem_events, (pending_events history).2, perm_closings_closeAll history⟩⟩
  · intro indent opens
    show Answer.line _ _ = _
    rw [placement_after history indent opens]
    rfl
  · intro indent opens innermost hinnermost
    have hkept := (List.mem_filter.1 (List.mem_of_getLast? hinnermost)).2
    exact of_decide_eq_true hkept
  · show Answer.continuation (indentText unit (after history).length) = _
    rw [after_eq_standing, List.length_map, List.length_reverse]
    rfl
  · exact congrArg Answer.closeAll (closeAll_after history)

/-- A line at the indentation of a block closes it before it opens its own. -/
example :
    let history : List Step := [.line [] (some .conditional), .line "\t" (some .loop),
      .continuation, .line " " (some .repetition), .closeAll, .line "  " (some .function)]
    standing history = [⟨5, "  ".toList, .function⟩] ∧
      (closings history).map Opening.step = [1, 3, 0] := by
  decide

end Stencil.Nesting
