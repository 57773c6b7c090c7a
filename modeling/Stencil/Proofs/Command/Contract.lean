import Stencil.Command.Run
import Stencil.Proofs.Command.Asides
import Stencil.Proofs.Command.Rendering
import Stencil.Proofs.Render.Substitution

/-! The contract of a rendering on the command line.

`outcome_of_order` is what a whole run owes, whichever packages the tool is built on. That options
beside the output change nothing in it comes from two sides: a package for command lines does not
let them change what is ordered (`Packages.KeepsAsides`), and an ending depends on nothing else
(`Ends.of_alike`). -/
namespace Stencil.Command

/-! ### Options beside the output -/

/-- Orders that differ at most in options beside the output. -/
structure Order.Alike (order order' : Order) : Prop where
  config : order'.options.config = order.options.config
  file : order'.file = order.file
  definitions : order'.definitions = order.definitions
  debug : order'.debug = order.debug

section

variable {p : Packages} {w : Surroundings} {order order' : Order} {c : Configuration}
  {settings : Settings}

theorem not_isUnlisted (h : ∀ before t, w.streams.messages before t = none) (order : Order)
    (c : Configuration) (settings : Settings) : ¬IsUnlisted p w order c settings := by
  rintro ⟨-, -, -, h' | ⟨-, h' | ⟨-, h'⟩⟩⟩
  · rw [h] at h'
    cases h'
  · rw [h] at h'
    cases h'
  · exact h'

theorem Order.Alike.scope (h : order.Alike order') : order'.scope = order.scope :=
  congrArg Scope.ofDefinitions h.definitions

theorem Settles.of_alike (halike : order.Alike order') (h : Settles p w order c settings) :
    Settles p w order' c settings where
  configured := by
    rw [halike.config]
    exact h.configured
  isUsable := h.isUsable
  sets := by
    rw [halike.debug]
    exact h.sets

theorem Loads.of_alike {t : Template} (halike : order.Alike order')
    (h : Loads p w order settings t) : Loads p w order' settings t := by
  cases h with
  | file hfile hload => exact .file (halike.file ▸ hfile) (halike.file ▸ hload)
  | input hfile hsource => exact .input (halike.file ▸ hfile) hsource

theorem Attempts.of_alike {result : Except Error Rendered} (halike : order.Alike order')
    (h : Attempts p w order settings result) : Attempts p w order' settings result := by
  cases h with
  | missing hfile hload => exact .missing (halike.file ▸ hfile) (halike.file ▸ hload)
  | loaded hload =>
    rw [← halike.scope]
    exact .loaded (hload.of_alike halike)

/-- Where messages are taken, orders that are alike end in the same way. -/
theorem Ends.of_alike {code : Nat} {output : Text} (halike : order.Alike order')
    (hmessages : ∀ before t, w.streams.messages before t = none) (h : Ends p w order code output) :
    Ends p w order' code output := by
  have hlisted := not_isUnlisted (p := p) hmessages order'
  have hnames := halike.definitions
  cases h with
  | unconfigured h => exact .unconfigured (halike.config ▸ h)
  | unusable h hc => exact .unusable (halike.config ▸ h) hc
  | definition h hname => exact .definition (h.of_alike halike) (hnames ▸ hname)
  | input h hvalid hfile htext =>
    exact .input (h.of_alike halike) (hnames ▸ hvalid) (halike.file ▸ hfile) htext
  | unlisted _ _ hlisting => exact absurd hlisting (not_isUnlisted hmessages _ _ _)
  | failed h hvalid _ hattempt hcode =>
    exact .failed (h.of_alike halike) (hnames ▸ hvalid) (hlisted _ _) (hattempt.of_alike halike)
      hcode
  | unwritten h hvalid _ hattempt hrefusal =>
    exact .unwritten (h.of_alike halike) (hnames ▸ hvalid) (hlisted _ _)
      (hattempt.of_alike halike) hrefusal
  | rendered h hvalid _ hattempt htaken =>
    exact .rendered (h.of_alike halike) (hnames ▸ hvalid) (hlisted _ _) (hattempt.of_alike halike)
      htaken

end

/-! ### The contract -/

section

variable {p : Packages} {w : Surroundings} {order : Order} {arguments : List Text} {code : Nat}
  {output : Text}

theorem Ends.success (h : Ends p w order 0 output) : ∃ c settings t code,
    Settles p w order c settings ∧ Loads p w order settings t ∧
      (((rendererWith p w settings).render t order.scope).run.run []).1 = .ok ⟨output, code⟩ := by
  generalize hcode : 0 = code at h
  cases h with
  | failed _ _ _ _ h => exact absurd hcode.symm h.ne_zero
  | rendered h _ _ hattempt _ =>
    obtain ⟨t, hload, hresult⟩ := hattempt.exists_loads
    exact ⟨_, _, t, _, h, hload, hresult⟩
  | _ => cases hcode

theorem Ends.failure (h : Ends p w order code output) (hcode : code ≠ 0) : output = [] ∨
    ∃ t refusal, w.streams.output [] t = some refusal ∧ output = t.take refusal.taken := by
  cases h with
  | unwritten _ _ _ _ hrefusal => exact .inr ⟨_, _, hrefusal, rfl⟩
  | rendered => exact absurd rfl hcode
  | _ => exact .inl rfl

end

/-! ### A sample -/

/-- A directory with a configuration file at most, where a line stands at the standard input. -/
def sample (settings : Option Text) (streams : Streams) : Surroundings :=
  let files : List (List Text × Bytes) :=
    settings.toList.map fun t => ([".kiln.toml"], Text.bytes t)
  { ((⟨"/", files⟩ : Disk).world [] [] (Text.bytes "a\n")).toSurroundings with streams }

end Stencil.Command
