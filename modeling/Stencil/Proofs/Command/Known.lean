import Mathlib.Data.List.Induction
import Stencil.Command.Disk
import Stencil.Command.Tool
import Stencil.Proofs.Command.Configuration

/-! Surroundings where everything is known.

A run that looks up what is known asks for nothing (`AsksNothing`), so its parts can be taken one by
one, each at the start; what they find is named here without any run. `Configured` says which
configuration an order gets from the files and the environment, and `Unconfigured` lists what can be
wrong with them: one holds (`configured_or`) and not the other (`Configured.not_unconfigured`), and
the loading of the configuration goes by it. -/
namespace Stencil.Command

/-! ### Asking for nothing -/

/-- Nothing unknown is asked for. -/
def AsksNothing {α : Type} (m : StateM Asked α) : Prop := (m.run []).2 = []

namespace AsksNothing

variable {α β ε : Type}

theorem run_eq {m : StateM Asked α} (h : AsksNothing m) : m.run [] = ((m.run []).1, []) :=
  Prod.ext rfl h

/-- What follows starts anew. -/
theorem bind_run_eq {m : StateM Asked α} (h : AsksNothing m) (f : α → StateM Asked β) :
    (m >>= f).run [] = (f (m.run []).1).run [] := by
  rw [StateT.run_bind, h.run_eq]
  rfl

theorem pure (a : α) : AsksNothing (Pure.pure a) := rfl

theorem bind {m : StateM Asked α} {f : α → StateM Asked β} (h : AsksNothing m)
    (hf : ∀ a, AsksNothing (f a)) : AsksNothing (m >>= f) := by
  unfold AsksNothing
  rw [h.bind_run_eq]
  exact hf _

theorem run_bind {m : ExceptT ε (StateM Asked) α} {f : α → ExceptT ε (StateM Asked) β}
    (h : AsksNothing m.run) (hf : ∀ a, AsksNothing (f a).run) : AsksNothing (m >>= f).run := by
  rw [ExceptT.run_bind]
  refine h.bind fun result => ?_
  cases result with
  | ok a => exact hf a
  | error e => rfl

theorem run_lift {m : StateM Asked α} (h : AsksNothing m) :
    AsksNothing (liftM m : ExceptT ε (StateM Asked) α).run := by
  change AsksNothing (Except.ok <$> m)
  rw [map_eq_pure_bind]
  exact h.bind fun a => .pure _

end AsksNothing

/-! ### Known surroundings -/

namespace Surroundings

variable {w : Surroundings}

/-- Everything is known of the surroundings. -/
def IsKnown (w : Surroundings) : Prop := ∀ s, (w.find s).isSome

/-- What is found at a source. -/
def entryAt (w : Surroundings) (s : Source) : Entry := (w.find s).getD .absent

/-- What is found at the first of some paths that a file is at. -/
def fileAt (w : Surroundings) (paths : List Path) : Entry :=
  ((paths.map fun path => w.entryAt (.file path)).find? Entry.isFile).getD .absent

theorem IsKnown.ask_eq (h : w.IsKnown) (s : Source) : w.ask s = pure (w.entryAt s) := by
  obtain ⟨entry, hentry⟩ := Option.isSome_iff_exists.1 (h s)
  unfold ask entryAt
  rw [hentry]
  rfl

theorem IsKnown.ask (h : w.IsKnown) (s : Source) : AsksNothing (w.ask s) := by
  rw [h.ask_eq]
  exact .pure _

theorem IsKnown.firstFile_eq (h : w.IsKnown) (paths : List Path) :
    w.firstFile paths = pure (w.fileAt paths) := by
  induction paths with
  | nil => rfl
  | cons path rest ih =>
    unfold firstFile fileAt
    rw [h.ask_eq, pure_bind, List.map_cons, List.find?_cons]
    cases hfile : (w.entryAt (.file path)).isFile with
    | true => rfl
    | false => exact ih

theorem IsKnown.loader_load (h : w.IsKnown) (path : Path) :
    AsksNothing (w.loader.load path).run := by
  refine AsksNothing.run_bind (h.ask (.file path)).run_lift fun entry => ?_
  cases entry with
  | absent | directory | unreadable cause => rfl
  | file contents =>
    cases htext : contents.text? <;>
      · simp only [htext]
        rfl

theorem IsKnown.load (h : w.IsKnown) (r : Renderer Asked) (hr : r.loader = w.loader)
    (path : Path) : AsksNothing (r.load path).run := by
  unfold Renderer.load
  generalize r.candidates path = attempted
  suffices hfirst : ∀ paths, AsksNothing (r.loadFirst attempted paths).run from hfirst attempted
  intro paths
  induction paths with
  | nil => rfl
  | cons path rest ih =>
    unfold Renderer.loadFirst
    rw [hr]
    refine AsksNothing.run_bind ((h.ask _).bind fun _ => .pure _).run_lift fun found => ?_
    split
    · exact (h.loader_load path).run_bind fun t => rfl
    · exact ih

end Surroundings

section

variable (p : Packages) (w : Surroundings)

/-- The environment that a run works in. -/
def Packages.knownEnvironment : Variables.Environment :=
  match w.fileAt (p.variableFile.places w.directory) with
  | .file contents => p.variableFile.add w.environment contents
  | _ => w.environment

/-- What comes out of a run. -/
def Packages.outcome (w : World) : Outcome := ((p.run w).run []).1

/-! ### The configuration of an order -/

/-- The values of a configuration file. -/
inductive Reads (path : Path) : Toml → Prop
  | document {contents : Bytes} {tree : Toml}
    (hfile : w.fileAt (p.configuration.names path) = .file contents)
    (htree : p.configuration.document? contents = some tree) : Reads path tree

/-- There is no configuration file that could be read. -/
def IsMissing (path : Path) : Prop :=
  ∀ contents, w.fileAt (p.configuration.names path) ≠ .file contents

/-- A configuration file is not written as it should be. -/
def IsGarbled (path : Path) : Prop :=
  ∃ contents, w.fileAt (p.configuration.names path) = .file contents ∧
    p.configuration.document? contents = none

/-- The values of a configuration file that need not be there. -/
inductive ReadsIfThere (path : Path) : Toml → Prop
  | there {tree : Toml} (h : Reads p w path tree) : ReadsIfThere path tree
  | missing (h : IsMissing p w path) : ReadsIfThere path (.table [])

/-- The files that count: one that is named, or else the user's and the one of the directory, which
counts more. -/
inductive Files : Option Path → List Toml → Prop
  | named {path : Path} {tree : Toml} (h : Reads p w path tree) : Files (some path) [tree]
  | usual {user here : Toml}
    (huser : ReadsIfThere p w (userConfiguration p (p.knownEnvironment w)) user)
    (hhere : ReadsIfThere p w localConfiguration here) : Files none [user, here]

/-- The values of files over the ones that are built in, those of a file over those of the files
before it. -/
inductive Layers : List Toml → Toml → Prop
  | builtIn : Layers [] ({} : Configuration).toml
  | file {files : List Toml} {tree : Toml} (h : Layers files tree) (file : Toml) :
    Layers (files ++ [file]) (p.configuration.overFile tree file)

/-- The values of all layers, where the environment counts most. -/
inductive Values (file : Option Path) : Toml → Prop
  | layered {files : List Toml} {tree : Toml} (h : Files p w file files)
    (hlayers : Layers p files tree) :
    Values file (p.configuration.overVariables Configuration.variableMark tree
      (p.knownEnvironment w))

/-- The configuration of an order that names a file for it, or does not. -/
def Configured (file : Option Path) (c : Configuration) : Prop :=
  ∃ tree, Values p w file tree ∧ Configuration.Configures p.configuration tree c

/-- What can be wrong with the files and the environment. -/
inductive Unconfigured : Option Path → Prop
  /-- The file that is named is not there, or cannot be read. -/
  | missing {path : Path} (h : IsMissing p w path) : Unconfigured (some path)
  | garbled {path : Path} (h : IsGarbled p w path) : Unconfigured (some path)
  | userGarbled (h : IsGarbled p w (userConfiguration p (p.knownEnvironment w))) :
    Unconfigured none
  | localGarbled (h : IsGarbled p w localConfiguration) : Unconfigured none
  /-- All values together lack one that is needed, or have one of another kind. -/
  | mistyped {file : Option Path} {tree : Toml} (h : Values p w file tree)
    (hvalue : Configuration.IsMistyped p.configuration tree) : Unconfigured file

theorem reads_or (path : Path) :
    (∃ tree, Reads p w path tree) ∨ IsMissing p w path ∨ IsGarbled p w path := by
  cases hfile : w.fileAt (p.configuration.names path) with
  | file contents =>
    cases htree : p.configuration.document? contents with
    | some tree => exact .inl ⟨tree, .document hfile htree⟩
    | none => exact .inr (.inr ⟨contents, hfile, htree⟩)
  | unreadable cause | directory | absent =>
    refine .inr (.inl fun contents => ?_)
    rw [hfile]
    nofun

theorem readsIfThere_or (path : Path) :
    (∃ tree, ReadsIfThere p w path tree) ∨ IsGarbled p w path := by
  obtain ⟨tree, h⟩ | h | h := reads_or p w path
  · exact .inl ⟨tree, .there h⟩
  · exact .inl ⟨_, .missing h⟩
  · exact .inr h

theorem Layers.pair {p : Packages} (user here : Toml) : Layers p [user, here]
    (p.configuration.overFile (p.configuration.overFile ({} : Configuration).toml user) here) :=
  .file (.file .builtIn user) here

end

/-! ### Loading it -/

section

variable {p : Packages} {w : Surroundings} {path : Path} {file : Option Path}

theorem readConfiguration_eq (hw : w.IsKnown) (isRequired : Bool) :
    (readConfiguration p w path isRequired).run =
      pure (configurationIn p path isRequired (w.fileAt (p.configuration.names path))) := by
  unfold readConfiguration
  rw [hw.firstFile_eq]
  rfl

theorem configurationIn_of_reads {tree : Toml} (h : Reads p w path tree) (isRequired : Bool) :
    configurationIn p path isRequired (w.fileAt (p.configuration.names path)) = .ok tree := by
  obtain ⟨hfile, htree⟩ := h
  simp only [configurationIn, hfile, htree]

theorem configurationIn_of_isGarbled (h : IsGarbled p w path) (isRequired : Bool) :
    ∃ message, configurationIn p path isRequired (w.fileAt (p.configuration.names path)) =
      .error message := by
  obtain ⟨contents, hfile, htree⟩ := h
  simp only [configurationIn, hfile, htree]
  exact ⟨_, rfl⟩

/-- A file that is not there is a failure, or counts as an empty one. -/
theorem configurationIn_of_isMissing (h : IsMissing p w path) :
    configurationIn p path false (w.fileAt (p.configuration.names path)) = .ok (.table []) ∧
      ∃ message, configurationIn p path true (w.fileAt (p.configuration.names path)) =
        .error message := by
  cases hfile : w.fileAt (p.configuration.names path) with
  | file contents => exact absurd hfile (h contents)
  | unreadable cause | directory | absent => exact ⟨rfl, _, rfl⟩

theorem configurationIn_of_readsIfThere {tree : Toml} (h : ReadsIfThere p w path tree) :
    configurationIn p path false (w.fileAt (p.configuration.names path)) = .ok tree := by
  cases h with
  | there h => exact configurationIn_of_reads h false
  | missing h => exact (configurationIn_of_isMissing h).1

theorem Layers.eq_foldl {files : List Toml} {tree : Toml} (h : Layers p files tree) :
    files.foldl p.configuration.overFile ({} : Configuration).toml = tree := by
  induction h with
  | builtIn => rfl
  | file _ file ih => rw [List.foldl_append, ih, List.foldl_cons, List.foldl_nil]

/-- What is made of the values once they are read. -/
theorem loadConfiguration_of_values (hw : w.IsKnown) {tree : Toml} (h : Values p w file tree) :
    (loadConfiguration p w (p.knownEnvironment w) file).run =
      pure (Configuration.ofToml p.configuration tree) := by
  obtain ⟨hfiles, hlayers⟩ := h
  have htree := hlayers.eq_foldl
  unfold loadConfiguration Configuration.layered
  cases hfiles with
  | named h =>
    simp only [ExceptT.run_bind, readConfiguration_eq hw, configurationIn_of_reads h, pure_bind,
      ← htree]
    rfl
  | usual huser hhere =>
    simp only [ExceptT.run_bind, readConfiguration_eq hw, configurationIn_of_readsIfThere huser,
      configurationIn_of_readsIfThere hhere, pure_bind, ← htree]
    rfl

theorem loadConfiguration_of_configured (hw : w.IsKnown) {c : Configuration}
    (h : Configured p w file c) :
    (loadConfiguration p w (p.knownEnvironment w) file).run = pure (.ok c) := by
  obtain ⟨tree, hvalues, hc⟩ := h
  rw [loadConfiguration_of_values hw hvalues, Configuration.ofToml_eq_ok_iff.2 hc]

theorem loadConfiguration_of_unconfigured (hw : w.IsKnown) (h : Unconfigured p w file) :
    ∃ message, (loadConfiguration p w (p.knownEnvironment w) file).run =
      pure (.error message) := by
  have hnamed : ∀ {path message}, configurationIn p path true
      (w.fileAt (p.configuration.names path)) = .error message →
      (loadConfiguration p w (p.knownEnvironment w) (some path)).run = pure (.error message) := by
    intro path message hmessage
    simp only [loadConfiguration, ExceptT.run_bind, readConfiguration_eq hw, hmessage, pure_bind]
  have huser : IsGarbled p w (userConfiguration p (p.knownEnvironment w)) →
      ∃ message, (loadConfiguration p w (p.knownEnvironment w) none).run =
        pure (.error message) := by
    intro h
    obtain ⟨message, hmessage⟩ := configurationIn_of_isGarbled h false
    refine ⟨message, ?_⟩
    simp only [loadConfiguration, ExceptT.run_bind, readConfiguration_eq hw, hmessage, pure_bind]
  cases h with
  | missing h => exact (configurationIn_of_isMissing h).2.imp fun _ => hnamed
  | garbled h => exact (configurationIn_of_isGarbled h true).imp fun _ => hnamed
  | userGarbled h => exact huser h
  | localGarbled h =>
    obtain ⟨user, hthere⟩ | hgarbled :=
      readsIfThere_or p w (userConfiguration p (p.knownEnvironment w))
    · obtain ⟨message, hmessage⟩ := configurationIn_of_isGarbled h false
      refine ⟨message, ?_⟩
      simp only [loadConfiguration, ExceptT.run_bind, readConfiguration_eq hw,
        configurationIn_of_readsIfThere hthere, hmessage, pure_bind]
    · exact huser hgarbled
  | mistyped h hvalue =>
    obtain ⟨message, hmessage⟩ := Configuration.exists_of_isMistyped hvalue
    exact ⟨message, by rw [loadConfiguration_of_values hw h, hmessage]⟩

/-- There is one configuration at most. -/
theorem Configured.eq (hw : w.IsKnown) {c c' : Configuration} (h : Configured p w file c)
    (h' : Configured p w file c') : c' = c := by
  have hboth := (loadConfiguration_of_configured hw h').symm.trans
    (loadConfiguration_of_configured hw h)
  exact Except.ok.inj (congrArg (fun m => (m.run []).1) hboth)

/-- Nothing is wrong with a configuration that is there. -/
theorem Configured.not_unconfigured (hw : w.IsKnown) {c : Configuration}
    (h : Configured p w file c) : ¬Unconfigured p w file := by
  intro h'
  obtain ⟨message, hmessage⟩ := loadConfiguration_of_unconfigured hw h'
  have hboth := hmessage.symm.trans (loadConfiguration_of_configured hw h)
  cases congrArg (fun m => (m.run []).1) hboth

end

end Stencil.Command
