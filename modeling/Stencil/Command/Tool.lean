import Stencil.Command.Packages
import Stencil.Command.Report

/-! Running the tool.

`Packages.run` takes the surroundings of a run to its outcome: the exit code, what is written to the
two streams, and the files to write. Nothing else happens in a run. A text that a stream does not
take ends what is under way, as any failure does. -/
namespace Stencil.Command

structure Outcome where
  code : Nat := 0
  output : Text := []
  messages : Text := []
  writes : List (Path × Text) := []
deriving Repr, DecidableEq

/-- A part of a run, with what has come out so far. -/
abbrev Part := ExceptT Failure (StateT Outcome (StateM Asked))

namespace Part

variable {α : Type}

/-- Ends a part at a text that a stream has not taken. -/
def notTaken (refusal : Option Refusal) : Part Unit :=
  match refusal with
  | none => return ()
  | some r => throw (.system r.cause r.cause)

def emit (s : Streams) (t : Text) : Part Unit := do
  let o : Outcome ← get
  set { o with output := o.output ++ s.output.part o.output t }
  notTaken (s.output o.output t)

def tell (s : Streams) (t : Text) : Part Unit := do
  let o : Outcome ← get
  set { o with messages := o.messages ++ s.messages.part o.messages t }
  notTaken (s.messages o.messages t)

def writeFile (path : Path) (t : Text) : Part Unit :=
  modify fun o => { o with writes := o.writes ++ [(path, t)] }

def asking (act : StateM Asked α) : Part α := monadLift act

def rendering (act : Attempt Asked α) : Part α := do
  let result : Except Error α ← asking act.run
  match result with
  | .ok a => return a
  | .error e => throw (.rendering e)

end Part

/-! ### Configuration -/

def localConfiguration : Path := ".kiln.toml"

variable (p : Packages)

/-- The user's configuration file. -/
def userConfiguration (e : Variables.Environment) : Path :=
  match p.userDirectory? e with
  | some directory => Path.join directory "config.toml"
  | none => localConfiguration

/-- The values in a configuration file; none if it cannot be read and need not be there. -/
def configurationIn (path : Path) (isRequired : Bool) (entry : Entry) : Except Text Toml :=
  let missing := fun (reason : Text) =>
    if isRequired then .error ("Failed to read configuration: " ++ reason) else .ok (.table [])
  match entry with
  | .file contents =>
    match p.configuration.document? contents with
    | some tree => .ok tree
    | none => .error ("Failed to read configuration: " ++ path ++ " is not a TOML file")
  | .unreadable cause => missing cause
  | .directory | .absent => missing ("configuration file \"" ++ path ++ "\" not found")

def readConfiguration (w : Surroundings) (path : Path) (isRequired : Bool) :
    ExceptT Text (StateM Asked) Toml := do
  let entry : Entry ← w.firstFile (p.configuration.names path)
  configurationIn p path isRequired entry

def loadConfiguration (w : Surroundings) (e : Variables.Environment) (file : Option Path) :
    ExceptT Text (StateM Asked) Configuration := do
  let files ← match file with
    | some path => do pure [← readConfiguration p w path true]
    | none => do
      let user ← readConfiguration p w (userConfiguration p e) false
      let here ← readConfiguration p w localConfiguration false
      pure [user, here]
  Configuration.ofToml p.configuration (Configuration.layered p.configuration files e)

/-! ### Status lines -/

/-- Whether status lines have colours; only where it was asked for, as there is no terminal. -/
def isColored (o : GlobalOptions) (c : Configuration) : Bool :=
  o.format = .human && !o.noColor && !c.noColor

def colored (code t : Text) : Text := "\x1b[" ++ code ++ "m" ++ t ++ "\x1b[39m"

def bold (t : Text) : Text := "\x1b[1m" ++ t ++ "\x1b[0m"

/-- A line with a mark before it, in a colour. -/
def statusLine (isColored : Bool) (color mark t : Text) : Text :=
  let line : Text :=
    if isColored then bold (colored color mark) ++ " " ++ colored color t
    else mark ++ " " ++ t
  line ++ ['\n']

/-- What a part of a run goes by. -/
structure Setting where
  packages : Packages
  world : Surroundings
  environment : Variables.Environment
  options : GlobalOptions
  configuration : Configuration

variable (s : Setting)

def status (color mark t : Text) : Part Unit :=
  if s.options.isQuiet then return ()
  else Part.emit s.world.streams (statusLine (isColored s.options s.configuration) color mark t)

def success (t : Text) : Part Unit := status s "32" "✓" t

def warning (t : Text) : Part Unit := status s "33" "⚠" t

/-- A title as it stands before a block of text. -/
def shownTitle (isColored : Bool) (title : Text) : Text :=
  if isColored then bold (colored "36" title) else title

/-- A block of text with a title, beside the output. -/
def diagnostic (title body : Text) : Part Unit := do
  Part.tell s.world.streams (shownTitle (isColored s.options s.configuration) title ++ "\n")
  Part.tell s.world.streams (body ++ "\n")

/-! ### Templates -/

def renderer (debug : Bool) : Part (Renderer Asked) := do
  match s.configuration.renderSettings debug with
  | .ok settings => return ⟨settings, s.world.loader, s.packages.engine.runtime⟩
  | .error e => throw (.configuration ("Invalid render settings: " ++ e.message) (some e))

/-- The template that is found at the standard input, where there may be nothing. -/
def inputTemplate (entry : Entry) : Except Failure Template :=
  let failure := Failure.system "Failed to read template from stdin"
  match entry with
  | .file contents =>
    match contents.text? with
    | some source => .ok (.inline source)
    | none => .error (failure "stream did not contain valid UTF-8")
  | .unreadable cause => .error (failure cause)
  | .directory => .error (failure "Is a directory (os error 21)")
  | .absent => .ok (.inline [])

/-- The template at a path; `-` stands for the standard input. -/
def loadTemplate (r : Renderer Asked) (file : Path) : Part Template := do
  if file = ['-'] then
    let entry : Entry ← Part.asking (s.world.ask .standardInput)
    inputTemplate entry
  else Part.rendering (r.load file)

def render (file : Path) (definitions : List (Text × Text)) (debug showCompiled : Bool) :
    Part Unit := do
  let r ← renderer s debug
  let scope ← match Scope.mergeStrings .empty definitions with
    | (scope, .ok ()) => pure scope
    | (_, .error fault) => throw (.definition fault)
  let t ← loadTemplate s r file
  if showCompiled then
    let script ← Part.rendering (r.compile t : Except Error Script)
    diagnostic s ("compiled source of " ++ t.description ++ ":") script.listing
  Part.emit s.world.streams (← Part.rendering (r.render t scope)).output

def compile (file : Path) (numbered : Bool) : Part Unit := do
  let r ← renderer s false
  let t ← loadTemplate s r file
  let script ← Part.rendering (r.compile t : Except Error Script)
  Part.emit s.world.streams ((if numbered then script.listing else script.code) ++ ['\n'])

def check (file : Path) : Part Unit := do
  let r ← renderer s false
  let t ← loadTemplate s r file
  let _ ← Part.rendering (r.check t)
  success s (t.description ++ ": no syntax errors")

/-! ### Configuration commands -/

/-- Why the directory of a file cannot be made, if something is in its place. -/
def obstacle? : Nat → Path → Part (Option Text)
  | 0, _ => return none
  | n + 1, directory => do
    if directory = [] then return none
    match ← Part.asking (s.world.ask (.file directory)) with
    | .directory => return none
    | .file _ | .unreadable _ => return some "File exists (os error 17)"
    | .absent =>
      match directory.parent? with
      | none => return none
      | some outer =>
        let obstacle ← obstacle? n outer
        return obstacle.map fun _ => "Not a directory (os error 20)"

def init (isLocal force : Bool) : Part Unit := do
  let path := if isLocal then localConfiguration else userConfiguration s.packages s.environment
  let entry ← Part.asking (s.world.ask (.file path))
  if entry ≠ .absent ∧ !force then
    warning s ("Config already exists at " ++ path ++ "  (use --force to overwrite)")
  else
    let directory := path.parent?.getD []
    if let some cause ← obstacle? s directory.length directory then
      throw (.system ("Failed to create config directory '" ++ directory ++ "'") cause)
    if entry = .directory then
      throw (.system ("Failed to write config to '" ++ path ++ "'") "Is a directory (os error 21)")
    Part.writeFile path ({} : Configuration).text
    success s ("Configuration created at " ++ path)

def getSetting (name : Text) : Part Unit := do
  match s.configuration.get? name with
  | some t => Part.emit s.world.streams (t ++ ['\n'])
  | none => throw (.configuration ("Unknown config key: '" ++ name ++ "'") none)

def listSettings : Part Unit :=
  Part.emit s.world.streams (if s.options.format = .json then s.configuration.json.pretty 0
    else s.configuration.text)

/-- The names of the verbs, for a shell to complete. -/
def completions (shell : Text) : Text :=
  let names := Text.join " " (Verb.tool.followers.map Prod.fst)
  if shell = ("bash" : Text) then "complete -W \"" ++ names ++ "\" kiln\n"
  else if shell = ("zsh" : Text) then "compctl -k \"(" ++ names ++ ")\" kiln\n"
  else if shell = ("fish" : Text) then "complete -c kiln -n __fish_use_subcommand -a \"" ++ names ++ "\"\n"
  else names ++ "\n"

def act : Action → Part Unit
  | .render file definitions debug showCompiled => render s file definitions debug showCompiled
  | .compile file numbered => compile s file numbered
  | .check file => check s file
  | .init isLocal force => init s isLocal force
  | .completions shell => Part.emit s.world.streams (completions shell)
  | .getSetting name => getSetting s name
  | .listSettings => listSettings s
  | .settingsPath =>
    Part.emit s.world.streams (userConfiguration s.packages s.environment ++ ['\n'])

/-! ### The tool -/

def versionText : Text := "kiln 0.1.0\n"

def helpText : Text :=
  "Usage: kiln [OPTIONS] <COMMAND>\n\nCommands:\n"
    ++ Failure.lines (Verb.tool.followers.map fun (name, _) => "  " ++ name)
    ++ "\nOptions:\n"
    ++ Failure.lines (Verb.tool.options.map fun o => "  " ++ o.shown)

/-- What is shown instead of a run, as far as the streams take it. -/
def Stop.outcome (s : Streams) : Stop → Outcome
  | .version => { output := s.output.part [] versionText }
  | .help true => { output := s.output.part [] helpText }
  | .help false => { code := 2, messages := s.messages.part [] helpText }
  | .usage e =>
    let operand : Text := match e with
      | .missingOperand name => "\n  <" ++ name ++ ">"
      | _ => []
    { code := 2
      messages := s.messages.part [] ("error: " ++ e.message ++ operand
        ++ "\n\nFor more information, try '--help'.\n") }

/-- The code of a run that is broken off. -/
def brokenOff : Nat := 134

/-- A run that has failed and reports it. One that cannot is broken off. -/
def failed (s : Streams) (o : Outcome) (f : Failure) (isVerbose : Bool) : Outcome :=
  { o with
    code := if (s.messages o.messages (f.report isVerbose)).isNone then f.exitCode else brokenOff
    messages := o.messages ++ s.messages.part o.messages (f.report isVerbose) }

namespace Packages

variable (p : Packages)

/-- The environment of a run, with the variables of the nearest file for them. -/
def environment (w : Surroundings) : StateM Asked Variables.Environment := do
  match ← w.firstFile (p.variableFile.places w.directory) with
  | .file contents => return p.variableFile.add w.environment contents
  | _ => return w.environment

/-- Carries out a command line in its surroundings. -/
def run (w : World) : StateM Asked Outcome := do
  let e ← p.environment w.toSurroundings
  match p.commandLine e w.arguments with
  | .error stop => return stop.outcome w.streams
  | .ok invocation =>
    let options := invocation.options
    match ← (loadConfiguration p w.toSurroundings e options.config).run with
    | .error message =>
      return failed w.streams {} (.configuration message none) options.isVerbose
    | .ok c =>
      match ← ((act ⟨p, w.toSurroundings, e, options, c⟩ invocation.action).run).run {} with
      | (.ok (), o) => return o
      | (.error f, o) => return failed w.streams o f options.isVerbose

end Packages
end Stencil.Command
