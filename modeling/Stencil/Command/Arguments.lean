import Stencil.Command.Variables
import Stencil.Path

/-! The command line.

A command line names a verb, some of them a further one, each with options and at most one operand.
The options for every verb may stand at any level; where one is given at several, the innermost
level counts. `Invocation.parse` reads a command line, or tells the first thing that is wrong with
it. -/
namespace Stencil.Command

/-! ### Options and verbs -/

inductive OptionName
  | verbose | quiet | noColor | config | outputFormat
  | define | debug | showCompiled | numbered | isLocal | force
  | help | version
deriving Repr, DecidableEq

namespace OptionName

def long : OptionName → Text
  | verbose => "verbose"
  | quiet => "quiet"
  | noColor => "no-color"
  | config => "config"
  | outputFormat => "output-format"
  | define => "define"
  | debug => "debug"
  | showCompiled => "show-compiled"
  | numbered => "numbered"
  | isLocal => "local"
  | force => "force"
  | help => "help"
  | version => "version"

def short? : OptionName → Option Char
  | verbose => 'v'
  | quiet => 'q'
  | config => 'c'
  | define => 'D'
  | numbered => 'n'
  | force => 'f'
  | help => 'h'
  | version => 'V'
  | _ => none

/-- What the value of the option is called, if it takes one. -/
def valueName? : OptionName → Option Text
  | config => some "FILE"
  | outputFormat => some "OUTPUT_FORMAT"
  | define => some "KEY=VALUE"
  | _ => none

def isRepeatable : OptionName → Bool
  | verbose | define => true
  | _ => false

/-- The option as messages show it. -/
def shown (o : OptionName) : Text :=
  let name : Text := "--" ++ o.long
  match o.valueName? with
  | some v => name ++ " <" ++ v ++ ">"
  | none => if o = .verbose then name ++ "..." else name

end OptionName

inductive Verb
  | tool
  | render | compile | check | init | completions | config
  | get | list | path
deriving Repr, DecidableEq

namespace Verb

/-- The verbs that can follow this one, by their names. -/
def followers : Verb → List (Text × Verb)
  | tool => [("render", render), ("r", render), ("compile", compile), ("check", check),
      ("init", init), ("completions", completions), ("config", config)]
  | config => [("get", get), ("list", list), ("path", path)]
  | _ => []

def follower? (v : Verb) (name : Text) : Option Verb :=
  (v.followers.find? (·.1 = name)).map Prod.snd

/-- What the operand is called, if there is one. -/
def operandName? : Verb → Option Text
  | render | compile | check => some "FILE"
  | completions => some "SHELL"
  | get => some "KEY"
  | _ => none

def options (v : Verb) : List OptionName :=
  let own : List OptionName := match v with
    | tool => [.version]
    | render => [.define, .debug, .showCompiled]
    | compile => [.numbered]
    | init => [.isLocal, .force]
    | _ => []
  own ++ [.verbose, .quiet, .noColor, .config, .outputFormat, .help]

/-- The words that lead to the verb. -/
def words : Verb → Text
  | config => "kiln config"
  | _ => "kiln"

end Verb

/-! ### Mistakes -/

inductive UsageError
  | unexpected (argument : Text)
  | unexpectedValue (value option : Text)
  | valueRequired (argument : Text)
  | invalidValue (value argument : Text) (reason : Option Text)
  | repeated (option : Text)
  | conflict (option other : Text)
  | missingOperand (name : Text)
  | unknownVerb (name : Text)
  | missingVerb (words : Text)
deriving Repr, DecidableEq

def UsageError.message : UsageError → Text
  | unexpected a => "unexpected argument '" ++ a ++ "' found"
  | unexpectedValue v o =>
    "unexpected value '" ++ v ++ "' for '" ++ o ++ "' found; no more were expected"
  | valueRequired a => "a value is required for '" ++ a ++ "' but none was supplied"
  | invalidValue v a reason =>
    "invalid value '" ++ v ++ "' for '" ++ a ++ "'"
      ++ (reason.map fun r : Text => ": " ++ r).getD []
  | repeated o => "the argument '" ++ o ++ "' cannot be used multiple times"
  | conflict o other => "the argument '" ++ o ++ "' cannot be used with '" ++ other ++ "'"
  | missingOperand _ => "the following required arguments were not provided:"
  | unknownVerb name => "unrecognized subcommand '" ++ name ++ "'"
  | missingVerb words => "'" ++ words ++ "' requires a subcommand but one was not provided"

/-- Why a command line is not carried out. -/
inductive Stop
  | usage (error : UsageError)
  /-- Help that was asked for, or that is shown because nothing was. -/
  | help (isAsked : Bool)
  | version
deriving Repr, DecidableEq

/-! ### Values -/

inductive OutputFormat
  | auto | human | plain | json
deriving Repr, DecidableEq

def OutputFormat.named : List (Text × OutputFormat) :=
  [("auto", auto), ("human", human), ("plain", plain), ("json", json)]

def OutputFormat.ofName? (name : Text) : Option OutputFormat :=
  (named.find? (·.1 = name)).map Prod.snd

def shells : List Text := ["bash", "zsh", "fish", "power-shell", "elvish"]

/-- The name and the value of a definition. -/
def readDefinition (raw : Text) : Except Text (Text × Text) :=
  match Text.splitFirst? '=' raw with
  | none => .error ("expected KEY=VALUE, got '" ++ raw ++ "'")
  | some (name, value) =>
    if Text.trim name = [] then .error ("missing variable name in '" ++ raw ++ "'")
    else .ok (Text.trim name, value)

def checkValue (o : OptionName) (v : Text) : Except UsageError Unit :=
  match o with
  | .config => if v = [] then .error (.valueRequired o.shown) else .ok ()
  | .outputFormat =>
    if v = [] then .error (.valueRequired o.shown)
    else if (OutputFormat.ofName? v).isSome then .ok ()
    else .error (.invalidValue v o.shown none)
  | .define =>
    match readDefinition v with
    | .ok _ => .ok ()
    | .error reason => .error (.invalidValue v o.shown (some reason))
  | _ => .ok ()

def checkOperand (verb : Verb) (v : Text) : Except UsageError Unit :=
  let name : Text := "<" ++ verb.operandName?.getD [] ++ ">"
  match verb with
  | .get => .ok ()
  | .completions =>
    if v = [] then .error (.valueRequired name)
    else if shells.contains v then .ok ()
    else .error (.invalidValue v name none)
  | _ => if v = [] then .error (.valueRequired name) else .ok ()

/-! ### One level -/

/-- An argument whose value is checked when the next one comes, or the end. -/
inductive Pending
  | option (name : OptionName) (value : Option Text)
  | operand (value : Text)
deriving Repr, DecidableEq

/-- What has been read of a level. -/
structure Level where
  verb : Verb
  /-- In order. -/
  given : List (OptionName × Text) := []
  operand : Option Text := none
  pending : Option Pending := none
  /-- Only operands may follow. -/
  isLiteral : Bool := false
deriving Repr, DecidableEq

namespace Level

def has (l : Level) (o : OptionName) : Bool := l.given.any fun g => g.1 == o

def isAwaiting (l : Level) : Bool :=
  match l.pending with
  | some (.option _ none) => true
  | _ => false

def take (l : Level) (o : OptionName) (v : Text) : Except Stop Level := do
  if o = .help then throw (.help true)
  if o = .version then throw .version
  if !o.isRepeatable ∧ l.has o then throw (.usage (.repeated o.shown))
  (checkValue o v).mapError Stop.usage
  return { l with given := l.given ++ [(o, v)] }

def settle (l : Level) : Except Stop Level :=
  let rest := { l with pending := none }
  match l.pending with
  | none => .ok l
  | some (.option o none) => .error (.usage (.valueRequired o.shown))
  | some (.option o (some v)) => rest.take o v
  | some (.operand v) => ((checkOperand l.verb v).mapError Stop.usage).map fun _ => rest

def takeLong (l : Level) (t : Text) : Except Stop Level := do
  let (name, value) := match Text.splitFirst? '=' t with
    | some (name, value) => (name, some value)
    | none => (t, none)
  match l.verb.options.find? (·.long = name) with
  | none => throw (.usage (.unexpected ("--" ++ name)))
  | some o =>
    match o.valueName?, value with
    | some _, some v => (← l.settle).take o v
    | some _, none => return { ← l.settle with pending := some (.option o none) }
    | none, some v => throw (.usage (.unexpectedValue v o.shown))
    | none, none => (← l.settle).take o []

/-- Options by their letters; one that takes a value takes the rest. -/
def takeShort (l : Level) : Text → Except Stop Level
  | [] => .ok l
  | c :: rest =>
    match l.verb.options.find? (·.short? = some c) with
    | none => .error (.usage (.unexpected ['-', c]))
    | some o => do
      let l ← l.settle
      if o.valueName?.isNone then takeShort (← l.take o []) rest
      else if rest = [] then return { l with pending := some (.option o none) }
      else l.take o ((Text.after? ['='] rest).getD rest)

def takeOperand (l : Level) (a : Text) : Except Stop Level := do
  if l.verb.operandName?.isSome ∧ l.operand = none then
    return { ← l.settle with operand := some a, pending := some (.operand a) }
  else if l.verb.followers = [] ∨ (l.verb.follower? a).isSome then
    throw (.usage (.unexpected a))
  else throw (.usage (.unknownVerb a))

/-- Help on the verb that words lead to. -/
def help (v : Verb) : List Text → Stop
  | [] => .help true
  | name :: rest =>
    match v.follower? name with
    | some verb => help verb rest
    | none => .usage (.unknownVerb name)

/-- Reads the arguments of a level, up to the verb of the next one. -/
def read (l : Level) : List Text → Except Stop (Level × Option (Verb × List Text))
  | [] => do return (← l.settle, none)
  | a :: rest => do
    let follower := if l.isLiteral || l.isAwaiting then none else l.verb.follower? a
    if let some verb := follower then return (← l.settle, some (verb, rest))
    if l.isLiteral then read (← l.takeOperand a) rest
    else if a = ("help" : Text) ∧ l.verb.followers ≠ [] ∧ !l.isAwaiting then
      throw (help l.verb rest)
    else
      match a with
      | ['-', '-'] => read { l with isLiteral := true } rest
      | '-' :: '-' :: name => read (← l.takeLong name) rest
      | '-' :: c :: more => read (← l.takeShort (c :: more)) rest
      | _ =>
        match l.pending with
        | some (.option o none) => read { l with pending := some (.option o (some a)) } rest
        | _ => read (← l.takeOperand a) rest

/-- The environment can give the option against colours, as `true` or `false`. -/
def checkEnvironment (e : Variables.Environment) (l : Level) : Except UsageError Unit :=
  if l.has .noColor then .ok ()
  else
    match Variables.get? e "NO_COLOR" with
    | none => .ok ()
    | some v =>
      if v = ("true" : Text) ∨ v = ("false" : Text) then .ok ()
      else if v = [] then .error (.valueRequired OptionName.noColor.shown)
      else .error (.invalidValue v OptionName.noColor.shown none)

/-- What a level has to fulfil once everything has been read. -/
def check (e : Variables.Environment) (l : Level) (hasFollower : Bool) : Except Stop Unit := do
  if !hasFollower ∧ l.verb.followers ≠ [] then
    if l.given = [] ∧ Variables.get? e "NO_COLOR" = none then throw (.help false)
    throw (.usage (.missingVerb l.verb.words))
  let order := l.given.filterMap fun g =>
    if g.1 = .quiet ∨ g.1 = .verbose then some g.1 else none
  if let some o := order.head? then
    if let some other := order.find? (· ≠ o) then
      throw (.usage (.conflict o.shown other.shown))
  if let some name := l.verb.operandName? then
    if l.operand = none then throw (.usage (.missingOperand name))

end Level

/-- The levels of a command line, the outermost first. -/
def readLevels (e : Variables.Environment) : Nat → Verb → List Text → Except Stop (List Level)
  | 0, _, _ => .ok []
  | n + 1, verb, arguments => do
    let (l, next) ← Level.read { verb } arguments
    let inner ← match next with
      | some (verb, rest) => readLevels e n verb rest
      | none => .ok []
    (l.checkEnvironment e).mapError Stop.usage
    l.check e next.isSome
    return l :: inner

/-! ### Invocations -/

structure GlobalOptions where
  isVerbose : Bool
  isQuiet : Bool
  noColor : Bool
  config : Option Path
  format : OutputFormat
deriving Repr, DecidableEq

inductive Action
  | render (file : Path) (definitions : List (Text × Text)) (debug showCompiled : Bool)
  | compile (file : Path) (numbered : Bool)
  | check (file : Path)
  | init (isLocal force : Bool)
  | completions (shell : Text)
  | getSetting (name : Text)
  | listSettings
  | settingsPath
deriving Repr, DecidableEq

structure Invocation where
  options : GlobalOptions
  action : Action
deriving Repr, DecidableEq

namespace Invocation

/-- The last value of an option at the innermost level that has it. -/
def value? (levels : List Level) (o : OptionName) : Option Text :=
  (levels.reverse.find? (·.has o)).bind fun l =>
    ((l.given.filter (·.1 = o)).getLast?).map Prod.snd

def globalOptions (e : Variables.Environment) (levels : List Level) : GlobalOptions :=
  let has := fun o => levels.any (·.has o)
  { isVerbose := has .verbose
    isQuiet := has .quiet
    noColor := has .noColor || Variables.get? e "NO_COLOR" == some "true".toList
    config := value? levels .config
    format := ((value? levels .outputFormat).bind OutputFormat.ofName?).getD .auto }

def action? (l : Level) : Option Action :=
  let operand := l.operand.getD []
  match l.verb with
  | .render =>
    let definitions := l.given.filterMap fun (o, v) =>
      if o = .define then (readDefinition v).toOption else none
    some (.render operand definitions (l.has .debug) (l.has .showCompiled))
  | .compile => some (.compile operand (l.has .numbered))
  | .check => some (.check operand)
  | .init => some (.init (l.has .isLocal) (l.has .force))
  | .completions => some (.completions operand)
  | .get => some (.getSetting operand)
  | .list => some .listSettings
  | .path => some .settingsPath
  | .tool | .config => none

/-- Reads the arguments of the program. -/
def parse (e : Variables.Environment) (arguments : List Text) : Except Stop Invocation := do
  let levels ← readLevels e 3 .tool arguments
  match levels.getLast?.bind action? with
  | some action => return ⟨globalOptions e levels, action⟩
  | none => throw (.help false)

end Invocation
end Stencil.Command
