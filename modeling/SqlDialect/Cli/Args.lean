import SqlDialect.Render.DialectName

/-!
The command line. Arguments become events, in order: a flag, an option with its value, an operand, or
something that is no part of the command. The events are then taken one by one, so that the first of
several faults decides, and a request for help comes before any fault after it.
-/
set_option autoImplicit false

namespace SqlDialect.Cli

inductive Format where
  | text
  | json
  deriving DecidableEq

def Format.names : List (String × Format) :=
  [("text", .text), ("json", .json)]

inductive Command where
  | compile (tree : String) (dialect : DialectName) (format : Format) (config : Option String)
  | translate (sql : String) (params : List String)
  | registry (config : Option String)

inductive CommandName where
  | compile
  | translate
  | registry
  deriving DecidableEq

def CommandName.names : List (String × CommandName) :=
  [("compile", .compile), ("translate", .translate), ("registry", .registry)]

inductive Invocation where
  | run (c : Command)
  | version
  | help (topic : Option CommandName)
  | usage

inductive Opt where
  | verbose
  | help
  | version
  | dialect
  | format
  | config
  | param
  deriving DecidableEq

def Opt.long : Opt → String
  | .verbose => "verbose"
  | .help => "help"
  | .version => "version"
  | .dialect => "dialect"
  | .format => "format"
  | .config => "config"
  | .param => "param"

def Opt.short : Opt → Char
  | .verbose => 'v'
  | .help => 'h'
  | .version => 'V'
  | .dialect => 'd'
  | .format => 'f'
  | .config => 'c'
  | .param => 'p'

def Opt.takesValue : Opt → Bool
  | .dialect => true
  | .format => true
  | .config => true
  | .param => true
  | _ => false

def rootOptions : List Opt :=
  [.verbose, .help, .version]

def CommandName.options : CommandName → List Opt
  | .compile => [.dialect, .format, .config, .verbose, .help]
  | .translate => [.param, .verbose, .help]
  | .registry => [.config, .verbose, .help]

inductive Event where
  | flag (o : Opt)
  | value (o : Opt) (v : String)
  | operand (s : String)
  | bad

/-- Whether an argument is read as options; a single dash is not. -/
def isOption (arg : String) : Bool :=
  match arg.toList with
  | '-' :: _ :: _ => true
  | _ => false

/-- Options written in one argument after a dash, and the option among them that waits for the next
argument as its value. A value may follow its option at once or after an equals sign. -/
def cluster (known : List Opt) : List Char → List Event × Option Opt
  | [] => ([], none)
  | c :: cs =>
    match known.find? (·.short == c) with
    | none => ([.bad], none)
    | some o =>
      if o.takesValue then
        match cs with
        | [] => ([], some o)
        | '=' :: v => ([.value o (String.ofList v)], none)
        | v => ([.value o (String.ofList v)], none)
      else
        let (es, waiting) := cluster known cs
        (.flag o :: es, waiting)

/-- An option written in full after two dashes, perhaps with a value after an equals sign. -/
def longOption (known : List Opt) (body : List Char) : List Event × Option Opt :=
  let (name, value) :=
    match Text.cutFirst '=' body with
    | some (name, value) => (name, some (String.ofList value))
    | none => (body, none)
  match known.find? (·.long == String.ofList name), value with
  | none, _ => ([.bad], none)
  | some o, some v => if o.takesValue then ([.value o v], none) else ([.bad], none)
  | some o, none => if o.takesValue then ([], some o) else ([.flag o], none)

def optionEvents (known : List Opt) (arg : String) : List Event × Option Opt :=
  match arg.toList with
  | '-' :: '-' :: body => longOption known body
  | '-' :: body => cluster known body
  | _ => ([.bad], none)

/-- The events of a list of arguments. `waiting` is an option that takes its value from the next one.
After two dashes all arguments are operands. -/
def events (known : List Opt) (waiting : Option Opt) : List String → List Event
  | [] => if waiting.isSome then [.bad] else []
  | arg :: rest =>
    match waiting with
    | some o => if isOption arg then [.bad] else .value o arg :: events known none rest
    | none =>
      if arg = "--" then rest.map .operand
      else if isOption arg then
        let (es, waiting) := optionEvents known arg
        es ++ events known waiting rest
      else .operand arg :: events known none rest

structure Settings where
  verbose : Bool := false
  dialect : Option DialectName := none
  format : Option Format := none
  config : Option String := none
  params : List String := []
  operand : Option String := none

def path? (s : String) : Option String :=
  if s.isEmpty then none else some s

/-- Sets an option, once if it holds a single value; a value that it does not take is refused. -/
def Settings.set (s : Settings) : Opt → String → Option Settings
  | .dialect, v => do
    if s.dialect.isSome then none
    return { s with dialect := some (← (DialectName.ofText v).toOption) }
  | .format, v => do
    if s.format.isSome then none
    return { s with format := some (← Format.names.lookup v) }
  | .config, v => do
    if s.config.isSome then none
    return { s with config := some (← path? v) }
  | .param, v => some { s with params := s.params ++ [v] }
  | _, _ => none

def Settings.setVerbose (s : Settings) : Option Settings :=
  if s.verbose then none else some { s with verbose := true }

def Settings.setOperand (s : Settings) (name : CommandName) (v : String) : Option Settings :=
  if s.operand.isSome then none
  else
    match name with
    | .compile => (path? v).map fun v => { s with operand := some v }
    | .translate => some { s with operand := some v }
    | .registry => none

/-- The path of the configuration: the option, or else what the environment says. -/
def Settings.configPath (s : Settings) (env : Option String) : Option (Option String) :=
  match s.config, env with
  | some p, _ => some (some p)
  | none, some p => (path? p).map some
  | none, none => some none

def Settings.command? (s : Settings) (env : Option String) : CommandName → Option Command
  | .compile => do
    let tree ← s.operand
    return .compile tree (s.dialect.getD .default) (s.format.getD .text) (← s.configPath env)
  | .translate => do return .translate (← s.operand) s.params
  | .registry => do return .registry (← s.configPath env)

def orUsage (c : Option Command) : Invocation :=
  match c with
  | some c => .run c
  | none => .usage

def Settings.take (s : Settings) (name : CommandName) (env : Option String) : List Event → Invocation
  | [] => orUsage (s.command? env name)
  | .flag .help :: _ => .help (some name)
  | .flag .verbose :: es =>
    match s.setVerbose with
    | some s => s.take name env es
    | none => .usage
  | .value o v :: es =>
    match s.set o v with
    | some s => s.take name env es
    | none => .usage
  | .operand v :: es =>
    match s.setOperand name v with
    | some s => s.take name env es
    | none => .usage
  | _ :: _ => .usage

def helpTopic : List String → Invocation
  | [] => .help none
  | [word] =>
    if word = "help" then .help none
    else
      match CommandName.names.lookup word with
      | some name => .help (some name)
      | none => .usage
  | _ => .usage

def commandOf (env : Option String) : List String → Invocation
  | [] => .usage
  | word :: rest =>
    if word = "help" then helpTopic rest
    else
      match CommandName.names.lookup word with
      | some name => ({} : Settings).take name env (events name.options none rest)
      | none => .usage

def takeRoot (verbose : Bool) (next : Invocation) : List Event → Invocation
  | [] => next
  | .flag .help :: _ => .help none
  | .flag .version :: _ => .version
  | .flag .verbose :: es => if verbose then .usage else takeRoot true next es
  | _ :: _ => .usage

/-- The meaning of a command line. `env` is what the environment says about the configuration. -/
def parse (env : Option String) (args : List String) : Invocation :=
  let leading := args.takeWhile isOption
  let next := if leading.contains "--" then .usage else commandOf env (args.dropWhile isOption)
  takeRoot false next (events rootOptions none leading)

end SqlDialect.Cli
