import SqlDialect.Cli.Args
import SqlDialect.Registry
import SqlDialect.Tree.Build
import SqlDialect.Tree.Decode
import SqlDialect.Warehouse.Request

set_option autoImplicit false

namespace SqlDialect.Cli

inductive Style where
  | heading
  | sql
  | label
  | data
  | dim
  deriving DecidableEq

def Style.code : Style → String
  | .heading => "1;32"
  | .sql => "37"
  | .label => "36"
  | .data => "33"
  | .dim => "2"

def Style.start (s : Style) : List Char :=
  '\x1b' :: '[' :: s.code.toList ++ ['m']

def reset : List Char :=
  ['\x1b', '[', '0', 'm']

/-- The text with the style started again after each reset inside it. -/
def restyle (s : Style) : List Char → List Char
  | '\x1b' :: '[' :: '0' :: 'm' :: cs => reset ++ s.start ++ restyle s cs
  | c :: cs => c :: restyle s cs
  | [] => []

def paint (color : Bool) (s : Style) (text : String) : String :=
  if color then String.ofList (s.start ++ restyle s text.toList ++ reset) else text

structure Host where
  read : String → Option String
  holds : String → Bool
  stdin : String
  defaultConfig : Option String
  color : Bool

/-- Why a command has failed: causes, the outermost first. -/
abbrev Failure := List String

def Failure.message (f : Failure) : String :=
  Text.join ": " f

structure Report where
  exit : Nat
  out : String := ""
  failure : Option Failure := none

def loadConfig (host : Host) (path : String) : Except Failure Config :=
  match host.read path with
  | none => .error ["IO error", path]
  | some text => (Config.ofText text).mapError fun e => [e.message]

def configOf (host : Host) (path : Option String) : Except Failure Config :=
  match path, host.defaultConfig with
  | some p, _ => (loadConfig host p).mapError (("failed to load config from " ++ p) :: ·)
  | none, some p => if host.holds p then loadConfig host p else .ok {}
  | none, none => .ok {}

def lines (ls : List String) : String :=
  String.join (ls.map (· ++ "\n"))

def paramLines (color : Bool) : (number : Nat) → List Value → List String
  | _, [] => []
  | number, v :: vs =>
    ("  ?" ++ number.repr ++ " = " ++ paint color .data v.display) :: paramLines color (number + 1) vs

def paramSection (color : Bool) (vs : List Value) : List String :=
  if vs.isEmpty then [] else "" :: paint color .label "Parameters:" :: paramLines color 1 vs

def readTree (host : Host) (path : String) : Except Failure Node := do
  let text ←
    if path = "-" then .ok host.stdin
    else
      match host.read path with
      | some text => .ok text
      | none => .error ["failed to read " ++ path]
  (Node.ofText text).mapError fun _ => ["invalid operation tree"]

def typesJson : Option (List ParamType) → Json
  | none => .null
  | some ts => .array (ts.map fun t => .string t.name)

def requestJson (r : Request) : Json :=
  .object [("sql", .string r.sql), ("parameters", .array (r.params.map Value.encode)),
    ("types", typesJson r.types)]

def typeLine (color : Bool) : Option (List ParamType) → List String
  | none => []
  | some ts =>
    [paint color .label "Types:" ++ " " ++ paint color .data (Text.join ", " (ts.map ParamType.name))]

def requestLines (color : Bool) (r : Request) : List String :=
  paint color .heading "Generated SQL:" :: paint color .sql r.sql :: paramSection color r.params ++
    typeLine color r.types

def compile (host : Host) (tree : String) (dialect : DialectName) (format : Format)
    (config : Option String) : Except Failure String := do
  let n ← readTree host tree
  let c ← configOf host config
  let request := Request.prepare c.registry (dialect.dialect.compile n)
  match format with
  | .json => return (requestJson request).indented ++ "\n"
  | .text => return lines (requestLines host.color request)

/-- A number as a parameter: an integer of 64 bits where it is one. -/
def numberParam (n : Json.Number) : Value :=
  match Value.int64Of? n with
  | some i => .int i
  | none => .float (Value.floatOf n)

/-- A parameter is read as JSON; what is no JSON is text. -/
def paramOf (s : String) : Value :=
  match Json.parse s with
  | .ok .null => .null
  | .ok (.bool b) => .bool b
  | .ok (.number n) => numberParam n
  | .ok (.string t) => .string t
  | .ok j => .json j
  | .error _ => .string s

/-- Raw SQL with a parameter at each question mark. -/
def rawStatement (sql : String) (params : List String) : Compiled :=
  let fragments := (Text.split '?' sql.toList).map String.ofList
  Dialect.bigQuery.compile (.raw fragments (params.map fun p => .val (paramOf p)))

/-- Says that the placeholders of a statement and its parameters do not agree in number. -/
def placeholderWarning? (c : Compiled) : Option String :=
  let placeholders := Scan.countPlaceholders c.sql
  if placeholders = c.params.length then none
  else some ("⚠ " ++ placeholders.repr ++ " placeholders but " ++ c.params.length.repr ++ " parameters")

def rawLines (color : Bool) (c : Compiled) : List String :=
  paint color .heading "Translated SQL:" :: paint color .sql c.sql :: paramSection color c.params ++
    (placeholderWarning? c).toList.map (paint color .data)

def translate (host : Host) (sql : String) (params : List String) : String :=
  lines (rawLines host.color (rawStatement sql params))

def tableLine (color : Bool) (t : String × List String) : String :=
  "  " ++ paint color .label t.1 ++ " " ++ Text.join ", " t.2

def registryLines (host : Host) (c : Config) : List String :=
  if c.registry.isEmpty then
    paint host.color .dim "No JSON columns configured." ::
      host.defaultConfig.toList.map ("Add a [json_columns] table to " ++ ·)
  else
    paint host.color .heading "JSON columns:" :: c.registry.tables.map (tableLine host.color) ++
      [paint host.color .dim "Introspection concurrency:" ++ " " ++ c.concurrency.repr]

def versionLine : String := "bqsql 0.1.0"

def commandHelp : CommandName → List String
  | .compile =>
    ["Compile an operation tree stored as JSON", "",
      "Usage: bqsql compile [OPTIONS] <TREE>", "",
      "Arguments:",
      "  <TREE>  Path to the tree, or `-` for stdin", "",
      "Options:",
      "  -d, --dialect <DIALECT>  `bigquery` (or `bq`) or `generic` [default: bigquery]",
      "  -v, --verbose            Verbose output (debug logging)",
      "  -f, --format <FORMAT>    [default: text] [possible values: text, json]",
      "  -c, --config <CONFIG>    Config used to encode JSON columns and infer parameter types " ++
        "[env: BQSQL_CONFIG=]",
      "  -h, --help               Print help"]
  | .translate =>
    ["Translate raw SQL; each `?` splits a fragment", "",
      "Usage: bqsql translate [OPTIONS] <SQL>", "",
      "Arguments:",
      "  <SQL>  ", "",
      "Options:",
      "  -p, --param <PARAM>  Parameter values, in placeholder order",
      "  -v, --verbose        Verbose output (debug logging)",
      "  -h, --help           Print help"]
  | .registry =>
    ["Show the JSON column registry", "",
      "Usage: bqsql registry [OPTIONS]", "",
      "Options:",
      "  -c, --config <CONFIG>  [env: BQSQL_CONFIG=]",
      "  -v, --verbose          Verbose output (debug logging)",
      "  -h, --help             Print help"]

def helpLines : Option CommandName → List String
  | some name => commandHelp name
  | none =>
    ["BigQuery SQL dialect compiler", "",
      "Usage: bqsql [OPTIONS] <COMMAND>", "",
      "Commands:",
      "  compile    Compile an operation tree stored as JSON",
      "  translate  Translate raw SQL; each `?` splits a fragment",
      "  registry   Show the JSON column registry",
      "  help       Print this message or the help of the given subcommand(s)", "",
      "Options:",
      "  -v, --verbose  Verbose output (debug logging)",
      "  -h, --help     Print help",
      "  -V, --version  Print version", "",
      "EXAMPLES:",
      "    bqsql compile query.json",
      "    bqsql compile query.json --dialect generic --format json",
      "    bqsql translate \"select NOW() from t where a = ?\" --param 1",
      "    bqsql registry"]

def runCommand (host : Host) : Command → Except Failure String
  | .compile tree dialect format config => compile host tree dialect format config
  | .translate sql params => .ok (translate host sql params)
  | .registry config => (configOf host config).map fun c => lines (registryLines host c)

def report : Except Failure String → Report
  | .ok out => ⟨0, out, none⟩
  | .error f => ⟨1, "", some f⟩

def run (host : Host) : Invocation → Report
  | .run c => report (runCommand host c)
  | .version => ⟨0, lines [versionLine], none⟩
  | .help topic => ⟨0, lines (helpLines topic), none⟩
  | .usage => ⟨2, "", none⟩

def Command.files (c : Command) (defaultConfig : Option String) : List String :=
  match c with
  | .compile tree _ _ config => (if tree = "-" then [] else [tree]) ++ (config <|> defaultConfig).toList
  | .translate _ _ => []
  | .registry config => (config <|> defaultConfig).toList

end SqlDialect.Cli
