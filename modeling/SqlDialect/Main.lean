import SqlDialect.Cli.Run

set_option autoImplicit false

namespace SqlDialect.Cli

def defaultConfigPath : IO (Option String) := do
  let base := match ← IO.getEnv "XDG_CONFIG_HOME", ← IO.getEnv "HOME" with
    | some dir, home => if dir.startsWith "/" then some dir else home.map (· ++ "/.config")
    | none, home => home.map (· ++ "/.config")
  return base.map (· ++ "/bqsql/config.toml")

/-- Whether there is anything at a path, and the text of the file there if it can be read. -/
def lookAt (path : String) : IO (Bool × Option String) := do
  try
    return (true, some (← IO.FS.readFile path))
  catch
    | .noFileOrDirectory .. => return (false, none)
    | _ => return (true, none)

def readsStdin : Invocation → Bool
  | .run (.compile tree _ _ _) => tree == "-"
  | _ => false

def hostFor (i : Invocation) : IO Host := do
  let defaultConfig ← defaultConfigPath
  let files := match i with
    | .run c => c.files defaultConfig
    | _ => []
  let seen ← files.mapM fun path => do return (path, ← lookAt path)
  let stdin ← if readsStdin i then (← IO.getStdin).readToEnd else pure ""
  let forced ← IO.getEnv "CLICOLOR_FORCE"
  return {
    read := fun path => (seen.lookup path).bind Prod.snd
    holds := fun path => (seen.lookup path).any Prod.fst
    stdin
    defaultConfig
    color := forced.isSome && forced != some "0" }

end SqlDialect.Cli

def main (args : List String) : IO UInt32 := do
  let i := SqlDialect.Cli.parse (← IO.getEnv "BQSQL_CONFIG") args
  let report := SqlDialect.Cli.run (← SqlDialect.Cli.hostFor i) i
  IO.print report.out
  if let some f := report.failure then IO.eprintln ("Error: " ++ f.message)
  if report.exit = 2 then IO.eprint (SqlDialect.Cli.lines (SqlDialect.Cli.helpLines none))
  return report.exit.toUInt32
