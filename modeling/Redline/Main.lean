import Redline.CommandLine.Program

/-!
# The command

Reads arguments, variables, files and piped text, runs the program on them, and writes what it
answers. There is no connection to a service from here, so expressions can be listed but not
run, and no table of the names of characters.
-/

open Redline

attribute [local instance] CharNames.none

/-- A service that is out of reach. -/
def offlineService : Service Unit where
  fetch s := (.error (.other "no connection to the service".toList), s)
  update _ s := (.error (.other "no connection to the service".toList), s)

/-- The content of a file, or why it cannot be read. -/
def loadFile (path : Text) : IO (Except FileError Text) := do
  match ← (IO.FS.readFile (String.ofList path)).toBaseIO with
  | .ok content => return .ok content.toList
  | .error (.inappropriateType ..) => return .error (.isDirectory path)
  | .error _ => return .error (.notFound path)

/-- The files with some paths, read beforehand. -/
def loadFiles (paths : List Text) : IO Files := do
  let contents ← paths.mapM fun path => return (path, ← loadFile path)
  return fun path => ((contents.find? (·.1 == path)).map (·.2)).getD (.error (.notFound path))

/-- The variables of the environment that count. -/
def loadEnvironment : IO Environment := do
  let values ← Configuration.variableNames.mapM fun name => return (name, ← IO.getEnv name)
  return fun name => ((values.find? (·.1 == name)).bind (·.2)).map (·.toList)

/-- The text that is piped in. -/
def loadInput : IO (Option Text) := do
  let input ← IO.getStdin
  if ← input.isTty then return none
  return some (← readToEnd input).toList
where
  readToEnd (input : IO.FS.Stream) : IO String := do
    let mut text := ""
    repeat
      let line ← input.getLine
      if line.isEmpty then break
      text := text ++ line
    return text

/-- How the command is used. -/
def usageText : String :=
  "usage: redline [-h] [-e EXPRESSION] [-f FILE] [--dry-run] [--json] [-v] DOC_ID [EXPRESSION]"

/-- Run the command. -/
def main (args : List String) : IO UInt32 := do
  let arguments := args.map String.toList
  let environment ← loadEnvironment
  let credentials := (Configuration.ofEnvironment environment).credentials
  let script := (Arguments.read arguments).toOption.bind (·.file)
  let files ← loadFiles (script.toList ++ credentials.toList)
  let surroundings : Surroundings Unit :=
    { files, environment, input := ← loadInput
      connect := fun path => (Credentials.loadConfigured files path).map fun _ => offlineService }
  let (ending, _) := (Program.run surroundings arguments).run { state := () }
  match ending with
  | .ok (.usage .help) => IO.println usageText
  | .ok (.usage .wrong) => IO.eprintln usageText
  | .ok (.done _ output errors) =>
    IO.print (String.ofList output)
    IO.eprint (String.ofList errors)
  | .error trouble => IO.eprintln (String.ofList trouble.report.message)
  match ending with
  | .ok (.usage u) => return u.status.toUInt32
  | .ok (.done status _ _) => return status.toUInt32
  | .error _ => return 1
