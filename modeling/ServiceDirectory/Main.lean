import ServiceDirectory.Api.Routes
import ServiceDirectory.Settings.File

/-!
# The command line

The first argument names the settings file. Then every line of the standard
input is a request to the HTTP interface, a method and a target with a space
between them, and is answered by a status and a body. No backend is asked.
-/

open ServiceDirectory

/-- The settings file that is read unless another one is named. -/
def defaultSettingsPath : String := "/etc/naming-reactor/reactor.toml"

/-- The bytes of a file, if it can be read. -/
def readFile? (path : String) : IO (Option (List UInt8)) := do
  try
    return some (← IO.FS.readBinFile path).toList
  catch _ =>
    return none

/-- A line as a request. -/
def requestOfLine (line : String) : Api.Request :=
  let text := line.toList.filter fun c => c != '\n' && c != '\r'
  { method := String.ofList (text.takeWhile (· != ' ')),
    target := String.ofList ((text.dropWhile (· != ' ')).drop 1) }

/-- The backend that answers no question. -/
def noBackend : Backend := fun _ => { reply := none, conditions := fun _ => default }

partial def answerLines (directory : Directory) (input output : IO.FS.Stream) : IO Unit := do
  let line ← input.getLine
  if line.isEmpty then return
  let (response, directory) := Api.respond directory noBackend (requestOfLine line)
  output.putStrLn (String.ofList (Nat.toDigits 10 response.status))
  output.putStrLn response.body
  output.flush
  answerLines directory input output

def main (args : List String) : IO UInt32 := do
  let path := args.head?.getD defaultSettingsPath
  match Settings.load path (← readFile? path) with
  | .error e =>
    (← IO.getStderr).putStrLn ("Failed to load config from " ++ path ++ ": " ++ e.message)
    return 1
  | .ok settings =>
    let directory := Directory.start (settings.directory.policy 0) false none
    answerLines directory (← IO.getStdin) (← IO.getStdout)
    return 0
