import Std.Time.DateTime.Timestamp
import WereraChess.Program
/-!
# Running the program

Reads the files and the clock for a run, and carries out what the run asks for.
-/

namespace WereraChess.Main

def readFile (path : String) : IO FileText := do
  try
    match String.fromUTF8? (← IO.FS.readBinFile path) with
    | some s => return .text s
    | none => return .unreadable
  catch
    | .noFileOrDirectory _ _ _ => return .missing
    | _ => return .unreadable

/-- The directory of a path; nothing for a path without one. -/
def parent (path : String) : String :=
  String.ofList ((path.toList.reverse.dropWhile (· ≠ '/')).drop 1).reverse

def writeFile (path text : String) : IO Unit := do
  if parent path ≠ "" then IO.FS.createDirAll (parent path)
  IO.FS.writeFile path text

def settingsPath : IO String := do
  match ← IO.getEnv "XDG_CONFIG_HOME", ← IO.getEnv "HOME" with
  | some dir, home =>
    if dir.startsWith "/" then return dir ++ "/senterej/settings.json"
    else return home.elim "settings.json" (· ++ "/.config/senterej/settings.json")
  | none, some home => return home ++ "/.config/senterej/settings.json"
  | none, none => return "settings.json"

def perform (args : List String) : IO UInt32 := do
  let settings ← settingsPath
  let files ← (Program.paths settings args).mapM fun path => return (path, ← readFile path)
  let millis := (← Std.Time.Timestamp.now).toMillisecondsSinceUnixEpoch.val.toNat
  let world : Program.World :=
    { settingsPath := settings
      file := fun path => (files.lookup path).getD .missing
      ids := Uuid.numbered
      now := Instant.ofMillis millis }
  let run := Program.run world args
  let outcome ← match run.write with
    | none => pure run.outcome
    | some (path, text) => try writeFile path text; pure run.outcome catch _ => pure Program.unwritten
  (← IO.getStdout).putStr outcome.stdout
  (← IO.getStderr).putStr outcome.stderr
  return outcome.exitCode.toUInt32

end WereraChess.Main

def main (args : List String) : IO UInt32 := WereraChess.Main.perform args
