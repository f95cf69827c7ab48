import WereraChess.Command
import WereraChess.CommandLine
import WereraChess.LogFilter
/-!
# The program

One run of the program as a function of its arguments, the files it finds, the time and a supply of
identifiers. A run prints, and may ask for one file to be written before it does.
-/

namespace WereraChess.Program

structure Outcome where
  exitCode : Nat
  stdout : String
  stderr : String

/-- A run: its outcome, and the file it writes. -/
structure Run where
  outcome : Outcome
  write : Option (String × String)

structure World where
  settingsPath : String
  file : String → FileText
  ids : Nat → Uuid
  now : Instant

def usage : String :=
  "Usage: senterej [--config <CONFIG>] [--log <LOG>] <new|show|moves|replay|config>\n"

def version : String := "senterej 0.1.0\n"

/-- A line of a list of causes; the lines after its first are indented too. -/
def causeLines (number : Option Nat) (message : String) : String :=
  let (first, indent) := match number with
    | some n => ("\n    " ++ toString n ++ ": ", "       ")
    | none => ("\n    ", "    ")
  first ++ String.ofList (message.toList.flatMap fun c =>
    if c = '\n' then c :: indent.toList else [c])

/-- The report of an error and of what caused it, the outermost first. -/
def errorText : List String → String
  | [] => ""
  | message :: causes =>
    let listed := match causes with
      | [] => ""
      | [cause] => "\n\nCaused by:" ++ causeLines none cause
      | causes =>
        "\n\nCaused by:" ++ String.join (causes.zipIdx.map fun (c, i) => causeLines (some i) c)
    "Error: " ++ message ++ listed ++ "\n"

/-- The messages of an error and its causes. A fault has none. -/
def messages : Command.Error → Except Fault (List String)
  | .file => .ok ["I/O error"]
  | .document => .ok ["Serialization error"]
  | .badSquare e => .ok [e.message]
  | .badFen e => .ok [e.message]
  | .refused r => do
    let message ← r.message
    return match r with
      | .badFen e => [message, e.message]
      | _ => [message]
  | .fault f => .error f

def failed (contexts : List String) (e : Command.Error) : Outcome :=
  match messages e with
  | .ok ms => ⟨1, "", errorText (contexts ++ ms)⟩
  | .error _ => ⟨101, "", "the move record is beyond the board or the counter\n"⟩

def ofFilterError (e : LogFilter.Error) : Outcome :=
  match e.messages? with
  | some ms => ⟨1, "", errorText ms⟩
  | none => ⟨101, "", "the log filter cannot be cut into its parts\n"⟩

def printed (text : String) : Outcome := ⟨0, text, ""⟩

def ofResult (contexts : List String) : Except Command.Error String → Run
  | .ok text => ⟨printed text, none⟩
  | .error e => ⟨failed contexts e, none⟩

def ofFenResult : Except FenError String → Run
  | .ok text => ⟨printed text, none⟩
  | .error e => ⟨failed [] (.badFen e), none⟩

/-- Runs a command under the settings, whose file has the given path. -/
def runRequest (w : World) (path : String) (settings : Settings) :
    CommandLine.Request → Run
  | .new v a => ⟨printed (Command.new (v.getD settings.variant) (a.getD settings.alphabet)), none⟩
  | .show line a => ofFenResult (Command.show line a)
  | .moves line square => ofFenResult (Command.moves line square)
  | .replay file a wire =>
    ofResult ["replaying " ++ file]
      (Command.replay (w.file file) settings a wire w.ids w.now.millis)
  | .config true =>
    ⟨printed (Command.settingsText path {}), some (path, Command.freshSettings w.now)⟩
  | .config false =>
    ofResult [] ((Command.settingsOf (w.file path)).map (Command.settingsText path))

/-- One run. Settings that cannot be read give way to the usual ones; a log filter that cannot be
read ends the run before its command. -/
def run (w : World) (args : List String) : Run :=
  match CommandLine.ofArgs args with
  | .error .usage => ⟨⟨2, "", usage⟩, none⟩
  | .error .help => ⟨printed usage, none⟩
  | .error .version => ⟨printed version, none⟩
  | .ok line =>
    let path := line.config.getD w.settingsPath
    let settings := ((Command.settingsOf (w.file path)).toOption).getD {}
    match LogFilter.check (line.log.getD settings.logFilter) with
    | .ok () => runRequest w path settings line.request
    | .error e => ⟨ofFilterError e, none⟩

def unwritten : Outcome := failed [] .file

/-- The files that a run may look at. -/
def paths (settingsPath : String) (args : List String) : List String :=
  match CommandLine.ofArgs args with
  | .error _ => []
  | .ok line =>
    line.config.getD settingsPath :: match line.request with
      | .replay file _ _ => [file]
      | _ => []

end WereraChess.Program
