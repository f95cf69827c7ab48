import WereraChess.Fen.Alphabet
import WereraChess.Square.Name
/-!
# Command lines

The arguments of the program: options for all commands, the name of a command, and the options and
operands of the command. A level of the line, the program's own or a command's, is scanned from left
to right. What is wrong with a value shows when the next option or the end of the level is reached;
until then a request for help is not heard.
-/

namespace WereraChess

namespace CommandLine

/-- Why a line asks for no command. -/
inductive Stop where
  | usage
  | help
  | version
  deriving DecidableEq

/-- What may stand on a level of the line: options with the values they take, flags, operands in
turn, and the commands that may follow. -/
structure Level where
  options : List (String × (String → Bool))
  flags : List String
  operands : List (String → Bool)
  commands : List String
  hasVersion : Bool

/-- What has been found on a level. An option may have to be followed by its value, and all that
follows may be operands. A command has the arguments after it. -/
structure Found where
  values : List (String × String)
  flags : List String
  operands : List String
  awaiting : Option String
  trailing : Bool
  faulty : Bool
  command : Option (String × List String)

def Found.none : Found := ⟨[], [], [], .none, false, false, .none⟩

def Found.value? (f : Found) (name : String) : Option String := f.values.lookup name

def Found.isSound (f : Found) : Bool := f.awaiting.isNone && !f.faulty

namespace Level

def setValue (l : Level) (f : Found) (name value : String) : Found :=
  let wrong := (f.value? name).isSome || !(l.options.lookup name).any fun takes => takes value
  { f with values := f.values ++ [(name, value)], awaiting := none, faulty := f.faulty || wrong }

/-- The name and the attached value of a long option without its hyphens. -/
def splitLong (cs : List Char) : String × Option String :=
  let name := String.ofList (cs.takeWhile (· ≠ '='))
  match cs.dropWhile (· ≠ '=') with
  | _ :: value => (name, some (String.ofList value))
  | [] => (name, none)

def takeLong (l : Level) (f : Found) (cs : List Char) : Except Stop Found :=
  let (name, value) := splitLong cs
  if !f.isSound then .error .usage
  else if (l.options.lookup name).isSome then
    match value with
    | none => .ok { f with awaiting := some name }
    | some v =>
      let next := l.setValue f name v
      if next.faulty then .error .usage else .ok next
  else if value.isSome then .error .usage
  else if name = "help" then .error .help
  else if name = "version" ∧ l.hasVersion then .error .version
  else if name ∈ l.flags ∧ name ∉ f.flags then .ok { f with flags := f.flags ++ [name] }
  else .error .usage

/-- Takes options in their short form, of which there are only those for help and version. -/
def takeShort (l : Level) (f : Found) (c : Char) : Except Stop Found :=
  if !f.isSound then .error .usage
  else if c = 'h' then .error .help
  else if c = 'V' ∧ l.hasVersion then .error .version
  else .error .usage

def takeOperand (l : Level) (f : Found) (arg : String) : Except Stop Found :=
  match l.operands[f.operands.length]? with
  | some takes =>
    .ok { f with operands := f.operands ++ [arg], faulty := f.faulty || !takes arg }
  | none => .error .usage

/-- The answer to the command `help`, which may name another command. -/
def helpStop (l : Level) : List String → Stop
  | [] => .help
  | [name] => if name = "help" ∨ name ∈ l.commands then .help else .usage
  | _ => .usage

/-- Scans the arguments of a level up to its command. -/
def scan (l : Level) (f : Found) : List String → Except Stop Found
  | [] => .ok f
  | arg :: args =>
    if f.trailing then
      match l.takeOperand f arg with
      | .ok next => l.scan next args
      | .error stop => .error stop
    else if f.awaiting = none ∧ arg ∈ l.commands then .ok { f with command := some (arg, args) }
    else if f.awaiting = none ∧ arg = "help" ∧ l.commands ≠ [] then .error (l.helpStop args)
    else
      match arg.toList, f.awaiting with
      | ['-', '-'], _ => l.scan { f with trailing := true } args
      | '-' :: '-' :: cs, _ =>
        match l.takeLong f cs with
        | .ok next => l.scan next args
        | .error stop => .error stop
      | '-' :: c :: _, _ =>
        match l.takeShort f c with
        | .ok next => l.scan next args
        | .error stop => .error stop
      | _, some name => l.scan (l.setValue f name arg) args
      | _, none =>
        match l.takeOperand f arg with
        | .ok next => l.scan next args
        | .error stop => .error stop

end Level

def reads {ε α : Type} (ofText : String → Except ε α) (text : String) : Bool :=
  (ofText text).toOption.isSome

def isPath (text : String) : Bool := text ≠ ""

def commonOptions : List (String × (String → Bool)) :=
  [("config", isPath), ("log", fun _ => true)]

def variantOption : String × (String → Bool) := ("variant", reads Variant.ofName)

def alphabetOption : String × (String → Bool) := ("notation", reads Alphabet.ofName)

def programLevel : Level :=
  { options := commonOptions, flags := [], operands := []
    commands := ["new", "show", "moves", "replay", "config"], hasVersion := true }

def commandLevel (name : String) : Level :=
  let (options, flags, operands) : List (String × (String → Bool)) × List String
      × List (String → Bool) :=
    match name with
    | "new" => ([variantOption, alphabetOption], [], [])
    | "show" => ([alphabetOption], [], [fun _ => true])
    | "moves" => ([], [], [fun _ => true, reads Square.ofText])
    | "replay" => ([alphabetOption], ["wire"], [isPath])
    | _ => ([], ["reset"], [])
  { options := commonOptions ++ options, flags, operands, commands := [], hasVersion := false }

inductive Request where
  | new (v : Option Variant) (a : Option Alphabet)
  | «show» (line : String) (a : Option Alphabet)
  | moves (line : String) (square : Option Square)
  | replay (file : String) (a : Option Alphabet) (wire : Bool)
  | config (reset : Bool)

/-- The request of a command's level, unless an operand is missing. -/
def Request.ofFound? (name : String) (f : Found) : Option Request :=
  let alphabet := (f.value? "notation").bind fun t => (Alphabet.ofName t).toOption
  match name, f.operands with
  | "new", _ =>
    some (.new ((f.value? "variant").bind fun t => (Variant.ofName t).toOption) alphabet)
  | "show", line :: _ => some (.show line alphabet)
  | "moves", [line] => some (.moves line none)
  | "moves", line :: square :: _ => some (.moves line (Square.ofText square).toOption)
  | "replay", file :: _ => some (.replay file alphabet ("wire" ∈ f.flags))
  | "config", _ => some (.config ("reset" ∈ f.flags))
  | _, _ => none

end CommandLine

structure CommandLine where
  config : Option String
  log : Option String
  request : CommandLine.Request

namespace CommandLine

/-- Reads the arguments. An option for all commands that stands before and after the name of the
command counts as it stands after it. -/
def ofArgs (args : List String) : Except Stop CommandLine := do
  let outer ← programLevel.scan .none args
  match outer.command with
  | none => throw .usage
  | some (name, rest) =>
    let inner ← (commandLevel name).scan .none rest
    match Request.ofFound? name inner with
    | some request =>
      if inner.isSound && outer.isSound then
        return {
          config := (inner.value? "config").or (outer.value? "config")
          log := (inner.value? "log").or (outer.value? "log")
          request }
      else throw .usage
    | none => throw .usage

end CommandLine

end WereraChess
