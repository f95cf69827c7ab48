import WereraChess.Pattern
import WereraChess.Text.Alphanumeric
import WereraChess.Text.Slice
/-!
# Log filters

Which events a run logs is told by directives with commas between them. A directive names a level,
or a target, a span in brackets with a field of it in braces, or both, and after an equals sign the
level for them. Only whether a filter can be read is decided here.

A directive is read without the blanks around it, but its parts are cut out of the directive with
them, at the same numbers of bytes from its beginning. So blanks before a directive shift all of its
parts, and blanks after it belong to its level.
-/

namespace WereraChess.LogFilter

/-- What is wrong with a filter: it has no directive, no level after an equals sign, a value that is
no pattern, or a part that would be cut within a character. -/
inductive Error where
  | directive
  | level
  | value (e : Pattern.Rejection)
  | cut
  deriving DecidableEq

/-- The messages of an error and of its causes, the outermost first; none if the directive cannot be
cut into parts, which is no error of its author. -/
def Error.messages? : Error → Option (List String)
  | .directive => some ["invalid filter directive"]
  | .level =>
    let message := "error parsing level filter: expected one of \"off\", \"error\", \"warn\", "
      ++ "\"info\", \"debug\", \"trace\", or a number 0-5"
    some [message, message]
  | .value e => some ((e.messages.take 1).map ("invalid field filter: " ++ ·) ++ e.messages)
  | .cut => none

def levelNames : List String := ["off", "error", "warn", "info", "debug", "trace"]

/-- A level is named in either case or given by its number, or left blank. -/
def isLevel (cs : List Char) : Bool :=
  cs.isEmpty || (Text.plusDecimal? cs).any (· ≤ 5) || (String.ofList cs).toLower ∈ levelNames

/-- Whether a target or level may begin with the character. -/
def startsTarget (c : Char) : Bool := c = '-' || c = ':' || c = '_' || Text.isAlphanumeric c

/-- A field has a name and may have a value, which is a truth value, a number or a pattern. -/
def checkField (cs : List Char) : Except Error Unit :=
  if cs.isEmpty then .error .directive
  else match Text.splitWhere (· = '=') cs with
    | _ :: value :: _ =>
      if String.ofList value ∈ ["true", "false"] || Text.isNumber value then .ok ()
      else (Pattern.check value).mapError .value
    | _ => .ok ()

/-- Where the reading of a directive stands. A part that has begun is given by the number of bytes
before it. A level that stands alone is read as a target. -/
inductive Stage where
  | start
  | target
  | span (first : Nat)
  | field (first : Nat)
  | fields
  | close
  | level (first : Nat)

def part (directive : List Char) (first last : Nat) : Except Error (List Char) :=
  match Text.slice? directive first last with
  | some cs => .ok cs
  | none => .error .cut

/-- Reads the character before which there are `i` bytes. -/
def Stage.next (directive : List Char) (stage : Stage) (i : Nat) (c : Char) :
    Except Error Stage := do
  match stage with
  | .start =>
    if c = '[' then return .span (i + 1)
    else if startsTarget c then return .target
    else throw .directive
  | .target =>
    if c = '=' ∨ c = '[' then
      let _ ← part directive 0 i
      return if c = '=' then .level (i + 1) else .span (i + 1)
    else return stage
  | .span first =>
    if c = ']' ∨ c = '\x7b' then
      let _ ← part directive first i
      return if c = ']' then .close else .field (i + 1)
    else return stage
  | .field first =>
    if c = '\x7d' then
      checkField (← part directive first i)
      return .fields
    else return stage
  | .fields => if c = ']' then return .close else throw .directive
  | .close => if c = '=' then return .level (i + 1) else throw .directive
  | .level _ => return stage

def Stage.finish (directive : List Char) : Stage → Except Error Unit
  | .target | .close => .ok ()
  | .level first => do
    if isLevel (← part directive first (Text.byteSize directive)) then return
    else throw .level
  | .start | .span _ | .field _ | .fields => .error .directive

def checkDirective (directive : List Char) : Except Error Unit := do
  let (stage, _) ← (Text.trim directive).foldlM
    (fun (stage, i) c => return (← stage.next directive i c, i + c.utf8Size)) (Stage.start, 0)
  stage.finish directive

/-- Reads a filter; empty directives count for nothing. -/
def check (filter : String) : Except Error Unit :=
  ((Text.splitWhere (· = ',') filter.toList).filter (· ≠ [])).forM checkDirective

end WereraChess.LogFilter
