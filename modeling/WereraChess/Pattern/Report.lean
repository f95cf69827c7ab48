import WereraChess.Pattern.Error
/-!
# Reports of faulty patterns

A report shows the pattern with marks under the part at fault. A pattern of several lines stands
between rules with its lines numbered, and a part that goes over the end of a line is told in words.
-/

namespace WereraChess.Pattern

/-- The lines of a text. A line end at the end of the text begins no line, and a carriage return
before one belongs to it. -/
def lines (text : List Char) : List (List Char) :=
  let pieces := Text.splitWhere (· = '\n') text
  let ended := pieces.dropLast.map fun l => if l.getLast? = some '\r' then l.dropLast else l
  match pieces.getLast? with
  | some [] | none => ended
  | some last => ended ++ [last]

namespace Span

def isOnOneLine (s : Span) : Bool := s.first.line = s.last.line

/-- How many marks a part on one line has. -/
def width (s : Span) : Nat := max 1 (s.last.column - s.first.column)

end Span

/-- The marks for parts of one line, in their order: each begins under its first column, or after
the marks before it. -/
def marks (spans : List Span) : List Char :=
  spans.foldl (fun row s =>
    row ++ List.replicate (s.first.column - 1 - row.length) ' ' ++ List.replicate s.width '^') []

namespace Error

def spans (e : Error) : List Span :=
  (e.earlier.toList ++ [e.span]).mergeSort fun a b =>
    a.first.line < b.first.line || a.first.line = b.first.line && a.first.column ≤ b.first.column

/-- The lines of the pattern, each after its number if there are several, with marks under them. -/
def listing (e : Error) (text : List Char) : List Char :=
  let numbered := text.contains '\n'
  let count := (Text.splitWhere (· = '\n') text).length
  let digits := (toString count).length
  let indent := if numbered then digits + 2 else 4
  (lines text).zipIdx.flatMap fun (l, i) =>
    let number := (toString (i + 1)).toList
    let label := if numbered
      then List.replicate (digits - number.length) ' ' ++ number ++ [':', ' ']
      else List.replicate indent ' '
    let here := e.spans.filter fun s => s.isOnOneLine && s.first.line = i + 1
    let noted := if here.isEmpty then [] else List.replicate indent ' ' ++ marks here ++ ['\n']
    label ++ l ++ ['\n'] ++ noted

def place (s : Span) : String :=
  let spot (line column : Nat) := "line " ++ toString line ++ " (column " ++ toString column ++ ")"
  "on " ++ spot s.first.line s.first.column ++ " through " ++ spot s.last.line (s.last.column - 1)
    ++ "\n"

def report (e : Error) (text : List Char) : String :=
  let rule := if text.contains '\n' then String.ofList (List.replicate 79 '~') ++ "\n" else ""
  let places := (e.spans.filter fun s => !s.isOnOneLine).map place
  "regex parse error:\n" ++ rule ++ String.ofList (e.listing text) ++ rule ++ String.join places
    ++ "error: " ++ e.problem.message

end Error

end WereraChess.Pattern
