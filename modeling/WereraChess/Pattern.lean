import WereraChess.Pattern.Reader
import WereraChess.Pattern.Report
import WereraChess.Pattern.Support
/-!
# Patterns

The values of a field are described by a pattern, a regular expression without commas, equals signs
and closing braces. Only whether a pattern can be matched is decided here. Two things prevent that:
an error in the pattern, and a match at the edges of words in Unicode.
-/

namespace WereraChess.Pattern

inductive Rejection where
  | faulty (text : List Char) (e : Error)
  | wordEdges
  deriving DecidableEq

/-- The messages of a rejection and of its causes, the outermost first. -/
def Rejection.messages : Rejection → List String
  | .faulty text e => ["error building NFA", "error parsing regex", e.report text]
  | .wordEdges =>
    ["unsupported regex feature for DFAs: cannot build DFAs for regexes with Unicode word "
      ++ "boundaries; switch to ASCII word boundaries, or heuristically enable Unicode word "
      ++ "boundaries or use a different regex engine"]

def check (text : List Char) : Except Rejection Unit :=
  match Node.ofText text >>= Support.check {} with
  | .error e => .error (.faulty text e)
  | .ok s => if s.wordEdges then .error .wordEdges else .ok ()

end WereraChess.Pattern
