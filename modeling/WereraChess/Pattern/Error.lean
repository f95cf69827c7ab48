import WereraChess.Pattern.Cursor
/-!
# Faulty patterns

What can be wrong with a pattern, and the part of it that is.
-/

namespace WereraChess.Pattern

inductive Problem where
  | classEscape
  | rangeOrder
  | rangeBound
  | classUnclosed
  | number
  | hexDigit
  | hexCharacter
  | escapeEnd
  | escape
  | flagDangling
  | flagTwice
  | negationTwice
  | flagEnd
  | flag
  | nameTwice
  | nameEmpty
  | name
  | nameEnd
  | groupUnclosed
  | groupUnopened
  | nesting
  | countEmpty
  | countUnclosed
  | repetition
  | boundary
  | boundaryEnd
  | property
  | backreference
  | lookAround
  | notByte
  | notText
  | unknownProperty
  | noShorthand
  | noCaseFolding
  deriving DecidableEq

/-- How deep groups and classes may be nested. -/
def nestingLimit : Nat := 250

def Problem.message : Problem → String
  | classEscape => "invalid escape sequence found in character class"
  | rangeOrder => "invalid character class range, the start must be <= the end"
  | rangeBound => "invalid range boundary, must be a literal"
  | classUnclosed => "unclosed character class"
  | number => "decimal literal invalid"
  | hexDigit => "invalid hexadecimal digit"
  | hexCharacter => "hexadecimal literal is not a Unicode scalar value"
  | escapeEnd => "incomplete escape sequence, reached end of pattern prematurely"
  | escape => "unrecognized escape sequence"
  | flagDangling => "dangling flag negation operator"
  | flagTwice => "duplicate flag"
  | negationTwice => "flag negation operator repeated"
  | flagEnd => "expected flag but got end of regex"
  | flag => "unrecognized flag"
  | nameTwice => "duplicate capture group name"
  | nameEmpty => "empty capture group name"
  | name => "invalid capture group character"
  | nameEnd => "unclosed capture group name"
  | groupUnclosed => "unclosed group"
  | groupUnopened => "unopened group"
  | nesting =>
    "exceed the maximum number of nested parentheses/brackets (" ++ toString nestingLimit ++ ")"
  | countEmpty => "repetition quantifier expects a valid decimal"
  | countUnclosed => "unclosed counted repetition"
  | repetition => "repetition operator missing expression"
  | boundary =>
    "special word boundary assertion is either unclosed or contains an invalid character"
  | boundaryEnd => "found either the beginning of a special word boundary or a bounded repetition "
    ++ "on a \\b with an opening brace, but no closing brace"
  | property => "invalid Unicode character class"
  | backreference => "backreferences are not supported"
  | lookAround => "look-around, including look-ahead and look-behind, is not supported"
  | notByte => "Unicode not allowed here"
  | notText => "pattern can match invalid UTF-8"
  | unknownProperty => "Unicode property not found"
  | noShorthand => "Unicode-aware Perl class not found "
    ++ "(make sure the unicode-perl feature is enabled)"
  | noCaseFolding => "Unicode-aware case insensitivity matching is not available "
    ++ "(make sure the unicode-case feature is enabled)"

/-- A problem with a part of a pattern, and the earlier part that it repeats. -/
structure Error where
  problem : Problem
  span : Span
  earlier : Option Span := none
  deriving DecidableEq

def deny {α : Type} (problem : Problem) (span : Span) : Except Error α :=
  .error ⟨problem, span, none⟩

end WereraChess.Pattern
