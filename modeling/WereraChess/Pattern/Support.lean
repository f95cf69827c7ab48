import WereraChess.Pattern.Node
/-!
# Patterns that can be matched

Matching works without tables of Unicode, so that what needs one is refused: the shorthand classes,
properties, and letters without regard to case. While Unicode is turned off, bytes are matched, and
what could match a byte that is no character is refused. The first part in reading order that cannot
be matched is reported.
-/

namespace WereraChess.Pattern

/-- The flags on which it depends what can be matched. -/
structure Mode where
  caseless : Bool := false
  unicode : Bool := true

namespace Mode

def set (m : Mode) (row : FlagRow) : Mode :=
  ⟨(row.state? .caseless).getD m.caseless, (row.state? .unicode).getD m.unicode⟩

/-- A negated class takes in all other bytes. -/
def checkNegation (m : Mode) (span : Span) (negated : Bool) : Except Error Unit :=
  if !m.unicode && negated then deny .notText span else .ok ()

def checkShorthand (m : Mode) (span : Span) (negated : Bool) : Except Error Unit :=
  if m.unicode then deny .noShorthand span else m.checkNegation span negated

def checkProperty (m : Mode) (span : Span) : Except Error Unit :=
  deny (if m.unicode then .unknownProperty else .notByte) span

/-- While Unicode is on, the other case of a character is not known. -/
def checkFolding (m : Mode) (span : Span) : Except Error Unit :=
  if m.caseless && m.unicode then deny .noCaseFolding span else .ok ()

/-- A character that is written as a byte is one only within ASCII. -/
def checkByte (m : Mode) (l : Literal) : Except Error Unit :=
  if !m.unicode && l.isByte && 128 ≤ l.char.toNat then deny .notText l.span else .ok ()

/-- A member of a class, which is one byte if bytes are matched. -/
def checkMember (m : Mode) (l : Literal) : Except Error Unit := do
  m.checkByte l
  if !m.unicode && 128 ≤ l.char.toNat then deny .notByte l.span

def checkLiteral (m : Mode) (l : Literal) : Except Error Unit := do
  m.checkByte l
  m.checkFolding l.span

/-- Checks a leaf of a class, and tells whether it adds characters whose other case is still to be
added. -/
def checkClassLeaf (m : Mode) (span : Span) : Leaf → Except Error Bool
  | .literal l => do m.checkMember l; return true
  | .range low high => do m.checkMember low; m.checkMember high; return true
  | .named negated => do m.checkFolding span; m.checkNegation span negated; return false
  | .shorthand negated => do m.checkShorthand span negated; return false
  | .property => do m.checkProperty span; return false
  | _ => return false

mutual

/-- Checks a class or a part of one. A class, and each side of an operation, is taken without regard
to case as a whole. -/
def checkClass (m : Mode) : Node → Except Error Bool
  | .leaf span l => m.checkClassLeaf span l
  | .branch span (.bracketed negated) parts => do
    if (← m.checkClasses parts).contains true then m.checkFolding span
    m.checkNegation span negated
    return false
  | .branch _ .operation parts => do
    let folds ← m.checkClasses parts
    (parts.zip folds).reverse.forM fun (n, fold) => if fold then m.checkFolding n.span else .ok ()
    return false
  | .branch _ _ parts => return (← m.checkClasses parts).contains true

def checkClasses (m : Mode) : List Node → Except Error (List Bool)
  | [] => return []
  | n :: ns => return (← m.checkClass n) :: (← m.checkClasses ns)

end

end Mode

/-- What is known after a part has been checked: the mode for what follows, and whether the edges of
words in Unicode are matched. -/
structure Support where
  mode : Mode := {}
  wordEdges : Bool := false

namespace Support

def checkLeaf (s : Support) (span : Span) : Leaf → Except Error Support
  | .flags row => .ok { s with mode := s.mode.set row }
  | .literal l => do s.mode.checkLiteral l; return s
  | .anything => do s.mode.checkNegation span true; return s
  | .wordEdge => .ok { s with wordEdges := s.wordEdges || s.mode.unicode }
  | .shorthand negated => do s.mode.checkShorthand span negated; return s
  | .property => do s.mode.checkProperty span; return s
  | _ => .ok s

mutual

/-- Checks a node; the flags within a group hold up to its end. -/
def check (s : Support) : Node → Except Error Support
  | .leaf span l => s.checkLeaf span l
  | .branch span (.bracketed negated) parts => do
    let _ ← s.mode.checkClass (.branch span (.bracketed negated) parts)
    return s
  | .branch _ (.group row) parts => do
    let inner ← checkAll { s with mode := s.mode.set row } parts
    return { inner with mode := s.mode }
  | .branch _ _ parts => s.checkAll parts

def checkAll (s : Support) : List Node → Except Error Support
  | [] => .ok s
  | n :: ns => do (← s.check n).checkAll ns

end

end Support

end WereraChess.Pattern
