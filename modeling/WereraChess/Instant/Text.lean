import WereraChess.Instant
import WereraChess.Text.Fields
/-!
# Instants in text

Instants are written in the form of RFC 3339, in universal time and with as many groups of three
fraction digits as they need. They are read in a wider form: any offset, fields without leading
zeros, blanks between the fields, and a blank in place of the letter T.
-/

namespace WereraChess.Instant

def padded (width n : Nat) : List Char :=
  let digits := Nat.toDigits 10 n
  List.replicate (width - digits.length) '0' ++ digits

/-- Years of more than four digits, and those before the year 0, have a sign. -/
def yearChars (year : Int) : List Char :=
  if 0 ≤ year ∧ year ≤ 9999 then padded 4 year.toNat
  else (if year < 0 then '-' else '+') :: padded 4 year.natAbs

/-- The fraction of a second in 0, 3, 6 or 9 digits. -/
def fractionChars (nanos : Nat) : List Char :=
  if nanos = 0 then []
  else if nanos % 1000000 = 0 then '.' :: padded 3 (nanos / 1000000)
  else if nanos % 1000 = 0 then '.' :: padded 6 (nanos / 1000)
  else '.' :: padded 9 nanos

def chars (t : Instant) : List Char :=
  let date := t.date
  let s := t.secondOfDay
  let leap := t.nanos / 1000000000
  yearChars date.year ++ '-' :: padded 2 date.month ++ '-' :: padded 2 date.day
    ++ 'T' :: padded 2 (s / 3600) ++ ':' :: padded 2 (s / 60 % 60) ++ ':' :: padded 2 (s % 60 + leap)
    ++ fractionChars (t.nanos % 1000000000) ++ ['Z']

def text (t : Instant) : String := String.ofList t.chars

/-! ## Reading -/

/-- A step of reading, which takes characters from the front. -/
abbrev Scan := StateT (List Char) Option

def skipBlanks : Scan Unit := modify (·.dropWhile Text.isBlank)

def take (p : Char → Bool) : Scan Char := do
  match ← get with
  | [] => failure
  | c :: cs => if p c then set cs; return c else failure

/-- Takes the digits at the front, at least one and at most `most`. -/
def digits (most : Nat) : Scan (List Char) := do
  let cs ← get
  let ds := (cs.take most).takeWhile Char.isDigit
  if ds = [] then failure
  set (cs.drop ds.length)
  return ds

def number (most : Nat) : Scan Nat := do return Nat.ofDigitChars 10 (← digits most) 0

/-- Takes a field of one or two digits after blanks. -/
def field : Scan Nat := do skipBlanks; number 2

/-- Takes a separator after blanks. -/
def separator (c : Char) : Scan Unit := do skipBlanks; let _ ← take (· = c)

/-- Takes a year of at most four digits, or of any number of digits behind a sign. -/
def year : Scan Int := do
  skipBlanks
  let cs ← get
  match cs with
  | '-' :: rest => set rest; return -(← number rest.length : Nat)
  | '+' :: rest => set rest; return (← number rest.length : Nat)
  | _ => return (← number 4 : Nat)

/-- Takes a fraction, if there is one, as nanoseconds. Digits after the ninth do not count. -/
def fraction : Scan Nat := do
  match ← get with
  | '.' :: rest =>
    set rest
    let ds ← digits 9
    modify (·.dropWhile Char.isDigit)
    return Nat.ofDigitChars 10 (ds ++ List.replicate (9 - ds.length) '0') 0
  | _ => return 0

def twoDigits : Scan Nat := do
  let a ← take Char.isDigit
  let b ← take Char.isDigit
  return Nat.ofDigitChars 10 [a, b] 0

/-- Takes an offset from universal time, in seconds: a letter Z, the name UTC, or hours and minutes
behind a sign. -/
def offset : Scan Int := do
  let cs ← get
  if (cs.take 3).map Char.toUpper = ['U', 'T', 'C'] then set (cs.drop 3); return 0
  match cs with
  | [] => failure
  | sign :: rest =>
    set rest
    if sign = 'Z' ∨ sign = 'z' then return 0
    if sign ≠ '+' ∧ sign ≠ '-' ∧ sign ≠ '\u2212' then failure
    let hours ← twoDigits
    modify (·.dropWhile fun c => c = ':' || Text.isBlank c)
    let minutes ← twoDigits
    if 60 ≤ minutes then failure
    let seconds : Int := 3600 * hours + 60 * minutes
    if 86400 ≤ seconds then failure
    return if sign = '+' then seconds else -seconds

def isYear (year : Int) : Bool := -262143 ≤ year && year ≤ 262142

def scan : Scan Instant := do
  let year ← year
  separator '-'
  let month ← field
  separator '-'
  let day ← field
  let _ ← take fun c => c = 't' || c = 'T' || c = ' '
  let hour ← field
  separator ':'
  let minute ← field
  separator ':'
  let second ← field
  let nanos ← fraction
  skipBlanks
  let offset ← offset
  skipBlanks
  let date : Date := ⟨year, month, day⟩
  if !isYear year || !date.isValid || 24 ≤ hour || 60 ≤ minute || 61 ≤ second then failure
  let leap := second / 60
  let civil := 86400 * date.toDays + (3600 * hour + 60 * minute + (second - leap) : Nat)
  let t : Instant := ⟨civil - offset, nanos + 1000000000 * leap⟩
  if isYear t.date.year then return t else failure

def ofText? (s : String) : Option Instant :=
  match scan.run s.toList with
  | some (t, []) => some t
  | _ => none

end WereraChess.Instant
