import WereraChess.Text.Fields
import WereraChess.Text.Hex
/-!
# Identifiers

An identifier is a number of 128 bits. It is written as 32 small hexadecimal digits in groups of 8,
4, 4, 4 and 12, and read in either case, also without hyphens, in braces, or as a URN, whose name is
read in either case too.
-/

namespace WereraChess

structure Uuid where
  value : BitVec 128
  deriving DecidableEq

namespace Uuid

/-- The `n`-th identifier of a run that counts its identifiers; the fixed digits mark a version 4
identifier. -/
def numbered (n : Nat) : Uuid := ⟨BitVec.ofNat 80 0x40008000 ++ BitVec.ofNat 48 n⟩

def chars (id : Uuid) : List Char :=
  let digits := Text.hexDigits 32 id.value.toNat
  ['-'].intercalate [digits.take 8, (digits.drop 8).take 4, (digits.drop 12).take 4,
    (digits.drop 16).take 4, digits.drop 20]

def text (id : Uuid) : String := String.ofList id.chars

def ofDigits? (cs : List Char) : Option Uuid :=
  if cs.length = 32 then (Text.hex? cs).map fun n => ⟨BitVec.ofNat 128 n⟩ else none

def ofGroups? (cs : List Char) : Option Uuid :=
  let groups := Text.splitWhere (· = '-') cs
  if groups.map List.length = [8, 4, 4, 4, 12] then ofDigits? groups.flatten else none

def ofText? (s : String) : Option Uuid :=
  let cs := s.toList
  if cs.length = 32 then ofDigits? cs
  else if cs.length = 36 then ofGroups? cs
  else if cs.length = 38 ∧ cs.head? = some '\x7b' ∧ cs.getLast? = some '\x7d' then
    ofGroups? (cs.drop 1).dropLast
  else if cs.length = 45 ∧ (String.ofList (cs.take 9)).toLower = "urn:uuid:" then ofGroups? (cs.drop 9)
  else none

end Uuid

end WereraChess
