import WereraChess.Side
import WereraChess.Variant
/-!
# Pieces

The two variants name the same six kinds of piece differently. Names of both are read; each variant
writes its own.
-/

namespace WereraChess

inductive Kind where
  | king
  | minister
  | elephant
  | knight
  | rook
  | pawn
  deriving DecidableEq

namespace Kind

def all : List Kind := [king, minister, elephant, knight, rook, pawn]

def ordinal : Kind → Nat
  | king => 0
  | minister => 1
  | elephant => 2
  | knight => 3
  | rook => 4
  | pawn => 5

theorem ordinal_injective {k l : Kind} (h : k.ordinal = l.ordinal) : k = l := by
  cases k <;> cases l <;> simp_all [ordinal]

/-- The name of the kind in the words of a variant. -/
def localName : Kind → Variant → String
  | king, .senterej => "negus"
  | minister, .senterej => "fers"
  | elephant, .senterej => "saba"
  | knight, .senterej => "ferese"
  | rook, .senterej => "der"
  | pawn, .senterej => "medeq"
  | king, .standard => "king"
  | minister, .standard => "queen"
  | elephant, .standard => "bishop"
  | knight, .standard => "knight"
  | rook, .standard => "rook"
  | pawn, .standard => "pawn"

/-- The name of the kind in records, which is the same in both variants. -/
def name : Kind → String
  | king => "king"
  | minister => "minister"
  | elephant => "elephant"
  | knight => "knight"
  | rook => "rook"
  | pawn => "pawn"

/-- Reads a name of either variant or of records. -/
def ofName : String → Except UnknownName Kind :=
  Vocabulary.kind.find <|
    all.map (fun k => (k.localName .senterej, k)) ++ all.map (fun k => (k.localName .standard, k))
      ++ all.map (fun k => (k.name, k))

/-- Material value in pawns. The short-range pieces of Senterej are worth less than their standard
cousins, and a king counts nothing. -/
def value : Kind → Variant → Int
  | king, _ => 0
  | pawn, _ => 1
  | knight, _ => 3
  | rook, _ => 5
  | minister, .standard => 9
  | elephant, .standard => 3
  | minister, .senterej => 2
  | elephant, .senterej => 2

end Kind

structure Piece where
  kind : Kind
  owner : Side
  hasMoved : Bool
  deriving DecidableEq

def Piece.fresh (kind : Kind) (owner : Side) : Piece := ⟨kind, owner, false⟩

end WereraChess
