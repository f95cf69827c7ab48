/-!
# JSON values

Members keep their order, and a name may occur twice. Integers are the numbers written without
fraction and exponent; any other number is kept as it is written, since nothing here computes with
one.
-/

namespace WereraChess

namespace Json

/-- A string of a document. An escaped surrogate without its partner is allowed where nothing reads
the string; such a string denotes no text. -/
inductive Quoted where
  | text (s : String)
  | unpaired
  deriving DecidableEq

end Json

inductive Json where
  | null
  | bool (b : Bool)
  | int (n : Int)
  | real (lexeme : String)
  | str (q : Json.Quoted)
  | arr (items : List Json)
  | obj (members : List (Json.Quoted × Json))

namespace Json

def ofText (s : String) : Json := .str (.text s)

/-- An object whose member names are all text. -/
def record (members : List (String × Json)) : Json :=
  .obj (members.map fun (name, j) => (.text name, j))

end Json

end WereraChess
