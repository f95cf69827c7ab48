/-!
# Names read from text

Sides, variants, kinds and alphabets are named by words of small tables. A word is looked up
without regard to ASCII case; the error keeps the text as it was given.
-/

namespace WereraChess

/-- What a word was expected to name. -/
inductive Vocabulary where
  | side
  | variant
  | kind
  | alphabet
  deriving DecidableEq

def Vocabulary.noun : Vocabulary → String
  | .side => "player"
  | .variant => "variant"
  | .kind => "piece"
  | .alphabet => "notation"

/-- A word that its vocabulary does not hold. -/
structure UnknownName where
  vocabulary : Vocabulary
  text : String
  deriving DecidableEq

def UnknownName.message (e : UnknownName) : String :=
  "unknown " ++ e.vocabulary.noun ++ " '" ++ e.text ++ "'"

/-- The entry of `table` under `text`, ASCII letters compared without case. -/
def Vocabulary.find {α : Type} (v : Vocabulary) (table : List (String × α)) (text : String) :
    Except UnknownName α :=
  match table.lookup text.toLower with
  | some a => .ok a
  | none => .error ⟨v, text⟩

end WereraChess
