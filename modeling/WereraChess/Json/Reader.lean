import WereraChess.Json.Token
/-!
# Reading values from tokens

The reader takes one token at a time. It keeps the arrays and objects that are still open and what
may come next, so nesting costs no recursion.
-/

namespace WereraChess.Json

namespace Reader

/-- An open array or object, with what it holds so far, the last entry first. An open object has
read the name of the member whose value is being read. -/
inductive Frame where
  | items (before : List Json)
  | members (before : List (Quoted × Json)) (name : Quoted)

/-- What has to come next. Instead of a value or name it may be the end of what is still empty. A
separator is a comma, or the end of what is open. -/
inductive Expect where
  | value (orClose : Bool)
  | name (before : List (Quoted × Json)) (orClose : Bool)
  | colon (before : List (Quoted × Json)) (name : Quoted)
  | separator (j : Json)

end Reader

/-- A reader between two tokens; the innermost frame comes first. -/
structure Reader where
  expect : Reader.Expect
  frames : List Reader.Frame

namespace Reader

def start : Reader := ⟨.value false, []⟩

def next? (r : Reader) (t : Token) : Option Reader :=
  match r.expect, t, r.frames with
  | .value _, .scalar j, fs => some ⟨.separator j, fs⟩
  | .value _, .str q, fs => some ⟨.separator (.str q), fs⟩
  | .value _, .openArray, fs => some ⟨.value true, .items [] :: fs⟩
  | .value _, .openObject, fs => some ⟨.name [] true, fs⟩
  | .value true, .closeArray, .items _ :: fs => some ⟨.separator (.arr []), fs⟩
  | .name before _, .str q, fs => some ⟨.colon before q, fs⟩
  | .name _ true, .closeObject, fs => some ⟨.separator (.obj []), fs⟩
  | .colon before q, .colon, fs => some ⟨.value false, .members before q :: fs⟩
  | .separator j, .comma, .items before :: fs => some ⟨.value false, .items (j :: before) :: fs⟩
  | .separator j, .closeArray, .items before :: fs =>
    some ⟨.separator (.arr (j :: before).reverse), fs⟩
  | .separator j, .comma, .members before q :: fs => some ⟨.name ((q, j) :: before) false, fs⟩
  | .separator j, .closeObject, .members before q :: fs =>
    some ⟨.separator (.obj ((q, j) :: before).reverse), fs⟩
  | _, _, _ => none

def result? : Reader → Option Json
  | ⟨.separator j, []⟩ => some j
  | _ => none

end Reader

def ofTokens? (ts : List Token) : Option Json := (ts.foldlM Reader.next? Reader.start).bind Reader.result?

def ofText? (text : String) : Option Json := (Token.scan? text.toList).bind ofTokens?

end WereraChess.Json
