import WereraChess.Json.Form
import WereraChess.Json.Printer
import WereraChess.Json.Reader
/-!
# Documents

Values written as text and read back by way of their JSON form.
-/

namespace WereraChess.JsonForm

def toText {α : Type} [JsonForm α] (a : α) : String := (write a).compact

/-- The value as a document with one line for each field. -/
def toLines {α : Type} [JsonForm α] (a : α) : String := (write a).spread

def ofText? {α : Type} [JsonForm α] (text : String) : Option α := (Json.ofText? text).bind read

/-- A document that has just been written is read from its characters. -/
theorem ofText?_toText {α : Type} [JsonForm α] (a : α) :
    (ofText? (toText a) : Option α) =
      ((Json.Token.scan? ((write a).tokens.flatMap Json.Token.chars)).bind Json.ofTokens?).bind
        read := by
  rw [ofText?, toText, Json.compact, Json.ofText?, String.toList_ofList]

end WereraChess.JsonForm
