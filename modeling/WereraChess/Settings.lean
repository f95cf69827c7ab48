import WereraChess.Instant.Text
import WereraChess.Json.Document
import WereraChess.Json.Records
/-!
# Settings

What a user has chosen once for all games. A settings document may leave out any of its fields.
-/

namespace WereraChess

/-- The variant is for games for which none is named, and the alphabet for positions that are
written. -/
structure Settings where
  rules : HouseRules := {}
  variant : Variant := .senterej
  alphabet : Alphabet := .shared
  logFilter : String := "warn"
  lastSaved : Option Instant := none
  deriving DecidableEq

instance : JsonForm Instant where
  write t := .ofText t.text
  read
    | .str (.text s) => Instant.ofText? s
    | _ => none

instance : JsonForm Settings where
  write s :=
    .record [("engine", JsonForm.write s.rules), ("default_variant", JsonForm.write s.variant),
      ("notation", JsonForm.write s.alphabet), ("log_filter", JsonForm.write s.logFilter),
      ("last_saved", JsonForm.write s.lastSaved)]
  read j := do
    let f ← j.slots? ["engine", "default_variant", "notation", "log_filter", "last_saved"]
    let usual : Settings := {}
    return {
      rules := ← f.defaulted "engine" usual.rules
      variant := ← f.defaulted "default_variant" usual.variant
      alphabet := ← f.defaulted "notation" usual.alphabet
      logFilter := ← f.defaulted "log_filter" usual.logFilter
      lastSaved := ← f.defaulted "last_saved" usual.lastSaved }

end WereraChess
