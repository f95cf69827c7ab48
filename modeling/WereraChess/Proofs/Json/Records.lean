import WereraChess.Json.Records
import WereraChess.Proofs.Json.Forms
import WereraChess.Proofs.Rows
/-!
# Messages lose nothing

The names of sides, kinds and the like are read back out of their lists, an identifier from its groups
of digits, and every record from its fields. So a message arrives as it was sent.
-/
namespace WereraChess

open JsonForm Json

instance : LawfulJsonForm Side where
  plain s := .str (.text s.name)
  read_write s := by cases s <;> rfl

instance : NonNullForm Side where
  write_ne_null _ := Json.noConfusion

instance : LawfulJsonForm Variant where
  plain v := .str (.text v.name)
  read_write v := by cases v <;> rfl

instance : LawfulJsonForm Kind where
  plain k := .str (.text k.name)
  read_write k := by cases k <;> rfl

instance : NonNullForm Kind where
  write_ne_null _ := Json.noConfusion

instance : LawfulJsonForm EndReason where
  plain r := .str (.text r.name)
  read_write r := by cases r <;> rfl

instance : LawfulJsonForm Phase where
  plain
    | .complete reason => plain_record (List.forall_mem_singleton.mpr (LawfulJsonForm.plain reason))
    | .werera => .str (.text _)
    | .normal => .str (.text _)
  read_write
    | .complete reason => by
      change (read (write reason)).map Phase.complete = _
      rw [LawfulJsonForm.read_write, Option.map_some]
    | .werera => rfl
    | .normal => rfl

namespace Text

private theorem length_hexDigits (count n : Nat) : (hexDigits count n).length = count := by
  induction count generalizing n with
  | zero => rfl
  | succ count ih => rw [hexDigits, List.length_append, ih, List.length_singleton]

private theorem not_mem_hexDigits (count n : Nat) : '-' ∉ hexDigits count n := by
  have hdigit : ∀ n < 16, hexDigit n ≠ '-' := by decide
  induction count generalizing n with
  | zero => exact List.not_mem_nil
  | succ count ih =>
    rw [hexDigits, List.mem_append, List.mem_singleton, not_or]
    exact ⟨ih (n / 16), (hdigit (n % 16) (by omega)).symm⟩

end Text

namespace Uuid

private theorem ofDigits?_hexDigits (id : Uuid) :
    ofDigits? (Text.hexDigits 32 id.value.toNat) = some id := by
  have hlt : id.value.toNat < Nat.pow 16 32 := id.value.isLt
  rw [ofDigits?, if_pos (Text.length_hexDigits _ _), Text.hex?_hexDigits, Nat.mod_eq_of_lt hlt,
    Option.map_some, BitVec.ofNat_toNat, BitVec.setWidth_eq]

def groups (digits : List Char) : List (List Char) :=
  [digits.take 8, (digits.drop 8).take 4, (digits.drop 12).take 4, (digits.drop 16).take 4,
    digits.drop 20]

variable {digits : List Char}

private theorem map_length_groups (h : digits.length = 32) :
    (groups digits).map List.length = [8, 4, 4, 4, 12] := by
  simp [groups, h]

private theorem length_intercalate_groups (h : digits.length = 32) :
    (['-'].intercalate (groups digits)).length = 36 := by
  simp [groups, List.intercalate, h]

private theorem flatten_groups (digits : List Char) : (groups digits).flatten = digits := by
  have hcut (n k : Nat) : (digits.drop n).take k ++ digits.drop (n + k) = digits.drop n := by
    rw [← List.drop_drop, List.take_append_drop]
  simp only [groups, List.flatten_cons, List.flatten_nil, List.append_nil]
  rw [hcut 16 4, hcut 12 4, hcut 8 4, List.take_append_drop]

private theorem sublist_of_mem_groups {group : List Char} (h : group ∈ groups digits) :
    group.Sublist digits := by
  rw [← flatten_groups digits]
  exact List.sublist_flatten_of_mem h

private theorem ofGroups?_intercalate (h : digits.length = 32) (hdash : '-' ∉ digits) :
    ofGroups? (['-'].intercalate (groups digits)) = ofDigits? digits := by
  have hsplit : Text.splitWhere (· = '-') (['-'].intercalate (groups digits)) = groups digits := by
    apply Text.splitWhere_intercalate (List.cons_ne_nil _ _)
    intro group hgroup hmem
    exact hdash ((sublist_of_mem_groups hgroup).subset hmem)
  rw [ofGroups?, hsplit, if_pos (map_length_groups h), flatten_groups]

theorem ofText?_text (id : Uuid) : ofText? id.text = some id := by
  have hchars : id.chars = ['-'].intercalate (groups (Text.hexDigits 32 id.value.toNat)) := rfl
  have hlength := Text.length_hexDigits 32 id.value.toNat
  have hall : id.chars.length = 36 := by
    rw [hchars, length_intercalate_groups hlength]
  have hread : ofGroups? id.chars = some id := by
    rw [hchars, ofGroups?_intercalate hlength (Text.not_mem_hexDigits _ _), ofDigits?_hexDigits]
  rw [text, ofText?, String.toList_ofList, if_neg (by omega), if_pos hall, hread]

end Uuid

instance : LawfulJsonForm Uuid where
  plain id := .str (.text id.text)
  read_write id := id.ofText?_text

instance : LawfulJsonForm Coord where
  plain c := plain_record (by simp [LawfulJsonForm.plain])
  read_write c := read_record rfl (by decide) (by simp)

instance : LawfulJsonForm Piece where
  plain p := plain_record (by simp [LawfulJsonForm.plain])
  read_write p := read_record rfl (by decide) (by simp)

instance : NonNullForm Piece where
  write_ne_null _ := Json.noConfusion

private theorem Board.map_length_rows (b : Board) :
    b.rows.map List.length = List.replicate 8 8 := by
  apply List.eq_replicate_iff.mpr
  constructor
  · rw [List.length_map, length_rows]
  · intro n hn
    obtain ⟨row, hrow, rfl⟩ := List.mem_map.mp hn
    exact length_of_mem_rows hrow

instance : LawfulJsonForm Board where
  plain b := plain_record (by simp [LawfulJsonForm.plain])
  read_write b := read_record rfl (by decide) (by simp [Board.map_length_rows])

instance : LawfulJsonForm Ending where
  plain e := plain_record (by simp [LawfulJsonForm.plain])
  read_write e := read_record rfl (by decide) (by simp)

instance : NonNullForm Ending where
  write_ne_null _ := Json.noConfusion

instance : LawfulJsonForm HouseRules where
  plain r := plain_record (by simp [LawfulJsonForm.plain])
  read_write r := read_record rfl (by decide) (by simp)

instance : LawfulJsonForm Move where
  plain m := plain_record (by simp [LawfulJsonForm.plain])
  read_write m := read_record rfl (by decide) (by simp)

instance : LawfulJsonForm MoveLog where
  plain log := plain_record (by simp [LawfulJsonForm.plain])
  read_write log := read_record rfl (by decide) (by simp)

instance : LawfulJsonForm Opening where
  plain o := plain_record (by simp [LawfulJsonForm.plain])
  read_write o := read_record rfl (by decide) (by simp)

instance : LawfulJsonForm Participant where
  plain p := plain_record (by simp [LawfulJsonForm.plain])
  read_write p := read_record rfl (by decide) (by simp)

instance : NonNullForm Participant where
  write_ne_null _ := Json.noConfusion

instance : LawfulJsonForm Seats where
  plain s := plain_record (by simp [LawfulJsonForm.plain])
  read_write s := read_record rfl (by decide) (by simp)

instance : LawfulJsonForm Session where
  plain s := plain_record (by simp [LawfulJsonForm.plain])
  read_write s := read_record rfl (by decide) (by simp)

namespace Message

private theorem plain_fields (m : Message) : ∀ f ∈ m.fields, f.2.Plain := by
  cases m <;> simp [fields, LawfulJsonForm.plain]

private theorem ofFields?_fields (m : Message) : ofFields? m.tag (.record m.fields) = some m := by
  cases m with
  | _ =>
    simp only [tag, fields, ofFields?]
    exact read_record rfl (by decide) (by simp)

end Message

instance : LawfulJsonForm Message where
  plain m := plain_record (List.forall_mem_singleton.mpr (plain_record m.plain_fields))
  read_write m := m.ofFields?_fields

/-- A message arrives as it was sent. -/
theorem JsonForm.message_ofText?_toText (m : Message) : ofText? (toText m) = some m :=
  ofText?_toText_of_lawful m

end WereraChess
