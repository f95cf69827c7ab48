import WereraChess.Json.Form
import WereraChess.Proofs.Json.Reading
import WereraChess.Proofs.Results
/-!
# Forms that lose nothing

A form is lawful if every value is read back from it. Optional values and lists have lawful forms if
what they hold has one, and a record is read back if each of its fields is read back from the slot
that it was written to.
-/
namespace WereraChess

open JsonForm

/-- Every value is read back from its form, in which all numbers are integers. -/
class LawfulJsonForm (α : Type) [JsonForm α] : Prop where
  plain (a : α) : (write a).Plain
  read_write (a : α) : read (write a) = some a

/-- No value is written as `null`, so that it can be told from an empty optional value. -/
class NonNullForm (α : Type) [JsonForm α] : Prop where
  write_ne_null (a : α) : write a ≠ .null

namespace Json

private theorem readNatBelow_natCast {bound n : Nat} (h : n < bound) :
    readNatBelow bound (.int (n : Int)) = some n := if_pos h

end Json

namespace JsonForm

instance : LawfulJsonForm Bool where
  plain b := .bool b
  read_write _ := rfl

instance : LawfulJsonForm String where
  plain s := .str (.text s)
  read_write _ := rfl

instance : LawfulJsonForm UInt8 where
  plain n := .int n.toNat
  read_write n := by
    change (Json.readNatBelow UInt8.size (.int (n.toNat : Int))).map Nat.toUInt8 = some n
    rw [Json.readNatBelow_natCast n.toNat_lt_size, Option.map_some]
    exact congrArg some UInt8.ofNat_toNat

instance : LawfulJsonForm UInt32 where
  plain n := .int n.toNat
  read_write n := by
    change (Json.readNatBelow UInt32.size (.int (n.toNat : Int))).map Nat.toUInt32 = some n
    rw [Json.readNatBelow_natCast n.toNat_lt_size, Option.map_some]
    exact congrArg some UInt32.ofNat_toNat

instance : LawfulJsonForm UInt64 where
  plain n := .int n.toNat
  read_write n := by
    change (Json.readNatBelow UInt64.size (.int (n.toNat : Int))).map Nat.toUInt64 = some n
    rw [Json.readNatBelow_natCast n.toNat_lt_size, Option.map_some]
    exact congrArg some UInt64.ofNat_toNat

variable {α : Type} [JsonForm α]

private theorem read_option_of_ne_null {j : Json} (h : j ≠ .null) :
    (read j : Option (Option α)) = (read j).map some := by
  cases j with
  | null => exact absurd rfl h
  | _ => rfl

variable [LawfulJsonForm α]

instance [NonNullForm α] : LawfulJsonForm (Option α) where
  plain
    | some a => LawfulJsonForm.plain a
    | none => .null
  read_write o := by
    cases o with
    | none => rfl
    | some a =>
      change (read (write a) : Option (Option α)) = some (some a)
      rw [read_option_of_ne_null (NonNullForm.write_ne_null a), LawfulJsonForm.read_write,
        Option.map_some]

instance : LawfulJsonForm (List α) where
  plain l := by
    apply Json.Plain.arr
    intro j hj
    obtain ⟨a, -, rfl⟩ := List.mem_map.mp hj
    exact LawfulJsonForm.plain a
  read_write l := by
    change (l.map write).mapM read = some l
    rw [List.mapM_map]
    exact (mapM_eq_pure fun a _ => LawfulJsonForm.read_write a).trans
      (congrArg some (List.map_id l))

/-- What is written as a document is read back from it. -/
theorem ofText?_toText_of_lawful (a : α) : ofText? (toText a) = some a := by
  rw [ofText?, toText, Json.ofText?_compact (LawfulJsonForm.plain a), Option.bind_some,
    LawfulJsonForm.read_write]

end JsonForm

namespace Json

variable {members : List (String × Json)} {names : List String}

theorem plain_record (h : ∀ m ∈ members, m.2.Plain) : (record members).Plain := by
  apply Plain.obj
  intro m hm
  obtain ⟨n, hn, rfl⟩ := List.mem_map.mp hm
  exact h n hn

private theorem filter_name_eq_singleton {m : String × Json} (hnodup : (members.map Prod.fst).Nodup)
    (hm : m ∈ members) : members.filter (·.1 = m.1) = [m] := by
  induction members with
  | nil => exact absurd hm List.not_mem_nil
  | cons n ns ih =>
    rw [List.map_cons, List.nodup_cons] at hnodup
    obtain ⟨hfresh, hnodup⟩ := hnodup
    rcases List.mem_cons.mp hm with rfl | hm
    · rw [List.filter_cons_of_pos (by simp), List.filter_eq_nil_iff.mpr]
      intro n hn
      simpa using fun h : n.1 = m.1 => hfresh (h ▸ List.mem_map_of_mem hn)
    · have hne : n.1 ≠ m.1 := fun h => hfresh (h ▸ List.mem_map_of_mem hm)
      rw [List.filter_cons_of_neg (by simpa using hne), ih hnodup hm]

private theorem slots?_record (hnames : members.map Prod.fst = names) (hnodup : names.Nodup) :
    (record members).slots? names = some (members.map fun m => (m.1, .given m.2)) := by
  subst hnames
  have hnamed : (members.map fun m => (Quoted.text m.1, m.2)).mapM
      (fun m => m.1.text?.map (·, m.2)) = some members := by
    rw [List.mapM_map]
    exact (mapM_eq_pure fun m _ => rfl).trans (congrArg some (List.map_id members))
  have hslots : (members.map Prod.fst).mapM (fun name => (slotOf? members name).map (name, ·)) =
      some (members.map fun m => (m.1, .given m.2)) := by
    rw [List.mapM_map]
    apply mapM_eq_pure
    intro m hm
    rw [Function.comp_apply, slotOf?, filter_name_eq_singleton hnodup hm]
    rfl
  rw [record, slots?, hnamed]
  exact hslots

theorem read_record {α : Type} {a : α} {read : Slots → Option α}
    (hnames : members.map Prod.fst = names) (hnodup : names.Nodup)
    (hread : read (members.map fun m => (m.1, .given m.2)) = some a) :
    ((record members).slots? names).bind read = some a := by
  rw [slots?_record hnames hnodup, Option.bind_some, hread]

namespace Slots

variable {α : Type} [JsonForm α] {slots : Slots} {name other : String} {slot : Slot}

@[simp] theorem required_cons_self [LawfulJsonForm α] (a : α) :
    required ((name, .given (write a)) :: slots) name = some a := by
  rw [required, List.lookup_cons_self]
  exact LawfulJsonForm.read_write a

@[simp] theorem required_cons_of_ne (h : name ≠ other) :
    required (α := α) ((other, slot) :: slots) name = required slots name := by
  rw [required, required, List.lookup_cons, beq_false_of_ne h]

@[simp] theorem defaulted_cons_self [LawfulJsonForm α] (a default : α) :
    defaulted ((name, .given (write a)) :: slots) name default = some a := by
  rw [defaulted, List.lookup_cons_self]
  exact LawfulJsonForm.read_write a

@[simp] theorem defaulted_cons_of_ne (h : name ≠ other) (default : α) :
    defaulted ((other, slot) :: slots) name default = defaulted slots name default := by
  rw [defaulted, defaulted, List.lookup_cons, beq_false_of_ne h]

private theorem optional_cons_given (j : Json) :
    optional ((name, .given j) :: slots) name = (read j : Option (Option α)) := by
  rw [optional, List.lookup_cons_self]
  cases j <;> rfl

@[simp] theorem optional_cons_self [LawfulJsonForm α] [NonNullForm α] (o : Option α) :
    optional ((name, .given (write o)) :: slots) name = some o := by
  rw [optional_cons_given, LawfulJsonForm.read_write]

@[simp] theorem optional_cons_of_ne (h : name ≠ other) :
    optional (α := α) ((other, slot) :: slots) name = optional slots name := by
  rw [optional, optional, List.lookup_cons, beq_false_of_ne h]

end Slots

end Json

end WereraChess
