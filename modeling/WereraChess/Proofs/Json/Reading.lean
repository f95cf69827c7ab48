import WereraChess.Json.Document
import WereraChess.Proofs.Json.Scanning
/-!
# Written documents are read back

The tokens of a value take a reader that expects a value to one that holds it, whatever is still open
around it.
-/
namespace WereraChess.Json

namespace Reader

/-- The tokens take a reader that expects a value past the value. -/
def Takes (ts : List Token) (j : Json) : Prop :=
  ∀ b fs, ts.foldlM next? ⟨.value b, fs⟩ = some ⟨.separator j, fs⟩

private theorem next?_itemTokens {items : List Json} (hne : items ≠ [])
    (h : ∀ j ∈ items, Takes j.tokens j) (b : Bool) (before : List Json) (fs : List Frame) :
    (itemTokens items ++ [Token.closeArray]).foldlM next? ⟨.value b, .items before :: fs⟩ =
      some ⟨.separator (.arr (before.reverse ++ items)), fs⟩ := by
  induction items generalizing b before with
  | nil => exact absurd rfl hne
  | cons j js ih =>
    obtain ⟨hj, hjs⟩ := List.forall_mem_cons.mp h
    cases js with
    | nil =>
      change (j.tokens ++ _).foldlM next? _ = _
      rw [List.foldlM_append, hj, ← List.reverse_cons]
      rfl
    | cons i is =>
      change ((j.tokens ++ Token.comma :: itemTokens (i :: is)) ++ [Token.closeArray]).foldlM next? _ = _
      rw [List.append_assoc, List.foldlM_append, hj]
      refine (ih (List.cons_ne_nil i is) hjs false (j :: before)).trans ?_
      rw [List.reverse_cons, List.append_assoc]
      rfl

private theorem next?_memberTokens {members : List (Quoted × Json)} (hne : members ≠ [])
    (h : ∀ m ∈ members, Takes m.2.tokens m.2) (b : Bool) (before : List (Quoted × Json))
    (fs : List Frame) :
    (memberTokens members ++ [Token.closeObject]).foldlM next? ⟨.name before b, fs⟩ =
      some ⟨.separator (.obj (before.reverse ++ members)), fs⟩ := by
  induction members generalizing b before with
  | nil => exact absurd rfl hne
  | cons m ms ih =>
    obtain ⟨q, j⟩ := m
    obtain ⟨hj, hms⟩ := List.forall_mem_cons.mp h
    have hname (ts : List Token) : (Token.str q :: .colon :: ts).foldlM next? ⟨.name before b, fs⟩ =
        ts.foldlM next? ⟨.value false, .members before q :: fs⟩ := rfl
    cases ms with
    | nil =>
      change (Token.str q :: .colon :: (j.tokens ++ [.closeObject])).foldlM next? _ = _
      rw [hname, List.foldlM_append, hj, ← List.reverse_cons]
      rfl
    | cons i is =>
      change (Token.str q :: .colon :: ((j.tokens ++ Token.comma :: memberTokens (i :: is)) ++
        [.closeObject])).foldlM next? _ = _
      rw [hname, List.append_assoc, List.foldlM_append, hj]
      refine (ih (List.cons_ne_nil i is) hms false ((q, j) :: before)).trans ?_
      rw [List.reverse_cons, List.append_assoc]
      rfl

private theorem takes_tokens {j : Json} (h : j.Plain) : Takes j.tokens j := by
  induction h with
  | null => exact fun _ _ => rfl
  | bool b => exact fun _ _ => rfl
  | int n => exact fun _ _ => rfl
  | str q => exact fun _ _ => rfl
  | @arr items _ ih =>
    intro b fs
    cases items with
    | nil => rfl
    | cons j js => exact next?_itemTokens (List.cons_ne_nil j js) ih true [] fs
  | @obj members _ ih =>
    intro b fs
    cases members with
    | nil => rfl
    | cons m ms => exact next?_memberTokens (List.cons_ne_nil m ms) ih true [] fs

end Reader

/-- A document whose numbers are integers is read back from its compact form. -/
theorem ofText?_compact {j : Json} (h : j.Plain) : ofText? j.compact = some j := by
  rw [ofText?, compact, String.toList_ofList, Token.scan?_tokens h, Option.bind_some, ofTokens?]
  change (j.tokens.foldlM Reader.next? ⟨.value false, []⟩).bind Reader.result? = _
  rw [Reader.takes_tokens h]
  rfl

end WereraChess.Json
