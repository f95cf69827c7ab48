/-!
# Cutting by bytes

Places in a text that are given by the number of bytes before them, in UTF-8. A text can be cut at
such a place only if no character lies across it.
-/

namespace WereraChess.Text

def byteSize : List Char → Nat
  | [] => 0
  | c :: cs => c.utf8Size + byteSize cs

def takeBytes? : Nat → List Char → Option (List Char)
  | 0, _ => some []
  | _ + 1, [] => none
  | n + 1, c :: cs =>
    if c.utf8Size ≤ n + 1 then (takeBytes? (n + 1 - c.utf8Size) cs).map (c :: ·) else none

def dropBytes? : Nat → List Char → Option (List Char)
  | 0, cs => some cs
  | _ + 1, [] => none
  | n + 1, c :: cs => if c.utf8Size ≤ n + 1 then dropBytes? (n + 1 - c.utf8Size) cs else none

/-- The characters from the byte `first` to the byte `last`, which is not included. -/
def slice? (cs : List Char) (first last : Nat) : Option (List Char) :=
  (dropBytes? first cs).bind (takeBytes? (last - first))

private theorem takeBytes?_append (as bs : List Char) :
    takeBytes? (byteSize as) (as ++ bs) = some as := by
  induction as with
  | nil => simp [byteSize, takeBytes?]
  | cons c cs ih =>
    obtain ⟨n, hn⟩ : ∃ n, c.utf8Size + byteSize cs = n + 1 :=
      ⟨c.utf8Size + byteSize cs - 1, by have := c.utf8Size_pos; omega⟩
    have fits : c.utf8Size ≤ n + 1 := by omega
    have rest : n + 1 - c.utf8Size = byteSize cs := by omega
    simp [byteSize, hn, takeBytes?, fits, rest, ih]

private theorem dropBytes?_append (as bs : List Char) :
    dropBytes? (byteSize as) (as ++ bs) = some bs := by
  induction as with
  | nil => simp [byteSize, dropBytes?]
  | cons c cs ih =>
    obtain ⟨n, hn⟩ : ∃ n, c.utf8Size + byteSize cs = n + 1 :=
      ⟨c.utf8Size + byteSize cs - 1, by have := c.utf8Size_pos; omega⟩
    have fits : c.utf8Size ≤ n + 1 := by omega
    have rest : n + 1 - c.utf8Size = byteSize cs := by omega
    simp [byteSize, hn, dropBytes?, fits, rest, ih]

theorem slice?_append (as bs cs : List Char) :
    slice? (as ++ bs ++ cs) (byteSize as) (byteSize as + byteSize bs) = some bs := by
  rw [slice?, List.append_assoc, dropBytes?_append, Option.bind_some, Nat.add_sub_cancel_left,
    takeBytes?_append]

end WereraChess.Text
