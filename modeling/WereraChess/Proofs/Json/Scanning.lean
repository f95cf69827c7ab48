import Mathlib.Data.List.Basic
import Mathlib.Data.List.TakeWhile
import WereraChess.Json.Printer
import WereraChess.Proofs.Json.Quoted
import WereraChess.Proofs.Text
/-!
# Written tokens are scanned

A string is closed by its quote and a bracket, brace, comma or colon by itself. A number or word ends
where such a mark begins or the text ends, and in the tokens of a value nothing else follows it. So
the tokens of a value whose numbers are integers are scanned from their characters.
-/
namespace WereraChess.Json

inductive Plain : Json → Prop
  | null : Plain .null
  | bool (b : Bool) : Plain (.bool b)
  | int (n : Int) : Plain (.int n)
  | str (q : Quoted) : Plain (.str q)
  | arr {items : List Json} (h : ∀ j ∈ items, Plain j) : Plain (.arr items)
  | obj {members : List (Quoted × Json)} (h : ∀ m ∈ members, Plain m.2) : Plain (.obj members)

namespace Token

variable {ts us vs : List Token} {t : Token}

private theorem scan_escape (c : Char) (seen : List Char) (ts : List Token) :
    (Quoted.escape c).foldlM Scan.next? ⟨.string seen, ts⟩ =
      some ⟨.string ((Quoted.escape c).reverse ++ seen), ts⟩ := by
  have hshape := Quoted.shape_escape c
  generalize Quoted.escape c = written at hshape ⊢
  cases hshape with
  | plain hquote hslash hprint => simp [Scan.next?, hquote, hslash]
  | letter h hprint => simp [Scan.next?]
  | unit h =>
    have hdigit : ∀ n < 16, Text.hexDigit n ≠ '"' ∧ Text.hexDigit n ≠ '\\' := by decide
    have hhigh := hdigit (c.toNat / 16) (by omega)
    have hlow := hdigit (c.toNat % 16) (by omega)
    simp [Scan.next?, hhigh, hlow]

private theorem scan_body (q : Quoted) (ts : List Token) :
    q.body.foldlM Scan.next? ⟨.string [], ts⟩ = some ⟨.string q.body.reverse, ts⟩ := by
  cases q with
  | text s =>
    have hchars (cs seen : List Char) : (cs.flatMap Quoted.escape).foldlM Scan.next? ⟨.string seen, ts⟩ =
        some ⟨.string ((cs.flatMap Quoted.escape).reverse ++ seen), ts⟩ := by
      induction cs generalizing seen with
      | nil => rfl
      | cons c cs ih =>
        rw [List.flatMap_cons, List.foldlM_append, scan_escape, Option.bind_eq_bind, Option.bind_some,
          ih, List.reverse_append, List.append_assoc]
    have hbody := hchars s.toList []
    rwa [List.append_nil] at hbody
  | unpaired => rfl

private theorem scan_chars (q : Quoted) (ts : List Token) :
    q.chars.foldlM Scan.next? ⟨.between, ts⟩ = some ⟨.between, .str q :: ts⟩ := by
  have hclose : Scan.next? ⟨.string q.body.reverse, ts⟩ '"' = some ⟨.between, .str q :: ts⟩ := by
    simp [Scan.next?, Quoted.ofBody?_body]
  have hopen : Scan.next? ⟨.between, ts⟩ '"' = some ⟨.string [], ts⟩ := rfl
  rw [Quoted.chars, List.cons_append, List.foldlM_cons, hopen, Option.bind_eq_bind, Option.bind_some,
    List.foldlM_append, scan_body, Option.bind_eq_bind, Option.bind_some, List.foldlM_cons, hclose]
  rfl

/-- Between two tokens the tokens are scanned from their characters, and no word or number is left
open. -/
def Closed (us : List Token) : Prop :=
  ∀ ts, (us.flatMap chars).foldlM Scan.next? ⟨.between, ts⟩ = some ⟨.between, us.reverse ++ ts⟩

/-- Between two tokens the tokens are scanned from their characters, if the text ends there. -/
def Legible (us : List Token) : Prop :=
  ∀ ts, ∃ s, (us.flatMap chars).foldlM Scan.next? ⟨.between, ts⟩ = some s ∧
    s.flush? = some (us.reverse ++ ts)

private theorem Closed.legible (h : Closed us) : Legible us := fun ts => ⟨_, h ts, rfl⟩

private theorem closed_nil : Closed [] := fun _ => rfl

private theorem closed_str (q : Quoted) : Closed [.str q] := by
  intro ts
  rw [List.flatMap_singleton]
  exact scan_chars q ts

private theorem Closed.append_legible (hus : Closed us) (hvs : Legible vs) :
    Legible (us ++ vs) := by
  intro ts
  obtain ⟨s, hs, hflush⟩ := hvs (us.reverse ++ ts)
  refine ⟨s, ?_, ?_⟩
  · rw [List.flatMap_append, List.foldlM_append, hus ts, Option.bind_eq_bind, Option.bind_some, hs]
  · rw [hflush, List.reverse_append, List.append_assoc]

/-- The token is one character that begins no other token and belongs to none. -/
def IsMark (t : Token) : Prop :=
  ∃ c, t.chars = [c] ∧ c.isLower = false ∧ isNumberChar c = false ∧
    ∀ ts, Scan.begin? ts c = some ⟨.between, t :: ts⟩

private theorem isMark_openArray : IsMark .openArray := ⟨_, rfl, rfl, rfl, fun _ => rfl⟩

private theorem isMark_closeArray : IsMark .closeArray := ⟨_, rfl, rfl, rfl, fun _ => rfl⟩

private theorem isMark_openObject : IsMark .openObject := ⟨_, rfl, rfl, rfl, fun _ => rfl⟩

private theorem isMark_closeObject : IsMark .closeObject := ⟨_, rfl, rfl, rfl, fun _ => rfl⟩

private theorem isMark_comma : IsMark .comma := ⟨_, rfl, rfl, rfl, fun _ => rfl⟩

private theorem isMark_colon : IsMark .colon := ⟨_, rfl, rfl, rfl, fun _ => rfl⟩

private theorem Legible.append_mark (hus : Legible us) (ht : t.IsMark) : Closed (us ++ [t]) := by
  intro ts
  obtain ⟨s, hs, hflush⟩ := hus ts
  obtain ⟨c, hchars, hlower, hnumber, hbegin⟩ := ht
  have hnext : s.next? c = some ⟨.between, t :: (us.reverse ++ ts)⟩ := by
    obtain ⟨mode, tokens⟩ := s
    cases mode with
    | between =>
      obtain rfl := Option.some.inj hflush
      exact hbegin _
    | word seen => simp only [Scan.next?, hlower, hflush, Bool.false_eq_true, if_false,
        Option.bind_some, hbegin]
    | number seen => simp only [Scan.next?, hnumber, hflush, Bool.false_eq_true, if_false,
        Option.bind_some, hbegin]
    | string seen => simp [Scan.flush?] at hflush
    | escape seen => simp [Scan.flush?] at hflush
  rw [List.flatMap_append, List.foldlM_append, hs, Option.bind_eq_bind, Option.bind_some,
    List.flatMap_singleton, hchars, List.foldlM_cons, hnext, List.reverse_append]
  rfl

private theorem closed_mark (ht : t.IsMark) : Closed [t] := closed_nil.legible.append_mark ht

private theorem begin?_number {c : Char} (h : c.isDigit = true ∨ c = '-') (ts : List Token) :
    Scan.begin? ts c = some ⟨.number [c], ts⟩ := by
  rcases h with h | rfl
  · have hne (d : Char) (hd : d.isDigit = false) : c ≠ d := by
      rintro rfl
      rw [h] at hd
      exact absurd hd Bool.noConfusion
    simp [Scan.begin?, isSpace, h, hne ' ' rfl, hne '\t' rfl, hne '\n' rfl, hne '\r' rfl, hne '[' rfl,
      hne ']' rfl, hne '\x7b' rfl, hne '\x7d' rfl, hne ',' rfl, hne ':' rfl, hne '"' rfl]
  · rfl

private theorem scan_number {cs : List Char} (h : ∀ c ∈ cs, isNumberChar c = true)
    (seen : List Char) (ts : List Token) :
    cs.foldlM Scan.next? ⟨.number seen, ts⟩ = some ⟨.number (cs.reverse ++ seen), ts⟩ := by
  induction cs generalizing seen with
  | nil => rfl
  | cons c cs ih =>
    obtain ⟨hc, hcs⟩ := List.forall_mem_cons.mp h
    have hnext : Scan.next? ⟨.number seen, ts⟩ c = some ⟨.number (c :: seen), ts⟩ := if_pos hc
    rw [List.foldlM_cons, hnext, Option.bind_eq_bind, Option.bind_some, ih hcs, List.reverse_cons,
      List.append_assoc]
    rfl

private theorem legible_number {j : Json} {c : Char} {cs : List Char} (hj : scalarChars j = c :: cs)
    (hc : c.isDigit = true ∨ c = '-') (hcs : ∀ d ∈ cs, d.isDigit = true)
    (hread : number? (c :: cs) = some j) : Legible [.scalar j] := by
  intro ts
  have hnumber (d : Char) (hd : d ∈ cs) : isNumberChar d = true := by
    simp [isNumberChar, hcs d hd]
  have hbegin : Scan.next? ⟨.between, ts⟩ c = some ⟨.number [c], ts⟩ := begin?_number hc ts
  refine ⟨⟨.number (cs.reverse ++ [c]), ts⟩, ?_, ?_⟩
  · rw [List.flatMap_singleton, chars, hj, List.foldlM_cons, hbegin, Option.bind_eq_bind,
      Option.bind_some, scan_number hnumber]
  · simp [Scan.flush?, hread]

private theorem digits?_of_forall {cs : List Char} (hne : cs ≠ [])
    (h : ∀ c ∈ cs, c.isDigit = true) : digits? cs = some (cs, []) := by
  rw [digits?, List.takeWhile_eq_self_iff.mpr h, List.dropWhile_eq_nil_iff.mpr h, if_neg hne]

private theorem digits?_toDigits (n : Nat) :
    digits? (Nat.toDigits 10 n) = some (Nat.toDigits 10 n, []) :=
  digits?_of_forall Nat.toDigits_ne_nil fun _ hc => Text.isDigit_of_mem_decimal hc

private theorem number?_toDigits (n : Nat) : number? (Nat.toDigits 10 n) = some (.int n) := by
  have hsign : (Nat.toDigits 10 n).head? ≠ some '-' := by
    intro h
    exact absurd (Text.isDigit_of_mem_decimal (List.mem_of_mem_head? h)) (by decide)
  have hzero : ¬ ((Nat.toDigits 10 n).head? = some '0' ∧ Nat.toDigits 10 n ≠ ['0']) := by
    rintro ⟨h, hne⟩
    rw [Text.eq_zero_of_head?_toDigits h] at hne
    exact hne rfl
  have hvalue : Nat.ofDigitChars 10 (Nat.toDigits 10 n) 0 = n :=
    Nat.ofDigitChars_toDigits (by decide) (by decide)
  simp [number?, hsign, digits?_toDigits, hzero, skipFraction?, skipExponent?, hvalue]

private theorem number?_neg_toDigits {n : Nat} (hn : n ≠ 0) :
    number? ('-' :: Nat.toDigits 10 n) = some (.int (-n)) := by
  have hhead : (Nat.toDigits 10 n).head? ≠ some '0' := fun h => hn (Text.eq_zero_of_head?_toDigits h)
  have hzero : Nat.toDigits 10 n ≠ ['0'] := by
    intro h
    rw [h] at hhead
    exact hhead rfl
  have hvalue : Nat.ofDigitChars 10 (Nat.toDigits 10 n) 0 = n :=
    Nat.ofDigitChars_toDigits (by decide) (by decide)
  simp [number?, digits?_toDigits, hzero, hhead, skipFraction?, skipExponent?, hvalue]

private theorem legible_int (n : Int) : Legible [.scalar (.int n)] := by
  cases n with
  | ofNat n =>
    have hall : ∀ c ∈ Nat.toDigits 10 n, c.isDigit = true := fun _ hc => Text.isDigit_of_mem_decimal hc
    have hread := number?_toDigits n
    obtain ⟨c, cs, hchars⟩ := List.exists_cons_of_ne_nil (Nat.toDigits_ne_nil (b := 10) (n := n))
    rw [hchars] at hall hread
    obtain ⟨hc, hcs⟩ := List.forall_mem_cons.mp hall
    exact legible_number hchars (.inl hc) hcs hread
  | negSucc n =>
    exact legible_number rfl (.inr rfl) (fun _ hc => Text.isDigit_of_mem_decimal hc)
      (number?_neg_toDigits (Nat.succ_ne_zero n))

private theorem legible_null : Legible [.scalar .null] :=
  fun ts => ⟨⟨.word ['l', 'l', 'u', 'n'], ts⟩, rfl, rfl⟩

private theorem legible_bool (b : Bool) : Legible [.scalar (.bool b)] := by
  intro ts
  cases b with
  | true => exact ⟨⟨.word ['e', 'u', 'r', 't'], ts⟩, rfl, rfl⟩
  | false => exact ⟨⟨.word ['e', 's', 'l', 'a', 'f'], ts⟩, rfl, rfl⟩

private theorem Closed.append_mark (hus : Closed us) (ht : t.IsMark) : Closed (us ++ [t]) :=
  hus.legible.append_mark ht

private theorem legible_itemTokens {items : List Json} (h : ∀ j ∈ items, Legible j.tokens) :
    Legible (itemTokens items) := by
  induction items with
  | nil => exact closed_nil.legible
  | cons j js ih =>
    obtain ⟨hj, hjs⟩ := List.forall_mem_cons.mp h
    cases js with
    | nil => exact hj
    | cons i is =>
      have hmark := (hj.append_mark isMark_comma).append_legible (ih hjs)
      rwa [List.append_assoc] at hmark

private theorem legible_memberTokens {members : List (Quoted × Json)}
    (h : ∀ m ∈ members, Legible m.2.tokens) : Legible (memberTokens members) := by
  induction members with
  | nil => exact closed_nil.legible
  | cons m ms ih =>
    obtain ⟨q, j⟩ := m
    obtain ⟨hj, hms⟩ := List.forall_mem_cons.mp h
    have hmember : Legible ([.str q] ++ [.colon] ++ j.tokens) :=
      ((closed_str q).append_mark isMark_colon).append_legible hj
    cases ms with
    | nil => exact hmember
    | cons i is =>
      have hmark := (hmember.append_mark isMark_comma).append_legible (ih hms)
      rwa [List.append_assoc] at hmark

private theorem legible_tokens {j : Json} (h : j.Plain) : Legible j.tokens := by
  induction h with
  | null => exact legible_null
  | bool b => exact legible_bool b
  | int n => exact legible_int n
  | str q => exact (closed_str q).legible
  | arr _ ih =>
    have hitems := (closed_mark isMark_openArray).append_legible (legible_itemTokens ih)
    exact (hitems.append_mark isMark_closeArray).legible
  | obj _ ih =>
    have hmembers := (closed_mark isMark_openObject).append_legible (legible_memberTokens ih)
    exact (hmembers.append_mark isMark_closeObject).legible

/-- The tokens of a value are scanned from their characters. -/
theorem scan?_tokens {j : Json} (h : j.Plain) : scan? (j.tokens.flatMap chars) = some j.tokens := by
  obtain ⟨s, hs, hflush⟩ := legible_tokens h []
  rw [scan?, hs, Option.bind_some, hflush, List.append_nil, Option.map_some, List.reverse_reverse]

/-- The token is written without control characters. -/
def Printable (t : Token) : Prop := ∀ c ∈ t.chars, 0x20 ≤ c.toNat

instance : DecidablePred Printable := fun t => List.decidableBAll (0x20 ≤ Char.toNat ·) t.chars

private theorem printable_str (q : Quoted) : Printable (.str q) := by
  intro c hc
  rcases List.mem_append.mp hc with hc | hc
  · rcases List.mem_cons.mp hc with rfl | hc
    · decide
    · exact q.le_of_mem_body c hc
  · obtain rfl := List.mem_singleton.mp hc
    decide

private theorem printable_int (n : Int) : Printable (.scalar (.int n)) := by
  have hdigits (k : Nat) : ∀ c ∈ Nat.toDigits 10 k, 0x20 ≤ c.toNat := by
    intro c hc
    have hdigit := Text.isDigit_iff.mp (Text.isDigit_of_mem_decimal hc)
    omega
  cases n with
  | ofNat n => exact hdigits n
  | negSucc n => exact List.forall_mem_cons.mpr ⟨by decide, hdigits (n + 1)⟩

private theorem printable_itemTokens {items : List Json}
    (h : ∀ j ∈ items, ∀ t ∈ j.tokens, t.Printable) : ∀ t ∈ itemTokens items, t.Printable := by
  induction items with
  | nil => exact fun t ht => absurd ht List.not_mem_nil
  | cons j js ih =>
    obtain ⟨hj, hjs⟩ := List.forall_mem_cons.mp h
    cases js with
    | nil => exact hj
    | cons i is =>
      have hcomma : Printable .comma := by decide
      exact List.forall_mem_append.mpr ⟨hj, List.forall_mem_cons.mpr ⟨hcomma, ih hjs⟩⟩

private theorem printable_memberTokens {members : List (Quoted × Json)}
    (h : ∀ m ∈ members, ∀ t ∈ m.2.tokens, t.Printable) :
    ∀ t ∈ memberTokens members, t.Printable := by
  induction members with
  | nil => exact fun t ht => absurd ht List.not_mem_nil
  | cons m ms ih =>
    obtain ⟨q, j⟩ := m
    obtain ⟨hj, hms⟩ := List.forall_mem_cons.mp h
    have hcolon : Printable .colon := by decide
    have hmember : ∀ t ∈ Token.str q :: .colon :: j.tokens, t.Printable :=
      List.forall_mem_cons.mpr ⟨printable_str q, List.forall_mem_cons.mpr ⟨hcolon, hj⟩⟩
    cases ms with
    | nil => exact hmember
    | cons i is =>
      have hcomma : Printable .comma := by decide
      exact List.forall_mem_append.mpr ⟨hmember, List.forall_mem_cons.mpr ⟨hcomma, ih hms⟩⟩

private theorem printable_tokens {j : Json} (h : j.Plain) : ∀ t ∈ j.tokens, t.Printable := by
  induction h with
  | null => exact List.forall_mem_singleton.mpr (by decide)
  | bool b => exact List.forall_mem_singleton.mpr (by cases b <;> decide)
  | int n => exact List.forall_mem_singleton.mpr (printable_int n)
  | str q => exact List.forall_mem_singleton.mpr (printable_str q)
  | arr _ ih =>
    have hopen : Printable .openArray := by decide
    have hclose : Printable .closeArray := by decide
    exact List.forall_mem_append.mpr ⟨List.forall_mem_cons.mpr ⟨hopen, printable_itemTokens ih⟩,
      List.forall_mem_singleton.mpr hclose⟩
  | obj _ ih =>
    have hopen : Printable .openObject := by decide
    have hclose : Printable .closeObject := by decide
    exact List.forall_mem_append.mpr ⟨List.forall_mem_cons.mpr ⟨hopen, printable_memberTokens ih⟩,
      List.forall_mem_singleton.mpr hclose⟩

end Token

theorem le_of_mem_compact {j : Json} (h : j.Plain) {c : Char} (hc : c ∈ j.compact.toList) :
    0x20 ≤ c.toNat := by
  rw [compact, String.toList_ofList] at hc
  obtain ⟨t, ht, hc⟩ := List.mem_flatMap.mp hc
  exact Token.printable_tokens h t ht c hc

end WereraChess.Json
