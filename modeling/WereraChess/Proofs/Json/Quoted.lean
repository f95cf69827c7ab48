import WereraChess.Json.Quoted
/-!
# Quoted strings are read back

A character is written as it is, with a backslash before one letter, or as a code unit. Each of these
is one part of the written string, and joined the parts are the string again.
-/
namespace WereraChess.Json.Quoted

inductive Shape (c : Char) : List Char → Prop
  | plain (hquote : c ≠ '"') (hslash : c ≠ '\\') (hprint : 0x20 ≤ c.toNat) : Shape c [c]
  | letter {e : Char} (h : unescape? e = some c) (hprint : 0x20 ≤ e.toNat) : Shape c ['\\', e]
  | unit (h : c.toNat < 0x20) :
      Shape c ['\\', 'u', '0', '0', Text.hexDigit (c.toNat / 16), Text.hexDigit (c.toNat % 16)]

theorem shape_escape (c : Char) : Shape c (escape c) := by
  unfold escape
  split
  case isTrue h => subst h; exact .letter rfl (by decide)
  case isFalse hquote =>
    split
    case isTrue h => subst h; exact .letter rfl (by decide)
    case isFalse hslash =>
      split
      case isTrue h => subst h; exact .letter rfl (by decide)
      split
      case isTrue h => subst h; exact .letter rfl (by decide)
      split
      case isTrue h => subst h; exact .letter rfl (by decide)
      split
      case isTrue h => subst h; exact .letter rfl (by decide)
      split
      case isTrue h => subst h; exact .letter rfl (by decide)
      split
      case isTrue h => exact .unit h
      case isFalse hprint => exact .plain hquote hslash (Nat.le_of_not_lt hprint)

private theorem hex?_control : ∀ n < 0x20,
    Text.hex? ['0', '0', Text.hexDigit (n / 16), Text.hexDigit (n % 16)] = some n := by decide

private theorem exists_part (c : Char) : ∃ p,
    (∀ cs, parts? (escape c ++ cs) = (parts? cs).map (p :: ·)) ∧
      ∀ ps, join? (p :: ps) = (join? ps).map (c :: ·) := by
  have hchar (ps : List CodePart) : join? (.char c :: ps) = (join? ps).map (c :: ·) := by
    rw [join?]
    cases join? ps <;> rfl
  have hshape := shape_escape c
  generalize escape c = written at hshape ⊢
  cases hshape with
  | plain hquote hslash hprint =>
    refine ⟨.char c, ?_, hchar⟩
    intro cs
    have hread : ¬ (c = '\\' ∨ c.toNat < 0x20) := by
      rw [not_or, Nat.not_lt]
      exact ⟨hslash, hprint⟩
    rw [List.singleton_append, parts?, if_neg hread]
    · cases parts? cs <;> rfl
    · exact fun a b d e cs' h _ => hslash h
    · exact fun e cs' h _ => hslash h
  | @letter e h hprint =>
    refine ⟨.char c, ?_, hchar⟩
    intro cs
    have he : e ≠ 'u' := by
      rintro rfl
      simp [unescape?] at h
    change parts? ('\\' :: e :: cs) = _
    rw [parts?, h]
    · cases parts? cs <;> rfl
    · exact fun a b c d cs' h _ => he h
  | unit h =>
    refine ⟨.unit c.toNat, ?_, ?_⟩
    · intro cs
      change parts? ('\\' :: 'u' :: '0' :: '0' :: _ :: _ :: cs) = _
      rw [parts?, hex?_control c.toNat h]
      cases parts? cs <;> rfl
    · intro ps
      have hhigh : isHighSurrogate c.toNat = false := by
        simp only [isHighSurrogate, decide_eq_false_iff_not]
        omega
      have hlow : isLowSurrogate c.toNat = false := by
        simp only [isLowSurrogate, decide_eq_false_iff_not]
        omega
      have hstep : join? (.unit c.toNat :: ps) =
          (join? ps).bind fun cs => some (Char.ofNat c.toNat :: cs) := by
        cases ps with
        | nil => simp only [join?, hhigh, hlow]; rfl
        | cons p ps =>
          cases p with
          | char d => simp only [join?, hhigh, hlow]; rfl
          | unit n => simp only [join?, hhigh, hlow]; rfl
      rw [hstep, Char.ofNat_toNat]
      cases join? ps <;> rfl

private theorem exists_parts (cs : List Char) :
    ∃ ps, parts? (cs.flatMap escape) = some ps ∧ join? ps = some cs := by
  induction cs with
  | nil => exact ⟨[], rfl, rfl⟩
  | cons c cs ih =>
    obtain ⟨ps, hparts, hjoin⟩ := ih
    obtain ⟨p, hread, hstands⟩ := exists_part c
    refine ⟨p :: ps, ?_, ?_⟩
    · rw [List.flatMap_cons, hread, hparts, Option.map_some]
    · rw [hstands, hjoin, Option.map_some]

/-- What is written between the quotes is read back. -/
theorem ofBody?_body (q : Quoted) : ofBody? q.body = some q := by
  cases q with
  | text s =>
    obtain ⟨ps, hparts, hjoin⟩ := exists_parts s.toList
    rw [body, ofBody?, hparts, Option.map_some, hjoin]
    exact congrArg (some ∘ text) String.ofList_toList
  | unpaired => rfl

private theorem le_of_mem_escape (d : Char) : ∀ c ∈ escape d, 0x20 ≤ c.toNat := by
  have hshape := shape_escape d
  generalize escape d = written at hshape ⊢
  cases hshape with
  | plain hquote hslash hprint => exact List.forall_mem_singleton.mpr hprint
  | letter h hprint =>
    exact List.forall_mem_cons.mpr ⟨by decide, List.forall_mem_singleton.mpr hprint⟩
  | unit h =>
    have hdigit : ∀ n < 16, 0x20 ≤ (Text.hexDigit n).toNat := by decide
    have hhigh := hdigit (d.toNat / 16) (by omega)
    have hlow := hdigit (d.toNat % 16) (by omega)
    simp only [List.forall_mem_cons]
    exact ⟨by decide, by decide, by decide, by decide, hhigh, hlow, nofun⟩

theorem le_of_mem_body (q : Quoted) : ∀ c ∈ q.body, 0x20 ≤ c.toNat := by
  cases q with
  | text s =>
    intro c hc
    obtain ⟨d, -, hd⟩ := List.mem_flatMap.mp hc
    exact le_of_mem_escape d c hd
  | unpaired =>
    have hall : (body .unpaired).all (fun c => 0x20 ≤ c.toNat) = true := by decide
    simpa only [List.all_eq_true, decide_eq_true_eq] using hall

end WereraChess.Json.Quoted
