import WereraChess.Proofs.Fen.Reading
import WereraChess.Proofs.Kings
import WereraChess.Proofs.Reached
/-!
# Openings of reached sessions

A session opens with the setup of its variant or with a position that was read from a line. In both
no side has two kings, the game is in play, and it is in the werera only if the variant has one.
-/
namespace WereraChess

private theorem Board.hasLoneKings_initial (v : Variant) : (initial v).HasLoneKings := by
  rw [hasLoneKings_iff]
  cases v <;> decide +kernel

namespace Opening

structure Sound (v : Variant) (o : Opening) : Prop where
  kings : o.board.HasLoneKings
  phase : o.phase = .werera ∧ v.hasWerera = true ∨ o.phase = .normal

variable {v : Variant} {o : Opening}

theorem Sound.inPlay (h : o.Sound v) : o.phase = .werera ∨ o.phase = .normal :=
  h.phase.imp_left And.left

private theorem sound_initial (v : Variant) : (initial v).Sound v := by
  refine ⟨Board.hasLoneKings_initial v, ?_⟩
  cases v with
  | senterej => exact .inl ⟨rfl, rfl⟩
  | standard => exact .inr rfl

end Opening

namespace Session

variable {s s' : Session}

private theorem sound_ofFen {id : Uuid} {text : String} {v : Option Variant} {seats : Seats}
    (h : ofFen id text v seats = .ok s) : s.opening.Sound s.variant := by
  unfold ofFen at h
  split at h
  case h_1 => simp at h
  case h_2 f hf =>
    obtain ⟨hkings, hphase⟩ := Fen.sound_of_ofText hf
    split at h
    case h_1 =>
      obtain rfl := Except.ok.inj h
      refine ⟨hkings, hphase.imp_left fun hwerera => ⟨hwerera, ?_⟩⟩
      rw [start, Fen.variant, if_pos (.inr hwerera)]
      rfl
    case h_2 v =>
      obtain rfl := Except.ok.inj h
      refine ⟨hkings, ?_⟩
      rcases hphase with hwerera | hnormal
      · cases hv : v.hasWerera with
        | true => exact .inl ⟨by simp [start, hwerera], hv⟩
        | false => exact .inr (by simp [start, hwerera])
      · exact .inr (by simp [start, Opening.ofFen, hnormal])

theorem Reached.sound (hs : Reached s) : s.opening.Sound s.variant := by
  induction hs with
  | create id v => exact Opening.sound_initial v
  | host id v => exact Opening.sound_initial v
  | ofFen h => exact sound_ofFen h
  | @rematch s => exact Opening.sound_initial s.variant
  | agree _ _ ih => exact ih
  | join _ h ih =>
    rw [frame_join h]
    exact ih
  | submit _ h ih =>
    obtain ⟨-, -, -, -, -, -, -, -, -, -, -, rfl⟩ := submit_eq_ok.mp h
    exact ih
  | receive _ h ih =>
    obtain ⟨-, -, rfl⟩ := receive_eq_ok.mp h
    exact ih
  | resign _ h ih =>
    rw [frame_declare h]
    exact ih
  | timeOut _ h ih =>
    rw [frame_declare h]
    exact ih

end Session

end WereraChess
