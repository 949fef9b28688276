import Mathlib.Data.Int.CardIntervalMod

/-! A cursor that goes round a circle of places. After any number of moves two
places have been visited equally often, up to one visit. -/
namespace RailYard.Library.RoundRobin

def ahead (places cursor place : Nat) : Nat := (place + (places - cursor)) % places

theorem ahead_lt (cursor place : Nat) (h : 0 < places) : ahead places cursor place < places :=
  Nat.mod_lt _ h

theorem ahead_eq (hcursor : cursor < places) (hplace : place < places) : ahead places cursor place =
      if cursor ≤ place then place - cursor else place + places - cursor := by
  unfold ahead
  split
  · rw [show place + (places - cursor) = place - cursor + places by omega, Nat.add_mod_right,
      Nat.mod_eq_of_lt (by omega)]
  · rw [Nat.mod_eq_of_lt (by omega)]
    omega

theorem next_eq (h : cursor < places) :
    (cursor + 1) % places = if cursor + 1 = places then 0 else cursor + 1 := by
  split
  · rename_i hlast
    rw [hlast, Nat.mod_self]
  · exact Nat.mod_eq_of_lt (by omega)

theorem ahead_next (hcursor : cursor < places) (hplace : place < places) :
    ahead places ((cursor + 1) % places) place =
      if cursor = place then places - 1 else ahead places cursor place - 1 := by
  have hnext : (cursor + 1) % places < places := Nat.mod_lt _ (by omega)
  rw [ahead_eq hnext hplace, ahead_eq hcursor hplace, next_eq hcursor]
  split_ifs <;> omega

theorem ahead_eq_zero (hcursor : cursor < places) (hplace : place < places) :
    ahead places cursor place = 0 ↔ cursor = place := by
  rw [ahead_eq hcursor hplace]
  split <;> omega

def turns (places start moves place : Nat) : Nat :=
  Nat.count (fun move => (start + move) % places = place) moves

@[simp] theorem turns_zero (places start place : Nat) : turns places start 0 place = 0 :=
  Nat.count_zero _

theorem turns_succ (places start moves place : Nat) : turns places start (moves + 1) place =
    turns places start moves place + if (start + moves) % places = place then 1 else 0 :=
  Nat.count_succ _ _

theorem visits_iff {start : Nat} (h : place < places) : (start + move) % places = place ↔
      move ≡ place + (places - start % places) [MOD places] := by
  have hstart : start % places < places := Nat.mod_lt _ (by omega)
  have hwhole : start % places + (places - start % places) = places := by omega
  have hleft : (start + move) % places = place ↔ start % places + move ≡ place [MOD places] := by
    rw [← Nat.mod_add_mod]
    unfold Nat.ModEq
    rw [Nat.mod_eq_of_lt h]
  rw [hleft]
  constructor
  · intro hmod
    have hadd := hmod.add_right (places - start % places)
    rw [show start % places + move + (places - start % places) = move + places by omega] at hadd
    exact ((Nat.ModEq.refl move).trans (Nat.add_mod_right move places).symm).trans hadd
  · intro hmod
    have hadd := hmod.add_left (start % places)
    rw [show start % places + (place + (places - start % places)) = place + places by omega]
      at hadd
    exact hadd.trans (Nat.add_mod_right place places)

theorem turns_eq {start : Nat} (h : place < places) :
    turns places start moves place = moves / places +
      if (place + (places - start % places)) % places < moves % places then 1 else 0 := by
  rw [← Nat.count_modEq_card moves (by omega : 0 < places)]
  simp only [turns, visits_iff h]

theorem turns_le (start moves : Nat) (h : place < places) (hother : other < places) :
    turns places start moves place ≤ turns places start moves other + 1 := by
  rw [turns_eq h, turns_eq hother]
  split_ifs <;> omega

end RailYard.Library.RoundRobin
