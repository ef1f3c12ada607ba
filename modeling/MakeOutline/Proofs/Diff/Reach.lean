import MakeOutline.Diff.Search
import Mathlib.Tactic.Basic

/-! # How far a search comes

A search from a corner of a grid makes one round after another; in round `d` it enters the diagonals
`d`, `d - 2` and so on down to `-d`, each one from a neighbour that the round before has reached,
and moves along it as far as tokens agree. `entered` and `reached` say where it enters a diagonal
and where it leaves off, without the array in which the distances are kept.

A search makes progress (`le_two_mul_entered`): by round `d` it has dropped or added `d` tokens. It
may also leave the grid, but not from one round to the next. Outside, the tokens no longer agree, so
a search that is one step past an edge was at the edge the round before (`Climb.exists_earlier`). As
long as no diagonal near the far corner has reached an edge, the search enters these diagonals
within the grid (`Unmet.entered_inside`). -/

namespace MakeOutline

/-! ## Rounds -/

/-- Where round `d` enters the diagonal `k`, given the distances that are kept from before. -/
def enterFrom (kept : Int → Nat) (d k : Int) : Nat :=
  if k = -d ∨ (k ≠ d ∧ kept (k - 1) < kept (k + 1)) then kept (k + 1) else kept (k - 1) + 1

/-- The distance on the diagonal `k` after a number of rounds, the last of which came to it. -/
def reached (agree : Nat → Nat → Nat) : Nat → Int → Nat
  | 0, _ => 0
  | d + 1, k =>
    let x := enterFrom (reached agree d) d k
    x + agree x (x - k).toNat

/-- The distance at which round `d` enters the diagonal `k`. -/
def entered (agree : Nat → Nat → Nat) (d : Nat) (k : Int) : Nat :=
  enterFrom (reached agree d) d k

theorem reached_succ (agree : Nat → Nat → Nat) (d : Nat) (k : Int) :
    reached agree (d + 1) k =
      entered agree d k + agree (entered agree d k) (entered agree d k - k).toNat := rfl

/-- The diagonals of round `d`. -/
def OnRound (d : Nat) (k : Int) : Prop := -d ≤ k ∧ k ≤ d ∧ (d - k) % 2 = 0

section

variable (agree : Nat → Nat → Nat) {d : Nat} {k : Int}

theorem entered_le_reached (d : Nat) (k : Int) : entered agree d k ≤ reached agree (d + 1) k :=
  Nat.le_add_right _ _

/-- Round `d + 1` enters a diagonal from one of its neighbours, with one token dropped or added. -/
theorem entered_cases (h : OnRound (d + 1) k) :
    (OnRound d (k + 1) ∧ entered agree (d + 1) k = reached agree (d + 1) (k + 1)) ∨
      (OnRound d (k - 1) ∧ entered agree (d + 1) k = reached agree (d + 1) (k - 1) + 1) := by
  unfold OnRound at *
  unfold entered enterFrom
  split
  · exact Or.inl ⟨by omega, rfl⟩
  · exact Or.inr ⟨by omega, rfl⟩

/-- The neighbour that reaches further is taken, here the one above. -/
theorem reached_above_le_entered (h : OnRound d (k + 1)) :
    reached agree (d + 1) (k + 1) ≤ entered agree (d + 1) k := by
  unfold OnRound at h
  unfold entered enterFrom
  split <;> omega

/-- The neighbour that reaches further is taken, here the one below. -/
theorem reached_below_lt_entered (h : OnRound d (k - 1)) :
    reached agree (d + 1) (k - 1) < entered agree (d + 1) k := by
  unfold OnRound at h
  unfold entered enterFrom
  split <;> omega

/-- **A search makes progress:** by round `d` it has taken `d` tokens off one side alone. -/
theorem le_two_mul_entered (h : OnRound d k) : d + k ≤ 2 * (entered agree d k : Int) := by
  induction d generalizing k with
  | zero =>
      unfold OnRound at h
      omega
  | succ d ih =>
      rcases entered_cases agree h with ⟨hk, heq⟩ | ⟨hk, heq⟩
      · have hprogress := ih hk
        have hle := entered_le_reached agree d (k + 1)
        omega
      · have hprogress := ih hk
        have hle := entered_le_reached agree d (k - 1)
        omega

/-- A search enters no diagonal in front of its first point. -/
theorem le_entered (h : OnRound d k) : k ≤ entered agree d k := by
  have hprogress := le_two_mul_entered agree h
  unfold OnRound at h
  omega

end

/-! ## Past an edge -/

/-- Distances `z d s` after round `d` on a family of diagonals, numbered by `s` so that each keeps
its number from round to round. A distance past the limit comes from the same diagonal, where it was
one less, or from the next one, where it was the same; and each is at least that of the next one in
the round before. -/
structure Climb (limit : Int) (valid : Nat → Int → Prop) (z : Nat → Int → Int) : Prop where
  /-- No search starts past the limit. -/
  start_le : ∀ s, valid 0 s → z 0 s ≤ limit
  /-- Where a distance past the limit comes from. -/
  step : ∀ d s, valid (d + 1) s → limit < z (d + 1) s →
    (valid d s ∧ z (d + 1) s = z d s + 1) ∨ (valid d (s + 2) ∧ z (d + 1) s = z d (s + 2))
  /-- The next diagonal does not get ahead. -/
  mono : ∀ d s, valid d (s + 2) → valid (d + 1) s ∧ z d (s + 2) ≤ z (d + 1) s

/-- **A distance past the limit was at the limit before,** as many rounds ago as it is past it. -/
theorem Climb.exists_earlier {limit : Int} {valid : Nat → Int → Prop} {z : Nat → Int → Int}
    (h : Climb limit valid z) {d a : Nat} {s : Int} (hvalid : valid d s)
    (hz : limit + a + 1 ≤ z d s) : ∃ e, d = e + a + 1 ∧ valid e s ∧ limit ≤ z e s := by
  induction d generalizing s a with
  | zero =>
      have hstart := h.start_le s hvalid
      omega
  | succ d ih =>
      rcases h.step d s hvalid (by omega) with ⟨hsame, heq⟩ | ⟨hnext, heq⟩
      · cases a with
        | zero => exact ⟨d, rfl, hsame, by omega⟩
        | succ a =>
            obtain ⟨e, rfl, hearlier⟩ := ih (a := a) hsame (by omega)
            exact ⟨e, by omega, hearlier⟩
      · -- one round later, what the next diagonal was at has come to this one
        obtain ⟨e, rfl, hearlier, hlimit⟩ := ih (a := a) hnext (by omega)
        obtain ⟨hlater, hle⟩ := h.mono e s hearlier
        exact ⟨e + 1, by omega, hlater, by omega⟩

/-- Tokens agree within a grid of `n` by `m` only. -/
structure Bounded (agree : Nat → Nat → Nat) (n m : Nat) : Prop where
  /-- No further than to the end of the old side. -/
  old_le : ∀ x y, agree x y ≤ n - x
  /-- No further than to the end of the new side. -/
  new_le : ∀ x y, agree x y ≤ m - y

namespace Bounded

variable {agree : Nat → Nat → Nat} {n m d : Nat} {k : Int} (hb : Bounded agree n m)
include hb

/-- Past the end of the old side nothing is moved along. -/
theorem reached_eq_entered_of_old_lt (h : n < reached agree (d + 1) k) :
    reached agree (d + 1) k = entered agree d k := by
  have hle := hb.old_le (entered agree d k) (entered agree d k - k).toNat
  rw [reached_succ] at h ⊢
  omega

/-- Past the end of the new side nothing is moved along. -/
theorem reached_eq_entered_of_new_lt (hk : OnRound d k) (h : m < reached agree (d + 1) k - k) :
    reached agree (d + 1) k = entered agree d k := by
  have hle := hb.new_le (entered agree d k) (entered agree d k - k).toNat
  have hentered := le_entered agree hk
  rw [reached_succ] at h ⊢
  omega

/-- Above the far corner, the distances into the old stretch climb. -/
theorem climb_old : Climb n (fun d s => OnRound d (d + s))
    (fun d s => reached agree (d + 1) (d + s)) := by
  refine ⟨fun s hs => ?_, fun d s hs hlt => ?_, fun d s hs => ?_⟩
  · obtain rfl : s = 0 := by
      unfold OnRound at hs
      omega
    have hle := hb.old_le 0 0
    have hreached : reached agree (0 + 1) (((0 : Nat) : Int) + 0) = 0 + agree 0 0 := rfl
    rw [hreached]
    omega
  · have heq := hb.reached_eq_entered_of_old_lt (by exact_mod_cast hlt)
    rcases entered_cases agree hs with ⟨hk, hcases⟩ | ⟨hk, hcases⟩
    · have hindex : ((d + 1 : Nat) : Int) + s + 1 = d + (s + 2) := by omega
      rw [hindex] at hk hcases
      exact Or.inr ⟨hk, by omega⟩
    · have hindex : ((d + 1 : Nat) : Int) + s - 1 = d + s := by omega
      rw [hindex] at hk hcases
      exact Or.inl ⟨hk, by omega⟩
  · have hindex : (d : Int) + (s + 2) = ((d + 1 : Nat) : Int) + s + 1 := by omega
    rw [hindex] at hs ⊢
    have hle := reached_above_le_entered agree hs
    have hreached := entered_le_reached agree (d + 1) (((d + 1 : Nat) : Int) + s)
    refine ⟨?_, by omega⟩
    unfold OnRound at *
    omega

/-- Below the far corner, the distances into the new stretch climb. -/
theorem climb_new : Climb m (fun d s => OnRound d (-(d + s)))
    (fun d s => reached agree (d + 1) (-(d + s)) + (d + s)) := by
  refine ⟨fun s hs => ?_, fun d s hs hlt => ?_, fun d s hs => ?_⟩
  · obtain rfl : s = 0 := by
      unfold OnRound at hs
      omega
    have hle := hb.new_le 0 0
    have hreached : reached agree (0 + 1) (-(((0 : Nat) : Int) + 0)) = 0 + agree 0 0 := rfl
    rw [hreached]
    omega
  · have heq := hb.reached_eq_entered_of_new_lt hs (by omega)
    rcases entered_cases agree hs with ⟨hk, hcases⟩ | ⟨hk, hcases⟩
    · have hindex : -(((d + 1 : Nat) : Int) + s) + 1 = -(d + s) := by omega
      rw [hindex] at hk hcases
      exact Or.inl ⟨hk, by omega⟩
    · have hindex : -(((d + 1 : Nat) : Int) + s) - 1 = -(d + (s + 2)) := by omega
      rw [hindex] at hk hcases
      exact Or.inr ⟨hk, by omega⟩
  · have hindex : -((d : Int) + (s + 2)) = -(((d + 1 : Nat) : Int) + s) - 1 := by omega
    rw [hindex] at hs ⊢
    have hlt := reached_below_lt_entered agree hs
    have hreached := entered_le_reached agree (d + 1) (-(((d + 1 : Nat) : Int) + s))
    refine ⟨?_, by omega⟩
    unfold OnRound at *
    omega

end Bounded

/-! ## Near the far corner -/

/-- The diagonals on which round `d` looks for the other search: those at most `d - c` away from the
diagonal of the far corner. -/
def Near (n m c d : Nat) (k : Int) : Prop := (k - (n - m)).natAbs + c ≤ d

/-- In the rounds before `d`, a search has not reached an edge on the diagonals on which it looks
for the other one. -/
def Unmet (agree : Nat → Nat → Nat) (n m c d : Nat) : Prop :=
  ∀ e < d, ∀ k, OnRound e k → Near n m c e k →
    reached agree (e + 1) k < n ∧ reached agree (e + 1) k - k < m

namespace Unmet

variable {agree : Nat → Nat → Nat} {n m c d : Nat} {k : Int} (h : Unmet agree n m c (d + 1))
  (hb : Bounded agree n m) (hc : c ≤ d)
include h hb hc

/-- On the uppermost diagonal near the far corner the old side is not left. -/
theorem entered_le_old (hk : OnRound (d + 1) k) (hindex : k = ((d + 1 : Nat) : Int) + (n - m - c)) :
    entered agree (d + 1) k ≤ n := by
  have hreached := entered_le_reached agree (d + 1) k
  subst hindex
  refine Nat.le_of_not_lt fun hlt => ?_
  obtain ⟨e, he, hround, hedge⟩ := hb.climb_old.exists_earlier (a := 0) hk (by omega)
  obtain rfl : e = d := by omega
  have hunmet := h e (Nat.lt_succ_self e) _ hround (by unfold Near; omega)
  omega

/-- On the lowermost diagonal near the far corner the new side is not left. -/
theorem entered_le_new (hk : OnRound (d + 1) k)
    (hindex : k = -(((d + 1 : Nat) : Int) + (m - n - c))) : entered agree (d + 1) k - k ≤ m := by
  have hreached := entered_le_reached agree (d + 1) k
  subst hindex
  refine Int.not_lt.mp fun hlt => ?_
  obtain ⟨e, he, hround, hedge⟩ := hb.climb_new.exists_earlier (a := 0) hk (by omega)
  obtain rfl : e = d := by omega
  have hunmet := h e (Nat.lt_succ_self e) _ hround (by unfold Near; omega)
  omega

/-- **A search that has not reached an edge enters within the grid,** and not at the far corner. -/
theorem entered_succ_inside (hodd : ((n : Int) - m - c) % 2 = 0) (hk : OnRound (d + 1) k)
    (hnear : Near n m c (d + 1) k) :
    entered agree (d + 1) k ≤ n ∧ entered agree (d + 1) k - k ≤ m ∧
      ¬ (entered agree (d + 1) k = n ∧ (entered agree (d + 1) k : Int) - k = m) := by
  rcases entered_cases agree hk with ⟨hround, heq⟩ | ⟨hround, heq⟩
  · by_cases hprevious : Near n m c d (k + 1)
    · have hunmet := h d (Nat.lt_succ_self d) _ hround hprevious
      omega
    · -- the neighbour is too far from the corner, so the diagonal is the uppermost one
      have hindex : k = ((d + 1 : Nat) : Int) + (n - m - c) := by
        unfold OnRound Near at *
        omega
      have hle := h.entered_le_old hb hc hk hindex
      omega
  · by_cases hprevious : Near n m c d (k - 1)
    · have hunmet := h d (Nat.lt_succ_self d) _ hround hprevious
      omega
    · have hindex : k = -(((d + 1 : Nat) : Int) + (m - n - c)) := by
        unfold OnRound Near at *
        omega
      have hle := h.entered_le_new hb hc hk hindex
      omega

end Unmet

/-- **A search that has not reached an edge enters within the grid,** also in its first rounds. -/
theorem Unmet.entered_inside {agree : Nat → Nat → Nat} {n m c d : Nat} {k : Int}
    (h : Unmet agree n m c d) (hb : Bounded agree n m) (hn : 0 < n) (hm : 0 < m)
    (hodd : ((n : Int) - m - c) % 2 = 0) (hc : c = 0 ∨ c = 1 ∧ agree 0 0 = 0) (hk : OnRound d k)
    (hnear : Near n m c d k) :
    entered agree d k ≤ n ∧ entered agree d k - k ≤ m ∧
      ¬ (entered agree d k = n ∧ (entered agree d k : Int) - k = m) := by
  cases d with
  | zero =>
      obtain rfl : k = 0 := by
        unfold OnRound at hk
        omega
      have hzero : entered agree 0 0 = 0 := rfl
      omega
  | succ d =>
      by_cases hcd : c ≤ d
      · exact h.entered_succ_inside hb hcd hodd hk hnear
      · -- in round one a single step has been made, off a side that has a token
        obtain ⟨rfl, hzero⟩ : c = 1 ∧ agree 0 0 = 0 := by omega
        obtain rfl : d = 0 := by omega
        have hreached : reached agree (0 + 1) 0 = 0 + agree 0 0 := rfl
        rcases entered_cases agree hk with ⟨hround, heq⟩ | ⟨hround, heq⟩
        · obtain rfl : k = -1 := by
            unfold OnRound at hround
            omega
          have hindex : (-1 : Int) + 1 = 0 := rfl
          rw [hindex] at heq
          omega
        · obtain rfl : k = 1 := by
            unfold OnRound at hround
            omega
          have hindex : (1 : Int) - 1 = 0 := rfl
          rw [hindex] at heq
          omega

end MakeOutline
