import MakeOutline.Proofs.Diff.Reach
import MakeOutline.Proofs.Diff.Search

/-! # Where two searches meet

`Grid.split?` makes rounds from both corners and keeps the distances in two arrays. On the diagonals
that a round reads, such an array holds what `reached` says (`Frontier.Keeps`). A round ends early
at a diagonal on which the searches meet (`Frontier.Keeps.of_round_some`), and otherwise leaves what
the next round reads (`Frontier.Keeps.of_round_none`).

Searches that have not met are within the grid, so the point at which they meet splits it
(`Grid.Parted.properPoint_ahead`, `Grid.Parted.properPoint_behind`); and they meet before they have
made all their rounds (`Grid.Searching.lt_rounds`). So `Grid.split?` gives such a point for all
stretches that start with different tokens (`Grid.Parted.exists_split?`), and `Grid.blocks` never
replaces two stretches by one another as a whole (`Grid.exists_blocks_eq_append`). -/

namespace MakeOutline

/-! ## What a frontier holds -/

/-- The diagonals that round `d` reads: the neighbours of those that it enters. -/
def OnRead (d : Nat) (k : Int) : Prop := (d + k) % 2 = 1 ∧ k.natAbs < max d 2

/-- Where a search goes along a diagonal in round `d`. -/
def strideAt (agree : Nat → Nat → Nat) (d : Nat) (k : Int) : Stride :=
  let x := entered agree d k
  let y := (x - k).toNat
  ⟨k, (x, y), (x + agree x y, y + agree x y)⟩

theorem mem_roundDiagonals_iff {d : Nat} {k : Int} : k ∈ roundDiagonals d ↔ OnRound d k := by
  unfold roundDiagonals OnRound
  rw [List.mem_map]
  constructor
  · rintro ⟨i, hi, rfl⟩
    rw [List.mem_range] at hi
    omega
  · rintro ⟨hlower, hupper, heven⟩
    exact ⟨((d - k) / 2).toNat, List.mem_range.mpr (by omega), by omega⟩

theorem nodup_roundDiagonals (d : Nat) : (roundDiagonals d).Nodup := by
  refine List.Pairwise.map _ (fun i j hne heq => ?_) List.nodup_range
  exact hne (by omega)

namespace Frontier

variable {agree : Nat → Nat → Nat} {f : Frontier} {bound d : Nat} {j k : Int}

/-- A frontier has room for the diagonals up to a bound. -/
structure HasRoom (f : Frontier) (bound : Nat) : Prop where
  /-- The diagonal zero is in the middle. -/
  offset_eq : f.offset = bound
  /-- There are as many diagonals on either side. -/
  size_eq : f.reach.size = 2 * bound + 1

theorem hasRoom_set (h : f.HasRoom bound) (k : Int) (x : Nat) : (f.set k x).HasRoom bound :=
  ⟨h.offset_eq, by rw [set, Array.size_setIfInBounds, h.size_eq]⟩

/-- Setting the distance on one diagonal leaves the others alone. -/
theorem HasRoom.get_set (h : f.HasRoom bound) (hj : j.natAbs ≤ bound) (hk : k.natAbs ≤ bound)
    (x : Nat) : (f.set k x).get j = if j = k then x else f.get j := by
  have hoffset := h.offset_eq
  have hsize := h.size_eq
  unfold get set
  simp only [Array.getD_eq_getD_getElem?, Array.getElem?_setIfInBounds]
  by_cases hjk : j = k
  · rw [if_pos (by rw [hjk]), if_pos (by omega), if_pos hjk]
    rfl
  · rw [if_neg (by omega), if_neg hjk]

/-- A frontier holds, on the diagonals that round `d` reads, how far the rounds before have come. -/
structure Keeps (f : Frontier) (bound : Nat) (agree : Nat → Nat → Nat) (d : Nat) : Prop
    extends f.HasRoom bound where
  /-- The distances. -/
  get_eq : ∀ k, OnRead d k → f.get k = reached agree d k

/-- Before the first round there is nothing. -/
theorem keeps_start (bound : Nat) (agree : Nat → Nat → Nat) :
    (start bound).Keeps bound agree 0 := by
  refine ⟨⟨rfl, by simp [start]⟩, fun k _ => ?_⟩
  have hget : (Array.replicate (2 * bound + 1) 0).getD (k + bound).toNat 0 = 0 := by
    simp only [Array.getD_eq_getD_getElem?, Array.getElem?_replicate]
    split <;> rfl
  exact hget

/-- The distances that round `d` sets are none of those that it reads. -/
theorem Keeps.set (h : f.Keeps bound agree d) (hbound : d < bound) (hk : OnRound d k) (x : Nat) :
    (f.set k x).Keeps bound agree d := by
  refine ⟨hasRoom_set h.toHasRoom k x, fun j hj => ?_⟩
  rw [← h.get_eq j hj]
  unfold OnRead OnRound at *
  rw [h.get_set (by omega) (by omega), if_neg (by omega)]

/-- A round enters the diagonals where `entered` says. -/
theorem Keeps.enter_eq (h : f.Keeps bound agree d) (hk : OnRound d k) :
    f.enter d k = entered agree d k := by
  have habove (hne : k = -d ∨ k ≠ d) : f.get (k + 1) = reached agree d (k + 1) := by
    refine h.get_eq _ ?_
    unfold OnRead OnRound at *
    omega
  have hbelow (hne : k ≠ -d) : f.get (k - 1) = reached agree d (k - 1) := by
    refine h.get_eq _ ?_
    unfold OnRead OnRound at *
    omega
  unfold enter entered enterFrom
  by_cases hlower : k = -d
  · rw [if_pos (Or.inl hlower), if_pos (Or.inl hlower), habove (Or.inl hlower)]
  · by_cases hupper : k = d
    · -- at the upper end the diagonal above is not read
      rw [if_neg (fun hcond => hcond.elim hlower fun hne => hne.1 hupper),
        if_neg (fun hcond => hcond.elim hlower fun hne => hne.1 hupper), hbelow hlower]
    · rw [habove (Or.inr hupper), hbelow hlower]

/-! ## A round -/

variable {meets : Stride → Bool}

/-- A part of a round finds a diagonal on which the searches meet, or it sets the distances on its
diagonals and no others. -/
theorem Keeps.searchRound_cases {ks : List Int} (h : f.Keeps bound agree d) (hbound : d < bound)
    (hks : ∀ k ∈ ks, OnRound d k) (hnodup : ks.Nodup) :
    (∃ k f', OnRound d k ∧ meets (strideAt agree d k) = true ∧
      searchRound agree meets d ks f = (some (strideAt agree d k), f')) ∨
    ∃ f', searchRound agree meets d ks f = (none, f') ∧ f'.HasRoom bound ∧
      (∀ k ∈ ks, meets (strideAt agree d k) = false) ∧
      ∀ j, j.natAbs ≤ bound → f'.get j = if j ∈ ks then reached agree (d + 1) j else f.get j := by
  induction ks generalizing f with
  | nil => exact Or.inr ⟨f, rfl, h.toHasRoom, by simp, by simp⟩
  | cons k ks ih =>
      obtain ⟨hk, hks⟩ := List.forall_mem_cons.mp hks
      obtain ⟨hnotMem, hnodup⟩ := List.nodup_cons.mp hnodup
      have hround : searchRound agree meets d (k :: ks) f =
          if meets (strideAt agree d k) then
            (some (strideAt agree d k), f.set k (reached agree (d + 1) k))
          else searchRound agree meets d ks (f.set k (reached agree (d + 1) k)) := by
        rw [searchRound, h.enter_eq hk]
        rfl
      cases hmeets : meets (strideAt agree d k) with
      | true => exact Or.inl ⟨k, _, hk, hmeets, by rw [hround, if_pos hmeets]⟩
      | false =>
          rw [hround, if_neg (by simp [hmeets])]
          refine (ih (h.set hbound hk _) hks hnodup).imp id ?_
          rintro ⟨f', hf', hroom, hnone, hget⟩
          refine ⟨f', hf', hroom, List.forall_mem_cons.mpr ⟨hmeets, hnone⟩, fun j hj => ?_⟩
          have hkbound : k.natAbs ≤ bound := by
            unfold OnRound at hk
            omega
          rw [hget j hj, h.get_set hj hkbound]
          by_cases hjk : j = k
          · subst hjk
            rw [if_neg hnotMem, if_pos rfl, if_pos List.mem_cons_self]
          · rw [if_neg hjk]
            simp only [List.mem_cons, hjk, false_or]

/-- **A round that ends early** has found a diagonal on which the searches meet. -/
theorem Keeps.of_round_some (h : f.Keeps bound agree d) (hbound : d < bound) {s : Stride}
    {f' : Frontier} (hround : searchRound agree meets d (roundDiagonals d) f = (some s, f')) :
    ∃ k, OnRound d k ∧ s = strideAt agree d k ∧ meets s = true := by
  rcases h.searchRound_cases hbound (fun k => mem_roundDiagonals_iff.mp) (nodup_roundDiagonals d)
    with ⟨k, f'', hk, hmeets, heq⟩ | ⟨f'', heq, -⟩
  · cases heq.symm.trans hround
    exact ⟨k, hk, rfl, hmeets⟩
  · cases heq.symm.trans hround

/-- **A round that goes on to its end** has met the other search nowhere, and the frontier holds
what the next round reads. -/
theorem Keeps.of_round_none (h : f.Keeps bound agree d) (hbound : d < bound) {f' : Frontier}
    (hround : searchRound agree meets d (roundDiagonals d) f = (none, f')) :
    f'.Keeps bound agree (d + 1) ∧ ∀ k, OnRound d k → meets (strideAt agree d k) = false := by
  rcases h.searchRound_cases hbound (fun k => mem_roundDiagonals_iff.mp) (nodup_roundDiagonals d)
    with ⟨k, f'', -, -, heq⟩ | ⟨f'', heq, hroom, hnone, hget⟩
  · cases heq.symm.trans hround
  · cases heq.symm.trans hround
    refine ⟨⟨hroom, fun k hk => ?_⟩, fun k hk => hnone k (mem_roundDiagonals_iff.mpr hk)⟩
    have hk' : OnRound d k := by
      unfold OnRead OnRound at *
      omega
    have hkbound : k.natAbs ≤ bound := by
      unfold OnRound at hk'
      omega
    rw [hget k hkbound, if_pos (mem_roundDiagonals_iff.mpr hk')]

end Frontier

/-! ## Two searches -/

/-- Two searches have not met in the rounds before `d`, on the diagonals on which the first one
looks for the other. The other one has made its own round by then if `c` is zero, and is a round
behind if `c` is one. -/
def Apart (agree other : Nat → Nat → Nat) (n m c d : Nat) : Prop :=
  ∀ e < d, ∀ k, OnRound e k → Near n m c e k →
    reached agree (e + 1) k + reached other (e + 1 - c) (n - m - k) < n

theorem apart_zero (agree other : Nat → Nat → Nat) (n m c : Nat) : Apart agree other n m c 0 :=
  fun _ he => absurd he (Nat.not_lt_zero _)

theorem Apart.succ {agree other : Nat → Nat → Nat} {n m c d : Nat} (h : Apart agree other n m c d)
    (hround : ∀ k, OnRound d k → Near n m c d k →
      ¬ n ≤ reached agree (d + 1) k + reached other (d + 1 - c) (n - m - k)) :
    Apart agree other n m c (d + 1) := by
  intro e he k hk hnear
  rcases Nat.lt_succ_iff_lt_or_eq.mp he with hlt | rfl
  · exact h e hlt k hk hnear
  · exact Nat.lt_of_not_le (hround k hk hnear)

section

variable {agree other : Nat → Nat → Nat} {n m c d : Nat} (hodd : ((n : Int) - m - c) % 2 = 0)
include hodd

/-- The other search is on the same diagonal, counted from its own corner. -/
theorem Near.onRound_other {k : Int} (h : Near n m c d k) (hk : OnRound d k) :
    ∃ e, d + 1 - c = e + 1 ∧ OnRound e (n - m - k) := by
  unfold Near OnRound at *
  exact ⟨d - c, by omega⟩

/-- At an edge a search would have met the other one, wherever that is. -/
theorem Apart.unmet (h : Apart agree other n m c d) : Unmet agree n m c d := by
  intro e he k hk hnear
  have hsum := h e he k hk hnear
  obtain ⟨i, hi, hround⟩ := hnear.onRound_other hodd hk
  have hentered := le_entered other hround
  have hreached := entered_le_reached other i (n - m - k)
  rw [hi] at hsum
  omega

/-- **Searches that make enough rounds meet:** together they have taken more tokens than there
are. -/
theorem Apart.two_mul_lt (hc : c ≤ 1) (h : Apart agree other n m c (d + 1)) :
    2 * d < n + m + c := by
  refine Nat.lt_of_not_le fun hle => ?_
  obtain ⟨k, hk, hnear⟩ : ∃ k, OnRound d k ∧ Near n m c d k := by
    unfold OnRound Near
    rcases Nat.le_total m n with hmn | hmn
    · exact ⟨d, by omega⟩
    · exact ⟨-d, by omega⟩
  have hsum := h d (Nat.lt_succ_self d) k hk hnear
  obtain ⟨i, hi, hround⟩ := hnear.onRound_other hodd hk
  have hprogress := le_two_mul_entered agree hk
  have hreached := entered_le_reached agree d k
  have hprogress' := le_two_mul_entered other hround
  have hreached' := entered_le_reached other i (n - m - k)
  rw [hi] at hsum
  omega

end

namespace Grid

variable {old new : Array Text} {g : Grid}

theorem bounded_agreeAhead (old new : Array Text) (g : Grid) :
    Bounded (g.agreeAhead old new) g.oldLen g.newLen :=
  ⟨fun _ _ => Nat.le_trans (commonPrefix_le _ _ _ _ _) (Nat.min_le_left _ _),
    fun _ _ => Nat.le_trans (commonPrefix_le _ _ _ _ _) (Nat.min_le_right _ _)⟩

theorem bounded_agreeBehind (old new : Array Text) (g : Grid) :
    Bounded (g.agreeBehind old new) g.oldLen g.newLen :=
  ⟨fun _ _ => Nat.le_trans (commonSuffix_le _ _ _ _ _) (Nat.min_le_left _ _),
    fun _ _ => Nat.le_trans (commonSuffix_le _ _ _ _ _) (Nat.min_le_right _ _)⟩

/-- The two stretches have tokens and do not start with the same one. -/
structure Parted (old new : Array Text) (g : Grid) : Prop where
  /-- There are tokens on the old side. -/
  old_pos : 0 < g.oldLen
  /-- There are tokens on the new side. -/
  new_pos : 0 < g.newLen
  /-- The first tokens differ. -/
  first_ne : old[g.oldStart]? ≠ new[g.newStart]?

namespace Parted

variable (h : g.Parted old new)
include h

theorem agreeAhead_zero : g.agreeAhead old new 0 0 = 0 := by
  have hold := h.old_pos
  have hnew := h.new_pos
  obtain ⟨limit, hlimit⟩ : ∃ limit, min (g.oldLen - 0) (g.newLen - 0) = limit + 1 :=
    ⟨min g.oldLen g.newLen - 1, by omega⟩
  rw [agreeAhead, hlimit, commonPrefix]
  exact if_neg h.first_ne

/-- The backward search does not come to the near corner along a diagonal. -/
theorem agreeBehind_eq_zero {x y : Nat} (hx : x + g.agreeBehind old new x y = g.oldLen)
    (hy : y + g.agreeBehind old new x y = g.newLen) : g.agreeBehind old new x y = 0 := by
  have hold := h.old_pos
  have hnew := h.new_pos
  unfold oldLen newLen at *
  have hagree : Agree old new (g.oldStop - x - g.agreeBehind old new x y)
      (g.newStop - y - g.agreeBehind old new x y) (g.agreeBehind old new x y) :=
    agree_commonSuffix (by unfold oldLen newLen; omega) (by unfold oldLen newLen; omega)
  refine Nat.eq_zero_of_not_pos fun hpos => h.first_ne ?_
  have hfirst := hagree 0 hpos
  have holdStart : g.oldStop - x - g.agreeBehind old new x y + 0 = g.oldStart := by omega
  have hnewStart : g.newStop - y - g.agreeBehind old new x y + 0 = g.newStart := by omega
  rwa [holdStart, hnewStart] at hfirst

/-- A point of the grid by its distances from the near corner. -/
theorem properPoint_add {x y : Nat} (hx : x ≤ g.oldLen) (hy : y ≤ g.newLen)
    (hnear : ¬ (x = 0 ∧ y = 0)) (hfar : ¬ (x = g.oldLen ∧ y = g.newLen)) :
    g.properPoint (g.oldStart + x) (g.newStart + y) := by
  have hold := h.old_pos
  have hnew := h.new_pos
  unfold properPoint
  unfold oldLen newLen at *
  omega

/-- A point of the grid by its distances from the far corner. -/
theorem properPoint_sub {x y : Nat} (hx : x ≤ g.oldLen) (hy : y ≤ g.newLen)
    (hfar : ¬ (x = 0 ∧ y = 0)) (hnear : ¬ (x = g.oldLen ∧ y = g.newLen)) :
    g.properPoint (g.oldStop - x) (g.newStop - y) := by
  have hold := h.old_pos
  have hnew := h.new_pos
  unfold properPoint
  unfold oldLen newLen at *
  omega

/-- **Where the forward search meets the backward one,** it has entered its diagonal within the
grid. -/
theorem properPoint_ahead {d : Nat} {k : Int} (hodd : ((g.oldLen : Int) - g.newLen - 1) % 2 = 0)
    (hapart : Apart (g.agreeAhead old new) (g.agreeBehind old new) g.oldLen g.newLen 1 d)
    (hk : OnRound d k) (hnear : Near g.oldLen g.newLen 1 d k) :
    g.properPoint (g.oldStart + (strideAt (g.agreeAhead old new) d k).start.1)
      (g.newStart + (strideAt (g.agreeAhead old new) d k).start.2) := by
  obtain ⟨holdLe, hnewLe, hcorner⟩ := (hapart.unmet hodd).entered_inside
    (bounded_agreeAhead old new g) h.old_pos h.new_pos hodd (Or.inr ⟨rfl, h.agreeAhead_zero⟩) hk
    hnear
  have hprogress := le_two_mul_entered (g.agreeAhead old new) hk
  have hentered := le_entered (g.agreeAhead old new) hk
  unfold Near at hnear
  refine h.properPoint_add holdLe (Int.toNat_le.mpr hnewLe) (fun hstart => ?_) (fun hstop => ?_)
  · simp only [strideAt] at hstart
    omega
  · simp only [strideAt] at hstop
    exact hcorner ⟨hstop.1, by omega⟩

/-- **Where the backward search meets the forward one,** it has left its diagonal within the
grid. -/
theorem properPoint_behind {d : Nat} {k : Int} (heven : ((g.oldLen : Int) - g.newLen - 0) % 2 = 0)
    (hapart : Apart (g.agreeBehind old new) (g.agreeAhead old new) g.oldLen g.newLen 0 d)
    (hk : OnRound d k) (hnear : Near g.oldLen g.newLen 0 d k)
    (hmeets : g.oldLen ≤ reached (g.agreeBehind old new) (d + 1) k +
      reached (g.agreeAhead old new) (d + 1) (g.oldLen - g.newLen - k)) :
    g.properPoint (g.oldStop - (strideAt (g.agreeBehind old new) d k).stop.1)
      (g.newStop - (strideAt (g.agreeBehind old new) d k).stop.2) := by
  have hb := bounded_agreeBehind old new g
  obtain ⟨hxLe, hyLe, hcorner⟩ := (hapart.unmet heven).entered_inside hb h.old_pos h.new_pos heven
    (Or.inl rfl) hk hnear
  have hprogress := le_two_mul_entered (g.agreeBehind old new) hk
  have hentered := le_entered (g.agreeBehind old new) hk
  have hreached := reached_succ (g.agreeBehind old new) d k
  rw [strideAt]
  generalize hx : entered (g.agreeBehind old new) d k = x at *
  obtain ⟨y, hy⟩ := Int.eq_ofNat_of_zero_le (Int.sub_nonneg.mpr hentered)
  rw [hy] at hreached hyLe hcorner ⊢
  rw [Int.toNat_natCast] at hreached ⊢
  have hstopX : x + g.agreeBehind old new x y ≤ g.oldLen := by
    have hle := hb.old_le x y
    omega
  have hstopY : y + g.agreeBehind old new x y ≤ g.newLen := by
    have hle := hb.new_le x y
    omega
  have hpoint := h.properPoint_sub hstopX hstopY
  refine hpoint (fun hfar => ?_) (fun hend => ?_)
  · -- nothing is moved, so this is round zero; the forward search has not moved in it either
    obtain ⟨rfl, rfl⟩ : d = 0 ∧ k = 0 := by
      unfold OnRound at hk
      omega
    have hdiagonal : (g.oldLen : Int) - g.newLen - 0 = 0 := by
      unfold Near at hnear
      omega
    have hzero : reached (g.agreeAhead old new) (0 + 1) 0 = 0 :=
      (Nat.zero_add _).trans h.agreeAhead_zero
    have hpos := h.old_pos
    rw [hdiagonal, hzero, hreached] at hmeets
    omega
  · have hstay := h.agreeBehind_eq_zero hend.1 hend.2
    exact hcorner ⟨by omega, by omega⟩

end Parted

/-! ## The point where they meet -/

/-- Whether a stride of the forward search meets the backward one. -/
def meetsBackward (g : Grid) (backward : Frontier) (d : Nat) (s : Stride) : Bool :=
  g.farDiagonal % 2 == 1 && (s.diagonal - g.farDiagonal).natAbs < d &&
    g.oldLen ≤ s.stop.1 + backward.get (g.farDiagonal - s.diagonal)

/-- Whether a stride of the backward search meets the forward one. -/
def meetsForward (g : Grid) (forward : Frontier) (d : Nat) (s : Stride) : Bool :=
  ! (g.farDiagonal % 2 == 1) && (s.diagonal - g.farDiagonal).natAbs ≤ d &&
    g.oldLen ≤ s.stop.1 + forward.get (g.farDiagonal - s.diagonal)

theorem meetingPoint?_succ (g : Grid) (left d : Nat) (forward backward : Frontier) :
    g.meetingPoint? old new (left + 1) d forward backward =
      match searchRound (g.agreeAhead old new) (g.meetsBackward backward d) d (roundDiagonals d)
        forward with
      | (some s, _) => some (g.oldStart + s.start.1, g.newStart + s.start.2)
      | (none, forward) =>
        match searchRound (g.agreeBehind old new) (g.meetsForward forward d) d (roundDiagonals d)
          backward with
        | (some s, _) => some (g.oldStop - s.stop.1, g.newStop - s.stop.2)
        | (none, backward) => g.meetingPoint? old new left (d + 1) forward backward := rfl

section

variable {agree : Nat → Nat → Nat} {forward backward : Frontier} {bound d : Nat} {k : Int}

/-- In grids with an odd far diagonal, the forward search looks for the backward one, which is a
round behind. -/
theorem meetsBackward_strideAt_iff (h : backward.Keeps bound (g.agreeBehind old new) d)
    (hk : OnRound d k) :
    g.meetsBackward backward d (strideAt agree d k) = true ↔
      g.farDiagonal % 2 = 1 ∧ Near g.oldLen g.newLen 1 d k ∧
        g.oldLen ≤ reached agree (d + 1) k +
          reached (g.agreeBehind old new) (d + 1 - 1) (g.oldLen - g.newLen - k) := by
  have hget (hodd : g.farDiagonal % 2 = 1) (hnear : Near g.oldLen g.newLen 1 d k) :
      backward.get (g.oldLen - g.newLen - k) =
        reached (g.agreeBehind old new) d (g.oldLen - g.newLen - k) := by
    refine h.get_eq _ ?_
    unfold OnRead OnRound Near farDiagonal at *
    omega
  have hstop : (strideAt agree d k).stop.1 = reached agree (d + 1) k := rfl
  have hdiagonal : (strideAt agree d k).diagonal = k := rfl
  rw [meetsBackward, hstop, hdiagonal]
  simp only [Bool.and_eq_true, beq_iff_eq, decide_eq_true_eq, and_assoc]
  refine and_congr_right fun hodd => and_congr_right_iff.mpr fun hnear => ?_
  rw [farDiagonal, hget hodd hnear]
  rfl

/-- In the other grids, the backward search looks for the forward one, which has made its round. -/
theorem meetsForward_strideAt_iff (h : forward.Keeps bound (g.agreeAhead old new) (d + 1))
    (hk : OnRound d k) :
    g.meetsForward forward d (strideAt agree d k) = true ↔
      ¬ g.farDiagonal % 2 = 1 ∧ Near g.oldLen g.newLen 0 d k ∧
        g.oldLen ≤ reached agree (d + 1) k +
          reached (g.agreeAhead old new) (d + 1) (g.oldLen - g.newLen - k) := by
  have hget (heven : ¬ g.farDiagonal % 2 = 1) (hnear : Near g.oldLen g.newLen 0 d k) :
      forward.get (g.oldLen - g.newLen - k) =
        reached (g.agreeAhead old new) (d + 1) (g.oldLen - g.newLen - k) := by
    refine h.get_eq _ ?_
    unfold OnRead OnRound Near farDiagonal at *
    omega
  have hstop : (strideAt agree d k).stop.1 = reached agree (d + 1) k := rfl
  have hdiagonal : (strideAt agree d k).diagonal = k := rfl
  rw [meetsForward, hstop, hdiagonal]
  simp only [Bool.and_eq_true, Bool.not_eq_true', beq_eq_false_iff_ne, decide_eq_true_eq, ne_eq,
    and_assoc]
  refine and_congr_right fun heven => and_congr_right_iff.mpr fun hnear => ?_
  rw [farDiagonal, hget heven hnear]

end

/-- Both searches before round `d`, which have not met in the rounds before it. -/
structure Searching (old new : Array Text) (g : Grid) (bound d : Nat)
    (forward backward : Frontier) : Prop where
  /-- What the forward search has reached. -/
  forward_keeps : forward.Keeps bound (g.agreeAhead old new) d
  /-- What the backward search has reached. -/
  backward_keeps : backward.Keeps bound (g.agreeBehind old new) d
  /-- In grids with an odd far diagonal the forward search has not met the backward one. -/
  apart_ahead : g.farDiagonal % 2 = 1 →
    Apart (g.agreeAhead old new) (g.agreeBehind old new) g.oldLen g.newLen 1 d
  /-- In the other grids the backward search has not met the forward one. -/
  apart_behind : ¬ g.farDiagonal % 2 = 1 →
    Apart (g.agreeBehind old new) (g.agreeAhead old new) g.oldLen g.newLen 0 d

theorem searching_start (old new : Array Text) (g : Grid) (bound : Nat) :
    g.Searching old new bound 0 (Frontier.start bound) (Frontier.start bound) :=
  ⟨Frontier.keeps_start _ _, Frontier.keeps_start _ _, fun _ => apart_zero _ _ _ _ _,
    fun _ => apart_zero _ _ _ _ _⟩

namespace Searching

variable {bound d left : Nat} {forward backward : Frontier} (hg : g.Parted old new)
  (h : g.Searching old new bound d forward backward)
include hg h

/-- **A round finds a point that splits the grid,** or the searches go on to the next round. -/
theorem round (hbound : d < bound) :
    (∃ x y, g.meetingPoint? old new (left + 1) d forward backward = some (x, y) ∧
      g.properPoint x y) ∨
    ∃ forward' backward', g.meetingPoint? old new (left + 1) d forward backward =
        g.meetingPoint? old new left (d + 1) forward' backward' ∧
      g.Searching old new bound (d + 1) forward' backward' := by
  rw [meetingPoint?_succ]
  rcases hahead : searchRound (g.agreeAhead old new) (g.meetsBackward backward d) d
    (roundDiagonals d) forward with ⟨_ | s, forward'⟩
  · obtain ⟨hforward, hnotAhead⟩ := h.forward_keeps.of_round_none hbound hahead
    rcases hbehind : searchRound (g.agreeBehind old new) (g.meetsForward forward' d) d
      (roundDiagonals d) backward with ⟨_ | s, backward'⟩
    · obtain ⟨hbackward, hnotBehind⟩ := h.backward_keeps.of_round_none hbound hbehind
      refine Or.inr ⟨forward', backward', by simp only [hbehind], hforward, hbackward,
        fun hodd => ?_, fun heven => ?_⟩
      · refine (h.apart_ahead hodd).succ fun k hk hnear hle => ?_
        have hmeets := (meetsBackward_strideAt_iff h.backward_keeps hk).mpr ⟨hodd, hnear, hle⟩
        exact absurd hmeets (Bool.eq_false_iff.mp (hnotAhead k hk))
      · refine (h.apart_behind heven).succ fun k hk hnear hle => ?_
        have hmeets := (meetsForward_strideAt_iff hforward hk).mpr ⟨heven, hnear, hle⟩
        exact absurd hmeets (Bool.eq_false_iff.mp (hnotBehind k hk))
    · obtain ⟨k, hk, rfl, hmeets⟩ := h.backward_keeps.of_round_some hbound hbehind
      obtain ⟨heven, hnear, hle⟩ := (meetsForward_strideAt_iff hforward hk).mp hmeets
      have hparity : ((g.oldLen : Int) - g.newLen - 0) % 2 = 0 := by
        unfold farDiagonal at heven
        omega
      exact Or.inl ⟨_, _, by simp only [hbehind],
        hg.properPoint_behind hparity (h.apart_behind heven) hk hnear hle⟩
  · obtain ⟨k, hk, rfl, hmeets⟩ := h.forward_keeps.of_round_some hbound hahead
    obtain ⟨hodd, hnear, -⟩ := (meetsBackward_strideAt_iff h.backward_keeps hk).mp hmeets
    have hparity : ((g.oldLen : Int) - g.newLen - 1) % 2 = 0 := by
      unfold farDiagonal at hodd
      omega
    exact Or.inl ⟨_, _, rfl, hg.properPoint_ahead hparity (h.apart_ahead hodd) hk hnear⟩

omit hg in
/-- The searches have met before they have made all their rounds. -/
theorem lt_rounds : d < (g.oldLen + g.newLen + 1) / 2 + 1 := by
  refine Nat.lt_of_not_le fun hle => ?_
  obtain ⟨e, rfl⟩ : ∃ e, d = e + 1 := ⟨d - 1, by omega⟩
  by_cases hodd : g.farDiagonal % 2 = 1
  · have hapart := h.apart_ahead hodd
    unfold farDiagonal at hodd
    have hlt : 2 * e < g.oldLen + g.newLen + 1 :=
      hapart.two_mul_lt (by omega) (Nat.le_refl 1)
    omega
  · have hapart := h.apart_behind hodd
    unfold farDiagonal at hodd
    have hlt : 2 * e < g.oldLen + g.newLen + 0 :=
      hapart.two_mul_lt (by omega) (Nat.zero_le 1)
    omega

/-- **The rounds that are left find a point that splits the grid.** -/
theorem exists_meetingPoint? (hrounds : d + left = (g.oldLen + g.newLen + 1) / 2 + 1)
    (hbound : d + left ≤ bound) :
    ∃ x y, g.meetingPoint? old new left d forward backward = some (x, y) ∧ g.properPoint x y := by
  induction left generalizing d forward backward with
  | zero =>
      have hlt := h.lt_rounds
      omega
  | succ left ih =>
      rcases h.round hg (by omega) with hfound | ⟨forward', backward', heq, hnext⟩
      · exact hfound
      · rw [heq]
        exact ih hnext (by omega) (by omega)

end Searching

/-! ## Splitting -/

/-- **Stretches that start with different tokens are split,** at a point other than the two corners
of their grid. -/
theorem Parted.exists_split? (h : g.Parted old new) :
    ∃ x y, g.split? old new = some (x, y) ∧ g.properPoint x y :=
  (searching_start old new g _).exists_meetingPoint? h (Nat.zero_add _)
    (by rw [Nat.zero_add]; exact Nat.le_succ _)

/-- What is left of two stretches without their common ends starts with different tokens. -/
theorem parted_dropEnds {p s : Nat}
    (hp : p = commonPrefix old new g.oldStart g.newStart (min g.oldLen g.newLen))
    (hold : 0 < ((g.dropStart p).dropStop s).oldLen)
    (hnew : 0 < ((g.dropStart p).dropStop s).newLen) :
    ((g.dropStart p).dropStop s).Parted old new := by
  refine ⟨hold, hnew, ?_⟩
  have hlt : p < min g.oldLen g.newLen := by
    simp only [dropStop, dropStart, oldLen, newLen] at *
    omega
  rw [hp] at hlt ⊢
  exact getElem?_commonPrefix_ne hlt

/-- **The search never gives up:** two stretches that have tokens left without their common ends are
split, and never replaced by one another as a whole. -/
theorem exists_blocks_eq_append {p s : Nat} {core : Grid}
    (hp : p = commonPrefix old new g.oldStart g.newStart (min g.oldLen g.newLen))
    (hs : s = commonSuffix old new (g.dropStart p).oldStop (g.dropStart p).newStop
      (min (g.dropStart p).oldLen (g.dropStart p).newLen))
    (hcore : core = (g.dropStart p).dropStop s) (hold : 0 < core.oldLen) (hnew : 0 < core.newLen) :
    ∃ x y, core.properPoint x y ∧
      g.blocks old new = sharedBlock g.oldStart g.newStart p ++
        ((core.upTo x y).blocks old new ++ (core.beyond x y).blocks old new) ++
        sharedBlock core.oldStop core.newStop s := by
  obtain ⟨x, y, hsplit, hpoint⟩ := (hcore ▸ parted_dropEnds hp (hcore ▸ hold)
    (hcore ▸ hnew) : core.Parted old new).exists_split?
  refine ⟨x, y, hpoint, ?_⟩
  rw [blocks]
  simp only [← hp, ← hs, ← hcore]
  rw [if_neg (Nat.ne_of_gt hnew), if_neg (Nat.ne_of_gt hold), hsplit]
  simp only [dif_pos hpoint]

end Grid

end MakeOutline
