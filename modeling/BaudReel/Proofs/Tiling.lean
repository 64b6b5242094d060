import BaudReel.Burst

/-!
# Bursts tile the stream

The bursts of a plan lie end to end: each begins where the one before it ended,
none is empty, and together they cover the stream from its beginning to where
playback stops (`tiles_plan`).  How many bytes have been played is therefore
read off the last burst (`played`).
-/

namespace BaudReel

namespace Burst

/-- Bursts that lead from one place to another without gap or overlap. -/
def Tiles : Nat → List Burst → Nat → Prop
  | start, [], stop => start = stop
  | start, burst :: later, stop =>
    burst.start = start ∧ start < burst.stop ∧ Tiles burst.stop later stop

/-- Bursts go forward. -/
theorem Tiles.le {start stop : Nat} {bursts : List Burst} (h : Tiles start bursts stop) :
    start ≤ stop := by
  induction bursts generalizing start with
  | nil => exact Nat.le_of_eq h
  | cons burst later ih =>
    obtain ⟨-, hlt, hlater⟩ := h
    exact Nat.le_trans (Nat.le_of_lt hlt) (ih hlater)

/-- Bursts up to a place and bursts from there on tile the whole. -/
theorem Tiles.append {start middle stop : Nat} {front rest : List Burst}
    (hfront : Tiles start front middle) (hrest : Tiles middle rest stop) :
    Tiles start (front ++ rest) stop := by
  induction front generalizing start with
  | nil =>
    cases hfront
    exact hrest
  | cons burst front ih => exact ⟨hfront.1, hfront.2.1, ih hfront.2.2⟩

/-- The last burst ends where the bursts end. -/
theorem Tiles.stop_getLast {start stop : Nat} {bursts : List Burst} (h : Tiles start bursts stop)
    {burst : Burst} (hlast : bursts.getLast? = some burst) : burst.stop = stop := by
  induction bursts generalizing start with
  | nil => exact absurd hlast.symm (Option.some_ne_none burst)
  | cons first later ih =>
    cases later with
    | nil =>
      cases hlast
      exact h.2.2
    | cons second later =>
      rw [List.getLast?_cons_cons] at hlast
      exact ih h.2.2 hlast

/-- What is left of a tiling begins where the part in front of it ended. -/
theorem Tiles.rest {start stop : Nat} {front rest : List Burst}
    (h : Tiles start (front ++ rest) stop) :
    Tiles (front.getLast?.elim start Burst.stop) rest stop := by
  induction front generalizing start with
  | nil => exact h
  | cons burst front ih =>
    have hrest := ih h.2.2
    rw [List.getLast?_cons]
    cases hlast : front.getLast? with
    | none =>
      rw [hlast] at hrest
      exact hrest
    | some last =>
      rw [hlast] at hrest
      exact hrest

/-- Every burst ends behind the beginning. -/
theorem Tiles.lt_stop {start stop : Nat} {bursts : List Burst} (h : Tiles start bursts stop)
    {burst : Burst} (hburst : burst ∈ bursts) : start < burst.stop := by
  induction bursts generalizing start with
  | nil => exact absurd hburst List.not_mem_nil
  | cons first later ih =>
    obtain ⟨-, hlt, hlater⟩ := h
    rcases List.mem_cons.1 hburst with rfl | hmem
    · exact hlt
    · exact Nat.lt_trans hlt (ih hlater hmem)

/-- There are no more bursts than bytes. -/
theorem Tiles.length_le {start stop : Nat} {bursts : List Burst} (h : Tiles start bursts stop) :
    start + bursts.length ≤ stop := by
  induction bursts generalizing start with
  | nil => exact Nat.le_of_eq h
  | cons first later ih =>
    obtain ⟨-, hlt, hlater⟩ := h
    have hle := ih hlater
    rw [List.length_cons]
    omega

/-- A tiling is empty if it leads nowhere. -/
theorem Tiles.eq_nil_iff {start stop : Nat} {bursts : List Burst} (h : Tiles start bursts stop) :
    bursts = [] ↔ start = stop := by
  constructor
  · rintro rfl
    exact h
  · intro hsame
    have hlength := h.length_le
    exact List.length_eq_zero_iff.1 (by omega)

/-- Slices of one step tile the stretch that is cut. -/
theorem tiles_slices (step start total : Nat) (hstart : start ≤ total) :
    Tiles start (slices step start total) total := by
  fun_induction slices step start total with
  | case1 start hmore stop ih =>
    have hstop : start < stop ∧ stop ≤ total := by omega
    exact ⟨rfl, hstop.1, ih hstop.2⟩
  | case2 start hmore => exact Nat.le_antisymm hstart (Nat.le_of_not_lt hmore)

/-- Where playback of a stream of `total` bytes comes to an end. -/
def finalStop (config : Config) (total : Nat) : Nat :=
  if config.seek.resume then total else config.seek.lead total

/-- No more is shown at once than there is. -/
theorem lead_le (seek : Seek) (total : Nat) : seek.lead total ≤ total :=
  Nat.min_le_right _ _

/-- Nothing is played beyond the end of the stream. -/
theorem finalStop_le (config : Config) (total : Nat) : finalStop config total ≤ total := by
  unfold finalStop
  split
  · exact Nat.le_refl total
  · exact lead_le config.seek total

/-- What lies in front of the starting position is shown at once. -/
def inFront (lead : Nat) : List Burst :=
  if 0 < lead then [⟨0, lead⟩] else []

/-- What comes behind the starting position, if playback goes on from there. -/
def behind (config : Config) (lead total : Nat) : List Burst :=
  if config.seek.resume then slices (config.burstLength.getD total) lead total else []

/-- The bursts of a stream of `total` bytes of which the first `lead` are shown at once. -/
def planFrom (config : Config) (lead total : Nat) : List Burst :=
  inFront lead ++ behind config lead total

/-- A plan is made from the number of bytes shown at once. -/
theorem plan_eq (config : Config) (total : Nat) :
    plan config total = planFrom config (config.seek.lead total) total := by
  rw [plan, planFrom, inFront, behind]
  split
  · rfl
  · rw [List.append_nil]

/-- What is shown at once is one burst from the beginning, or none. -/
theorem tiles_inFront (lead : Nat) : Tiles 0 (inFront lead) lead := by
  unfold inFront
  split
  case isTrue hpos => exact ⟨rfl, hpos, rfl⟩
  case isFalse hzero => exact (Nat.eq_zero_of_not_pos hzero).symm

/-- What is played on behind that reaches to the end, if it is played on at all. -/
theorem tiles_behind (config : Config) {lead total : Nat} (hlead : lead ≤ total) :
    Tiles lead (behind config lead total) (if config.seek.resume then total else lead) := by
  rw [behind]
  split
  · exact tiles_slices _ _ _ hlead
  · rfl

/-- **Plans are tilings.**  The bursts of a plan lead from the first byte to
where playback ends. -/
theorem tiles_plan (config : Config) (total : Nat) :
    Tiles 0 (plan config total) (finalStop config total) := by
  rw [plan_eq, finalStop]
  exact (tiles_inFront _).append (tiles_behind config (lead_le config.seek total))

/-- There is no burst exactly if nothing is played. -/
theorem plan_eq_nil_iff (config : Config) (total : Nat) :
    plan config total = [] ↔ finalStop config total = 0 :=
  (tiles_plan config total).eq_nil_iff.trans eq_comm

/-- A plan has no more bursts than the stream has bytes. -/
theorem length_plan_le (config : Config) (total : Nat) : (plan config total).length ≤ total := by
  have hlength := (tiles_plan config total).length_le
  have hstop := finalStop_le config total
  omega

/-- **At unlimited speed** there is one burst in front of the starting position
and one behind it, unless they are empty. -/
theorem length_plan_unlimited {config : Config} (hspeed : config.modemSpeed = .unlimited)
    (total : Nat) :
    (plan config total).length =
      (if 0 < config.seek.lead total then 1 else 0) +
        (if config.seek.resume ∧ config.seek.lead total < total then 1 else 0) := by
  have hstep : config.burstLength.getD total = total := by
    rw [Config.burstLength, hspeed]
    rfl
  have hrest : (slices total (config.seek.lead total) total).length =
      if config.seek.lead total < total then 1 else 0 := by
    -- the first slice reaches to the end already
    rw [slices]
    split
    · have hstop : min (config.seek.lead total + max total 1) total = total := by omega
      rw [hstop, List.length_cons, slices, if_neg (Nat.lt_irrefl total)]
      rfl
    · rfl
  have hlead : (if 0 < config.seek.lead total then [(⟨0, config.seek.lead total⟩ : Burst)]
      else []).length = if 0 < config.seek.lead total then 1 else 0 := by
    split <;> rfl
  rw [plan, hstep]
  by_cases hresume : config.seek.resume
  · simp only [hresume, if_true, List.length_append, hlead, hrest, true_and]
  · have hends : ¬(config.seek.resume ∧ config.seek.lead total < total) := fun h => hresume h.1
    rw [if_neg hresume, if_neg hends]
    exact hlead

/-- How many bytes have been played behind the first bursts of a plan. -/
def played (config : Config) (total count : Nat) : Nat :=
  ((plan config total).take count).getLast?.elim 0 Burst.stop

theorem played_zero (config : Config) (total : Nat) : played config total 0 = 0 :=
  rfl

/-- Where there is no burst, nothing is ever played. -/
theorem played_of_plan_eq_nil {config : Config} {total : Nat} (h : plan config total = [])
    (count : Nat) : played config total count = 0 := by
  rw [played, h, List.take_nil]
  rfl

/-- Behind a burst the bytes up to its end have been played. -/
theorem played_succ {config : Config} {total i : Nat} {burst : Burst}
    (h : (plan config total)[i]? = some burst) : played config total (i + 1) = burst.stop := by
  rw [played, List.take_add_one, h, List.getLast?_append]
  rfl

/-- Behind the last burst everything has been played that ever is. -/
theorem played_of_length_le {config : Config} {total count : Nat}
    (h : (plan config total).length ≤ count) :
    played config total count = finalStop config total := by
  rw [played, List.take_of_length_le h]
  have htiles := tiles_plan config total
  cases hlast : (plan config total).getLast? with
  | none =>
    have hnil := List.getLast?_eq_none_iff.1 hlast
    exact ((plan_eq_nil_iff config total).1 hnil).symm
  | some burst => exact htiles.stop_getLast hlast

/-- The bursts that are left behind the first ones of a plan begin with the bytes that
have not been played. -/
theorem tiles_drop (config : Config) (total count : Nat) :
    Tiles (played config total count) ((plan config total).drop count)
      (finalStop config total) := by
  have htiles := tiles_plan config total
  rw [← List.take_append_drop count (plan config total)] at htiles
  exact htiles.rest

/-- A count past the end of the plan is as good as one at its end. -/
theorem played_min {config : Config} {total n : Nat} {burst : Burst}
    (h : (plan config total)[min n ((plan config total).length - 1)]? = some burst) :
    played config total (n + 1) = burst.stop := by
  by_cases hn : n < (plan config total).length
  · rw [Nat.min_eq_left (by omega)] at h
    exact played_succ h
  · rw [Nat.min_eq_right (by omega), ← List.getLast?_eq_getElem?] at h
    rw [played_of_length_le (by omega)]
    exact ((tiles_plan config total).stop_getLast h).symm

/-- Every burst has bytes. -/
theorem stop_pos {config : Config} {total i : Nat} {burst : Burst}
    (h : (plan config total)[i]? = some burst) : 0 < burst.stop :=
  (tiles_plan config total).lt_stop (List.mem_of_getElem? h)

/-- Something has been played if there is anything to play. -/
theorem played_succ_eq_zero_iff {config : Config} {total : Nat} (n : Nat) :
    played config total (n + 1) = 0 ↔ plan config total = [] := by
  refine ⟨fun hzero => Decidable.byContradiction fun hsome => ?_,
    fun hnil => played_of_plan_eq_nil hnil _⟩
  have hlength := List.length_pos_iff.2 hsome
  obtain ⟨burst, hburst⟩ : ∃ burst,
      (plan config total)[min n ((plan config total).length - 1)]? = some burst :=
    ⟨_, List.getElem?_eq_getElem (by omega)⟩
  exact Nat.ne_of_gt (stop_pos hburst) ((played_min hburst).symm.trans hzero)

end Burst

end BaudReel
