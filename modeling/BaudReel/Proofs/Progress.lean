import BaudReel.Proofs.Pacing

/-!
# How far a session has come

In the course of a session that nothing disturbs, the number of turns says all about
what is to be played next: behind the turn that opens the stream comes a turn for
each further burst of the plan, and behind the last one nothing is played any more
(`Ahead`).  A turn takes a session that is ahead of one burst to a session ahead of
the next (`Ahead.turn`).
-/

namespace BaudReel

namespace Session

/-- A session that has played the first `count` bursts of its plan is ahead of the
next one, or at the end of the stream if there is none. -/
structure Ahead (config : Config) (acquired : Acquired) (sustain : Bool) (count : Nat)
    (s : Session) : Prop where
  config_eq : s.config = config
  sustain_eq : s.sustain = sustain
  next : ∀ burst later, (Burst.plan config acquired.data.length).drop count = burst :: later →
    s.phase = .playing (reelAt config acquired burst.start) burst later
  ended : (Burst.plan config acquired.data.length).drop count = [] → ∃ last, s.Closing last

section Turns

variable {config : Config} {acquired : Acquired} {sustain : Bool} {count : Nat} {s : Session}

/-- Behind a burst a session is ahead of the next one. -/
theorem ahead_playBurst {burst : Burst} {later : List Burst} (hconfig : s.config = config)
    (hsustain : s.sustain = sustain)
    (hdrop : (Burst.plan config acquired.data.length).drop count = burst :: later) :
    Ahead config acquired sustain (count + 1)
      (s.playBurst (reelAt config acquired burst.start) burst later).2.1 := by
  obtain ⟨-, status, strings, hsession⟩ :=
    s.playBurst_fst_snd (reelAt config acquired burst.start) burst later
  have htiles := Burst.tiles_drop config acquired.data.length count
  rw [hdrop] at htiles
  obtain ⟨hstart, hlt, hlater⟩ := htiles
  have hrest : (Burst.plan config acquired.data.length).drop (count + 1) = later := by
    rw [← List.drop_drop, hdrop, List.drop_one, List.tail_cons]
  have hphase := congrArg Session.phase hsession
  refine ⟨(congrArg Session.config hsession).trans hconfig,
    (congrArg Session.sustain hsession).trans hsustain, ?_, ?_⟩
  · intro next rest hnext
    obtain rfl : later = next :: rest := hrest.symm.trans hnext
    have hcarried : carried (reelAt config acquired burst.start) burst (next :: rest) =
        reelAt config acquired burst.stop := carried_reelAt rfl (hstart ▸ hlt)
    rw [hlater.1, ← hcarried]
    exact hphase
  · intro hover
    obtain rfl : later = [] := hrest.symm.trans hover
    have hkept := congrArg Session.sustain hsession
    exact ⟨_, closing_of_phaseAfter hphase hkept⟩

/-- A session that is closing goes on to close, and tells nothing. -/
theorem Closing.turn {last : Frame} (h : s.Closing last) (source : Source) :
    (s.turn source).session.Closing last ∧ (s.turn source).session.config = s.config ∧
      (s.turn source).session.sustain = s.sustain ∧ (s.turn source).notices = [] := by
  rcases h with hdone | ⟨hsustain, begun, hsustaining⟩
  · rw [turn_of_done hdone]
    exact ⟨.inl hdone, rfl, rfl, rfl⟩
  · rw [turn_of_sustaining hsustaining]
    exact ⟨.inr ⟨hsustain, true, rfl⟩, rfl, rfl, rfl⟩

/-- **One turn** plays the next burst, if there is one. -/
theorem Ahead.turn (h : Ahead config acquired sustain count s) (source : Source) :
    Ahead config acquired sustain (count + 1) (s.turn source).session := by
  cases hdrop : (Burst.plan config acquired.data.length).drop count with
  | nil =>
    obtain ⟨last, hclosing⟩ := h.ended hdrop
    obtain ⟨hclosed, hconfig, hsustain, -⟩ := hclosing.turn source
    have hrest : (Burst.plan config acquired.data.length).drop (count + 1) = [] := by
      rw [← List.drop_drop, hdrop, List.drop_nil]
    refine ⟨hconfig.trans h.config_eq, hsustain.trans h.sustain_eq, ?_, fun _ => ⟨last, hclosed⟩⟩
    intro burst later hnext
    rw [hrest] at hnext
    exact absurd hnext.symm (List.cons_ne_nil burst later)
  | cons burst later =>
    obtain ⟨hconfig, hsustain⟩ := s.advanceBlink_eq
    rw [turn_of_playing (h.next burst later hdrop)]
    exact ahead_playBurst (hconfig.trans h.config_eq) (hsustain.trans h.sustain_eq) hdrop

/-- **A run of calls.**  Each of them comes one burst further. -/
theorem Ahead.turns (h : Ahead config acquired sustain count s) (source : Source) (n : Nat) :
    Ahead config acquired sustain (count + n) (s.turns source n).1 := by
  induction n generalizing s source count with
  | zero => exact h
  | succ n ih =>
    have hrest := ih (h.turn source) (s.turn source).source
    rw [Nat.add_right_comm] at hrest
    exact hrest

/-- Where no burst is played, an empty screen is all there is. -/
theorem begin_eq_playNothing (hplan : Burst.plan s.config acquired.data.length = []) :
    s.begin acquired = ((s.playNothing acquired).1, (s.playNothing acquired).2.1,
      acquired.error.toList.map .failed ++ (s.playNothing acquired).2.2) := by
  rw [begin, hplan]

/-- Where bursts are played, the first of them makes the first frame. -/
theorem begin_eq_playBurst {burst : Burst} {later : List Burst}
    (hplan : Burst.plan s.config acquired.data.length = burst :: later) :
    let made := (s.measure acquired.data).2.playBurst (reelAt s.config acquired burst.start) burst
      later
    burst.start < burst.stop ∧ s.begin acquired =
      (made.1, made.2.1, acquired.error.toList.map .failed ++ made.2.2) := by
  have htiles := Burst.tiles_plan s.config acquired.data.length
  rw [hplan] at htiles
  obtain ⟨hstart, hlt, -⟩ := htiles
  refine ⟨hstart ▸ hlt, ?_⟩
  rw [begin, hplan, measure_eq, hstart]
  rfl

/-- To begin with a plan is to have its first burst behind and the others ahead. -/
theorem ahead_begin (hconfig : s.config = config) (hsustain : s.sustain = sustain) :
    Ahead config acquired sustain 1 (s.begin acquired).2.1 := by
  subst hconfig
  cases hplan : Burst.plan s.config acquired.data.length with
  | nil =>
    obtain ⟨-, status, strings, hsession⟩ := s.playNothing_fst_snd acquired
    rw [begin_eq_playNothing hplan, hsession]
    refine ⟨rfl, hsustain, ?_, fun _ => ⟨default, .inl rfl⟩⟩
    intro burst later hnext
    rw [hplan] at hnext
    exact absurd hnext.symm (List.cons_ne_nil burst later)
  | cons burst later =>
    rw [(begin_eq_playBurst hplan).2, measure_eq]
    exact ahead_playBurst rfl hsustain hplan

end Turns

end Session

end BaudReel
