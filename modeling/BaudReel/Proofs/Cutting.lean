import BaudReel.Checked.Timing
import BaudReel.Proofs.Tiling
import BaudReel.Proofs.Words

/-!
# Cutting a stream into bursts

What is known of a plan of bursts fits into four laws (`Burst.Planned`): the bursts lie end
to end from the first byte to the last one played, the first of them reaches to the starting
position, all later ones have the length of a step, save that the last may fall short of it,
and there is none only if there is nothing to play.  These laws leave no choice, since a burst
that is not the last has to stop a step behind its start, and the last one where the stream
does (`eq_slices`).

A machine cuts the stream in rounds.  A round keeps what has been cut off together with
what a plan would make of the rest, and moves on by a byte at least because a step is never
empty (`Cutting.round?_of_lt`).  So the rounds come to an end, and there are no more of them
than bytes, also where a step saturates at the largest word (`Cutting.run?_eq`).
-/

namespace BaudReel

/-- Bytes of a burst of a stream of `total`, all of them if nothing holds them back. -/
def Config.stepLength (config : Config) (total : Nat) : Nat :=
  max (config.burstLength.getD total) 1

namespace Burst

/-- Bursts of `step` bytes each, save that the last may be shorter. -/
def Uniform (step : Nat) (bursts : List Burst) : Prop :=
  ∀ i burst, bursts[i]? = some burst →
    burst.stop ≤ burst.start + step ∧ (i + 1 < bursts.length → burst.stop = burst.start + step)

/-- The laws of a plan for a stream of `total` bytes of which the first `lead` are shown at
once. -/
structure Planned (resume : Bool) (lead step total : Nat) (bursts : List Burst) : Prop where
  /-- No burst is empty, each begins where the one before it ended, and together they reach
  from the first byte to where playback ends. -/
  tiles : Tiles 0 bursts (if resume then total else lead)
  leading : 0 < lead → bursts.head? = some ⟨0, lead⟩
  later : Uniform step (if 0 < lead then bursts.tail else bursts)
  nil_iff : bursts = [] ↔ total = 0 ∨ resume = false ∧ lead = 0

/-! ### The laws leave no choice -/

theorem uniform_nil (step : Nat) : Uniform step [] :=
  fun _ _ h => absurd h.symm (Option.some_ne_none _)

/-- Bursts are uniform if the first one is full, or shorter and the last, and the others are
uniform. -/
theorem uniform_cons {step : Nat} {burst : Burst} {later : List Burst} :
    Uniform step (burst :: later) ↔
      burst.stop ≤ burst.start + step ∧ (later ≠ [] → burst.stop = burst.start + step) ∧
        Uniform step later := by
  constructor
  · intro h
    obtain ⟨hle, hexact⟩ := h 0 burst rfl
    refine ⟨hle, fun hlater => hexact ?_, fun i next hnext => ?_⟩
    · have hpos := List.length_pos_iff.2 hlater
      rw [List.length_cons]
      omega
    · obtain ⟨hle, hexact⟩ := h (i + 1) next hnext
      exact ⟨hle, fun hi => hexact (Nat.succ_lt_succ hi)⟩
  · rintro ⟨hle, hexact, hlater⟩ i next hnext
    cases i with
    | zero =>
      obtain rfl : burst = next := Option.some.inj hnext
      exact ⟨hle, fun hi => hexact (List.length_pos_iff.1 (Nat.lt_of_succ_lt_succ hi))⟩
    | succ i =>
      obtain ⟨hle, hexact⟩ := hlater i next hnext
      exact ⟨hle, fun hi => hexact (Nat.lt_of_succ_lt_succ hi)⟩

/-- Where nothing is left, nothing is cut off. -/
theorem slices_of_le {step start total : Nat} (h : total ≤ start) :
    slices step start total = [] := by
  rw [slices, if_neg (Nat.not_lt.2 h)]

/-- Where something is left, one slice is cut off, and the rest is cut. -/
theorem slices_of_lt {step start total : Nat} (h : start < total) :
    slices step start total =
      ⟨start, min (start + max step 1) total⟩ ::
        slices step (min (start + max step 1) total) total := by
  rw [slices, if_pos h]

/-- Slices are of one step, but for the last one, which may be shorter. -/
theorem uniform_slices (step start total : Nat) :
    Uniform (max step 1) (slices step start total) := by
  fun_induction slices step start total with
  | case1 start hmore stop ih =>
    refine uniform_cons.2 ⟨Nat.min_le_left _ _, fun hlater => ?_, ih⟩
    -- something is left to cut, so the stream did not end this burst
    have hlt : stop < total := Nat.lt_of_not_le fun hle => hlater (slices_of_le hle)
    show stop = start + max step 1
    omega
  | case2 start hmore => exact uniform_nil _

/-- A tiling by equal steps is the one that slicing makes. -/
theorem eq_slices {step start total : Nat} {bursts : List Burst}
    (htiles : Tiles start bursts total) (huniform : Uniform (max step 1) bursts) :
    bursts = slices step start total := by
  induction bursts generalizing start with
  | nil => exact (slices_of_le (Nat.le_of_eq (Eq.symm htiles))).symm
  | cons burst later ih =>
    obtain ⟨rfl, hlt, hlater⟩ := htiles
    obtain ⟨hle, hexact, hrest⟩ := uniform_cons.1 huniform
    have hstop : burst.stop = min (burst.start + max step 1) total := by
      by_cases hnil : later = []
      · subst hnil
        have hend : burst.stop = total := hlater
        omega
      · have hbound := hlater.le
        have hfull := hexact hnil
        omega
    have htotal : burst.start < total := Nat.lt_of_lt_of_le hlt hlater.le
    rw [slices_of_lt htotal, ← hstop, ← ih hlater hrest]

variable {config : Config} {lead total : Nat}

/-- What is played behind the beginning is cut into steps. -/
theorem uniform_behind (config : Config) (lead total : Nat) :
    Uniform (config.stepLength total) (behind config lead total) := by
  rw [behind]
  split
  · exact uniform_slices _ _ _
  · exact uniform_nil _

/-- There is no other way to tile the rest with steps. -/
theorem eq_behind {bursts : List Burst}
    (htiles : Tiles lead bursts (if config.seek.resume then total else lead))
    (huniform : Uniform (config.stepLength total) bursts) :
    bursts = behind config lead total := by
  rw [behind]
  split at htiles
  case isTrue hresume =>
    rw [if_pos hresume]
    exact eq_slices htiles huniform
  case isFalse hresume =>
    rw [if_neg hresume]
    exact htiles.eq_nil_iff.2 rfl

/-- A plan follows the laws of plans. -/
theorem planned_planFrom (config : Config) (hlead : lead ≤ total) :
    Planned config.seek.resume lead (config.stepLength total) total
      (planFrom config lead total) := by
  have htiles : Tiles 0 (planFrom config lead total)
      (if config.seek.resume then total else lead) :=
    (tiles_inFront lead).append (tiles_behind config hlead)
  refine ⟨htiles, fun hpos => ?_, ?_, ?_⟩
  · rw [planFrom, inFront, if_pos hpos]
    rfl
  · have hlater : (if 0 < lead then (planFrom config lead total).tail
        else planFrom config lead total) = behind config lead total := by
      rw [planFrom, inFront]
      split <;> rfl
    rw [hlater]
    exact uniform_behind config lead total
  · rw [htiles.eq_nil_iff]
    cases config.seek.resume with
    | true =>
      simp only [if_true, Bool.true_eq_false, false_and, or_false]
      exact eq_comm
    | false =>
      simp only [Bool.false_eq_true, if_false, true_and]
      omega

/-- No other bursts follow them. -/
theorem Planned.eq_planFrom {bursts : List Burst}
    (h : Planned config.seek.resume lead (config.stepLength total) total bursts) :
    bursts = planFrom config lead total := by
  obtain ⟨htiles, hleading, hlater, -⟩ := h
  by_cases hpos : 0 < lead
  · rw [if_pos hpos] at hlater
    cases bursts with
    | nil => exact absurd (hleading hpos) (Option.some_ne_none _).symm
    | cons burst later =>
      obtain rfl : burst = ⟨0, lead⟩ := Option.some.inj (hleading hpos)
      rw [planFrom, inFront, if_pos hpos, ← eq_behind htiles.2.2 hlater]
      rfl
  · obtain rfl : lead = 0 := Nat.eq_zero_of_not_pos hpos
    rw [if_neg hpos] at hlater
    exact eq_behind htiles hlater

end Burst

/-! ### Rounds of a machine -/

namespace Word

variable {a b : Nat}

theorem addWide?_eq (h : a + b ≤ max128) : addWide? a b = some (a + b) :=
  if_pos h

theorem mulWide?_eq (h : a * b ≤ max128) : mulWide? a b = some (a * b) :=
  if_pos h

end Word

/-- A time in milliseconds is the same time in seconds and nanoseconds. -/
theorem Span.toMillis?_ofMillis {millis : Nat} (h : millis ≤ Word.max64) :
    (Span.ofMillis millis).toMillis? = some millis := by
  have hroom : Word.max64 ≤ Word.max128 := by decide
  have hrest : millis % 1000 * nanosPerMilli / nanosPerMilli = millis % 1000 :=
    Nat.mul_div_cancel _ (by decide)
  have hsum : millis / 1000 * 1000 + millis % 1000 = millis := Nat.div_add_mod' millis 1000
  show (Word.mulWide? (millis / 1000) 1000).bind
    (Word.addWide? · (millis % 1000 * nanosPerMilli / nanosPerMilli)) = some millis
  rw [hrest, Word.mulWide?_eq (by omega), Option.bind_some, Word.addWide?_eq (by omega), hsum]

/-- The product of a speed and an interval is no more than a wide word holds. -/
theorem ModemSpeed.burstLength?_eq {speed : ModemSpeed} {interval : Nat}
    (hspeed : ∀ bits, speed = .bps bits → bits ≤ Word.max32) (hinterval : interval ≤ Word.max64) :
    speed.burstLength? (.ofMillis interval) = some (speed.burstLength interval) := by
  cases speed with
  | unlimited => rfl
  | bps bits =>
    have hbits := hspeed bits rfl
    have hproduct : bits * interval ≤ Word.max128 :=
      Nat.le_trans (Nat.mul_le_mul hbits hinterval) (by decide)
    have hlimit : 1 ≤ Word.max64 := by decide
    have hclamp : min (max (bits * interval / 10000) 1) Word.max64 =
        max 1 (min (bits * interval / 10000) Word.max64) := by
      omega
    simp only [burstLength?, burstLength, Span.toMillis?_ofMillis hinterval,
      Word.mulWide?_eq hproduct, hclamp, Option.bind_eq_bind, Option.bind_some]

namespace Cutting

variable {total : Nat} {c : Cutting}

/-- There is no round left at the end of the stream. -/
theorem round?_of_le (step : Nat) (h : total ≤ c.start) : c.round? step total = none :=
  if_neg (Nat.not_lt.2 h)

/-- **One round** moves on, and what has been cut off and what is to come stay the same
together. -/
theorem round?_of_lt (step : Nat) (htotal : total ≤ Word.max64) (h : c.start < total) :
    ∃ next, c.round? (max step 1) total = some next ∧
      c.start < next.start ∧ next.start ≤ total ∧
      next.bursts ++ Burst.slices step next.start total =
        c.bursts ++ Burst.slices step c.start total := by
  -- a sum that saturates is past the end anyway
  have hstop : min (Word.addUpTo c.start (max step 1)) total =
      min (c.start + max step 1) total := by
    rw [Word.addUpTo]
    omega
  refine ⟨_, if_pos h, ?_⟩
  rw [hstop]
  refine ⟨Nat.lt_min.2 ⟨by omega, h⟩, Nat.min_le_right _ _, ?_⟩
  rw [Burst.slices_of_lt h, List.append_assoc, List.singleton_append]

/-- **A run of rounds** ends, and has cut the whole rest. -/
theorem run?_eq (step : Nat) (htotal : total ≤ Word.max64) {rounds : Nat} (hstart : c.start ≤ total)
    (hrounds : total - c.start < rounds) :
    c.run? (max step 1) total rounds =
      some ⟨c.bursts ++ Burst.slices step c.start total, total⟩ := by
  induction rounds generalizing c with
  | zero => exact absurd hrounds (Nat.not_lt_zero _)
  | succ rounds ih =>
    rw [run?]
    by_cases hmore : c.start < total
    · obtain ⟨next, hround, hlt, hle, hkept⟩ := round?_of_lt step htotal hmore
      rw [hround]
      show next.run? (max step 1) total rounds = _
      rw [ih hle (by omega), hkept]
    · obtain rfl : c.start = total := Nat.le_antisymm hstart (Nat.le_of_not_lt hmore)
      rw [round?_of_le _ (Nat.le_refl _), Burst.slices_of_le (Nat.le_refl _), List.append_nil]

end Cutting

namespace Burst

variable {config : Config} {lead total : Nat}

/-- The length of a step stays within words. -/
theorem stepLength?_eq (hspeed : ∀ bits, config.modemSpeed = .bps bits → bits ≤ Word.max32)
    (hinterval : config.frameInterval ≤ Word.max64) (total : Nat) :
    config.stepLength? total = some (config.stepLength total) := by
  rw [Config.stepLength?, ModemSpeed.burstLength?_eq hspeed hinterval]
  rfl

/-- Planning stays within words, and ends within as many rounds as there are bytes. -/
theorem planFrom?_eq (hspeed : ∀ bits, config.modemSpeed = .bps bits → bits ≤ Word.max32)
    (hinterval : config.frameInterval ≤ Word.max64) (htotal : total ≤ Word.max64)
    (hlead : lead ≤ total) {rounds : Nat} (hrounds : total - lead < rounds) :
    planFrom? config lead total rounds = some (planFrom config lead total) := by
  have hrun : Cutting.run? (config.stepLength total) total rounds ⟨inFront lead, lead⟩ = _ :=
    Cutting.run?_eq (config.burstLength.getD total) htotal hlead hrounds
  rw [planFrom?, planFrom, behind]
  by_cases hresume : config.seek.resume
  · simp only [if_pos hresume, stepLength?_eq hspeed hinterval, Option.bind_eq_bind,
      Option.bind_some]
    show (Cutting.run? (config.stepLength total) total rounds ⟨inFront lead, lead⟩).bind
      (fun ended => some ended.bursts) = _
    rw [hrun]
    rfl
  · simp only [if_neg hresume, List.append_nil]
    rfl

/-- The length of a step, from the speed and the frame interval. -/
theorem stepLength_eq (config : Config) (total : Nat) :
    config.stepLength total =
      match config.modemSpeed with
      | .bps bits => max 1 (min (bits * config.frameInterval / 10000) Word.max64)
      | .unlimited => max 1 total := by
  rw [Config.stepLength, Config.burstLength]
  cases config.modemSpeed with
  | unlimited => exact Nat.max_comm _ _
  | bps bits => exact Nat.max_eq_left (Nat.le_max_left _ _)

/-- **Bursts tile the stream.**  For all settings, however long the stream is and whatever
part of it is shown at once:

* The plan keeps its laws, and no other list of bursts does.  The bytes of a step are those
  of the modem's speed and the time between two frames, at least one and at most as many as
  a word counts, and all of the stream if nothing holds them back.
* A machine that computes in words finds the length of a step, and cuts the stream into the
  bursts of the plan in no more rounds than one for each byte and one more: no sum or product
  is larger than its word.
* A session's plan is the one for the part that its starting position covers. -/
theorem plans_tile_the_stream (config : Config) {lead total : Nat} (hlead : lead ≤ total) :
    let step := config.stepLength total
    (∀ bursts, Planned config.seek.resume lead step total bursts ↔
      bursts = planFrom config lead total) ∧
    (1 ≤ step ∧ step =
      match config.modemSpeed with
      | .bps bits => max 1 (min (bits * config.frameInterval / 10000) Word.max64)
      | .unlimited => max 1 total) ∧
    ((∀ bits, config.modemSpeed = .bps bits → bits ≤ Word.max32) →
      config.frameInterval ≤ Word.max64 → total ≤ Word.max64 →
        config.stepLength? total = some step ∧
        ∀ rounds, total - lead < rounds →
          planFrom? config lead total rounds = some (planFrom config lead total)) ∧
    (config.seek.lead total ≤ total ∧
      plan config total = planFrom config (config.seek.lead total) total) := by
  intro step
  refine ⟨fun bursts => ⟨Planned.eq_planFrom, ?_⟩, ⟨Nat.le_max_right _ _, stepLength_eq config total⟩,
    fun hspeed hinterval htotal => ⟨stepLength?_eq hspeed hinterval total, fun rounds => ?_⟩,
    lead_le config.seek total, plan_eq config total⟩
  · rintro rfl
    exact planned_planFrom config hlead
  · exact planFrom?_eq hspeed hinterval htotal hlead

/-- Half of thirty bytes at once, and twelve of the others in each interval. -/
theorem plans_tile_the_stream_halfway :
    let config : Config := { modemSpeed := .bps 2400 }
    let bursts : List Burst := [⟨0, 15⟩, ⟨15, 27⟩, ⟨27, 30⟩]
    15 ≤ 30 ∧ Planned true 15 12 30 bursts ∧ planFrom? config 15 30 16 = some bursts := by
  intro config bursts
  have hlead : 15 ≤ 30 := by decide
  obtain ⟨hlaws, ⟨-, hstep⟩, hwords, -⟩ := plans_tile_the_stream config hlead
  have hbits : ∀ bits, config.modemSpeed = .bps bits → bits ≤ Word.max32 := by
    intro bits hspeed
    obtain rfl : 2400 = bits := ModemSpeed.bps.inj hspeed
    decide
  have hcut : bursts = planFrom config 15 30 := by
    simp [config, bursts, planFrom, inFront, behind, slices, Config.burstLength,
      ModemSpeed.burstLength, Word.max64]
  have hlength : config.stepLength 30 = 12 := hstep.trans (by decide)
  have hplanned := (hlaws bursts).2 hcut
  have hruns := (hwords hbits (by decide) (by decide)).2 16 (by decide)
  rw [hlength] at hplanned
  exact ⟨hlead, hplanned, hruns.trans (congrArg some hcut.symm)⟩

end Burst

end BaudReel
