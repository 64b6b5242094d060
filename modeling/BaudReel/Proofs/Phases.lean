import BaudReel.Proofs.Cadence
import Mathlib.Data.Bool.Basic
import Mathlib.Order.Bounds.Basic
import Mathlib.Order.Nat

/-!
# Blink phases keep their time

A blink phase is counted in frames, of which there should be just as many as fill it
(`Config.Fills`).  The count is a quotient that is rounded up by adding to the duration, and
a sum stops at the largest word.  Where it does so the quotient may still be right: what
matters is whether the word can hold the time of all the frames.  If it cannot, the last of
them is not counted (`Config.blinkFrames_eq`), and the phase is cut short.

What a viewer sees of a phase are frames up to the one that is flipped
(`Performance.ShowsPhase`).  From where the phase begins there is only one such call
(`ShowsPhase.stop_eq`), so it is enough to find one.  Within the stream that is the call for
the burst as many bursts further as a phase has frames (`showsPhase_bursts`); where the
stream ends before, it is the first call behind it (`showsPhase_last`), and from there on
every call.  The times of these calls are those of the phases (`ShowsPhase.of_burst`,
`ShowsPhase.of_flip`).

A call shows no frame once the session has been disturbed.  So phases are those of the same
session on a stage where nothing happens (`ShowsPhase.silenced`).

The main statement is `phases_keep_their_time`.
-/

namespace BaudReel

namespace Config

variable {config : Config} {n : Nat}

/-- So many frames, but at least one, fill a blink phase. -/
def Fills (config : Config) (n : Nat) : Prop :=
  0 < n ∧ config.blinkDuration ≤ n * config.frameInterval

/-- There is a least number of frames that fill a phase. -/
theorem exists_isLeast_fills (hinterval : 0 < config.frameInterval) :
    ∃ n, IsLeast {n | config.Fills n} n := by
  classical
  have hfills : config.Fills (config.blinkDuration + 1) :=
    ⟨Nat.succ_pos _, Nat.le_trans (Nat.le_succ _) (Nat.le_mul_of_pos_right _ hinterval)⟩
  exact ⟨_, Nat.isLeast_find ⟨_, hfills⟩⟩

section Rounding

variable (hduration : 0 < config.blinkDuration) (hleast : IsLeast {n | config.Fills n} n)
include hduration hleast

/-- One frame less does not fill the phase. -/
theorem sub_one_mul_lt : (n - 1) * config.frameInterval < config.blinkDuration := by
  obtain ⟨-, hlower⟩ := hleast
  rcases Nat.eq_zero_or_pos (n - 1) with hnone | hsome
  · rw [hnone, Nat.zero_mul]
    exact hduration
  · refine Nat.lt_of_not_le fun hfilled => ?_
    have hle : n ≤ n - 1 := hlower ⟨hsome, hfilled⟩
    omega

/-- The quotient is right where a word holds the time of all the frames, and otherwise it
lacks the last of them. -/
theorem rounded_eq (hword : config.blinkDuration ≤ Word.max64) :
    min (config.blinkDuration + (config.frameInterval - 1)) Word.max64 / config.frameInterval =
      if n * config.frameInterval ≤ Word.max64 then n else n - 1 := by
  have hless := sub_one_mul_lt hduration hleast
  obtain ⟨⟨hpos, hfilled⟩, -⟩ := hleast
  obtain ⟨k, rfl⟩ : ∃ k, n = k + 1 := ⟨n - 1, by omega⟩
  rw [Nat.add_sub_cancel] at hless ⊢
  rw [Nat.succ_mul] at hfilled ⊢
  split
  case isTrue hroom =>
    apply Nat.div_eq_of_lt_le
    · rw [Nat.succ_mul]
      omega
    · rw [Nat.succ_mul, Nat.succ_mul]
      omega
  case isFalse hroom =>
    apply Nat.div_eq_of_lt_le
    · omega
    · rw [Nat.succ_mul]
      omega

/-- **The frames of a phase** are as many as fill it, up to the largest count, unless no
word holds the time of so many. -/
theorem blinkFrames_eq (hword : config.blinkDuration ≤ Word.max64)
    (hinterval : config.frameInterval ≤ Word.max64) :
    config.blinkFrames =
      if n * config.frameInterval ≤ Word.max64 ∨ Word.max32 < n then min n Word.max32
      else n - 1 := by
  have hrounded := rounded_eq hduration hleast hword
  obtain ⟨⟨hpos, hfilled⟩, -⟩ := hleast
  have hmax : max config.frameInterval 1 = config.frameInterval := by
    refine Nat.max_eq_left (Nat.pos_of_ne_zero fun hnone => ?_)
    rw [hnone, Nat.mul_zero] at hfilled
    omega
  have hone : 1 ≤ Word.max32 := by decide
  simp only [blinkFrames, hmax, hrounded]
  by_cases hroom : n * config.frameInterval ≤ Word.max64
  · rw [if_pos hroom, if_pos (.inl hroom)]
    omega
  · -- a single frame is an interval, and that is a word
    have hsome : n ≠ 1 := by
      rintro rfl
      rw [Nat.one_mul] at hroom
      exact hroom hinterval
    rw [if_neg hroom]
    split <;> omega

/-- **A phase is filled** exactly if its frames can be counted, and a word holds their
time. -/
theorem le_blinkFrames_mul_iff (hword : config.blinkDuration ≤ Word.max64)
    (hinterval : config.frameInterval ≤ Word.max64) :
    config.blinkDuration ≤ config.blinkFrames * config.frameInterval ↔
      n ≤ Word.max32 ∧ n * config.frameInterval ≤ Word.max64 := by
  have hframes := blinkFrames_eq hduration hleast hword hinterval
  have hless := sub_one_mul_lt hduration hleast
  have hfilled : config.blinkDuration ≤ n * config.frameInterval := hleast.1.2
  by_cases hexact : n ≤ Word.max32 ∧ n * config.frameInterval ≤ Word.max64
  · rw [if_pos (.inl hexact.2), Nat.min_eq_left hexact.1] at hframes
    rw [hframes]
    exact iff_of_true hfilled hexact
  · have hfew : config.blinkFrames ≤ n - 1 := by
      split at hframes <;> omega
    have hcut := Nat.mul_le_mul_right config.frameInterval hfew
    exact iff_of_false (by omega) hexact

end Rounding

/-- Phases alternate. -/
theorem not_phase (k : Nat) : (!decide (k % 2 = 1)) = decide ((k + 1) % 2 = 1) := by
  rw [← decide_not, decide_eq_decide]
  omega

/-- Behind as many frames as a phase has the next one runs. -/
theorem blinkPhase_mul (config : Config) (k : Nat) :
    config.blinkPhase (k * config.blinkFrames) = decide (k % 2 = 1) := by
  rw [blinkPhase, Nat.mul_div_cancel _ config.blinkFrames_pos]

/-- The phase of a frame tells whether whole phases before it are even or odd in number. -/
theorem blinkPhase_of_within {k count : Nat} (hle : k * config.blinkFrames ≤ count)
    (hlt : count < (k + 1) * config.blinkFrames) :
    config.blinkPhase count = decide (k % 2 = 1) := by
  rw [blinkPhase, Nat.div_eq_of_lt_le hle hlt]

/-- The phase is only flipped behind whole phases. -/
theorem dvd_of_flipped {count : Nat}
    (h : config.blinkPhase (count + 1) = !config.blinkPhase count) :
    config.blinkFrames ∣ count + 1 := by
  have hlt : count % config.blinkFrames < config.blinkFrames := Nat.mod_lt _ config.blinkFrames_pos
  rw [blinkPhase_succ] at h
  split at h
  case isTrue hlast =>
    have hwhole := config.add_blinkRest count
    have hone : config.blinkRest count = 1 := by
      unfold blinkRest at hlast ⊢
      omega
    rw [hone, ← Nat.mul_succ] at hwhole
    exact ⟨_, hwhole⟩
  case isFalse => exact absurd h (Bool.self_ne_not _)

end Config

namespace Performance

variable {σ : Type} (stage : Stage σ) (p : Performance σ)

/-- The blink phase of the frame that a call shows, if it shows one. -/
def blinkedAt (n : Nat) : Option Bool :=
  (p.result stage n).frame?.map Frame.blinked

/-- The time that has been waited for when a call shows its frame. -/
def shownAt (n : Nat) : Nat :=
  (p.waits stage (n + 1)).sum

/-- The call `start` begins a blink phase, and the call `stop` flips it.  In front of the
phase, unless it is that of the `first` call, the one before it was shown. -/
structure ShowsPhase (first start stop : Nat) (blinked : Bool) : Prop where
  first_le : first ≤ start
  lt : start < stop
  begins : start = first ∨ p.blinkedAt stage (start - 1) = some (!blinked)
  steady : ∀ n, start ≤ n → n < stop → p.blinkedAt stage n = some blinked
  ends : p.blinkedAt stage stop = some (!blinked)

/-- The same session on a stage where nothing happens. -/
def silenced (p : Performance σ) : Performance Unit :=
  ⟨p.session, p.source, ()⟩

variable {stage} {p}

/-- A free run gives the same on a silent stage. -/
theorem RunsFreely.result_silenced {n : Nat} (h : p.RunsFreely stage (n + 1)) :
    p.result stage n = p.silenced.result .silent n :=
  h.result_eq.trans (runsFreely_silent p.silenced _).result_eq.symm

theorem RunsFreely.waits_silenced {n : Nat} (h : p.RunsFreely stage n) :
    p.waits stage n = p.silenced.waits .silent n := by
  induction n with
  | zero => rfl
  | succ n ih =>
    rw [h.waits_succ, (runsFreely_silent p.silenced _).waits_succ, ih (h.mono (Nat.le_succ n))]
    rfl

theorem RunsFreely.shownAt_silenced {n : Nat} (h : p.RunsFreely stage (n + 1)) :
    p.shownAt stage n = p.silenced.shownAt .silent n :=
  congrArg List.sum h.waits_silenced

/-- A call with a blink phase shows a frame in this phase. -/
theorem exists_of_blinkedAt {n : Nat} {blinked : Bool}
    (h : p.blinkedAt stage n = some blinked) :
    ∃ f, p.result stage n = .frame f ∧ f.blinked = blinked := by
  obtain ⟨f, hframe, hblinked⟩ := Option.map_eq_some_iff.1 h
  cases hresult : p.result stage n with
  | frame g =>
    rw [hresult] at hframe
    obtain rfl : g = f := Option.some.inj hframe
    exact ⟨g, rfl, hblinked⟩
  | ended =>
    rw [hresult] at hframe
    exact absurd hframe.symm (Option.some_ne_none f)
  | brokenOff =>
    rw [hresult] at hframe
    exact absurd hframe.symm (Option.some_ne_none f)

/-- A call that shows a frame has the blink phase of the frame. -/
theorem blinkedAt_of_result {n : Nat} {f : Frame} (h : p.result stage n = .frame f) :
    p.blinkedAt stage n = some f.blinked := by
  rw [blinkedAt, h]
  rfl

namespace ShowsPhase

variable {first start stop : Nat} {blinked : Bool}

/-- Nothing has disturbed the session up to the end of the phase. -/
theorem runsFreely (h : p.ShowsPhase stage first start stop blinked) :
    p.RunsFreely stage (stop + 1) := by
  obtain ⟨f, hframe, -⟩ := exists_of_blinkedAt h.ends
  exact runsFreely_of_result hframe

/-- A phase that is shown in a free run is shown on a silent stage, too. -/
theorem silenced (h : p.ShowsPhase stage first start stop blinked) :
    p.silenced.ShowsPhase .silent first start stop blinked := by
  have hsame : ∀ n, n ≤ stop → p.silenced.blinkedAt .silent n = p.blinkedAt stage n := by
    intro n hn
    have hfree := h.runsFreely.mono (Nat.succ_le_succ hn)
    rw [blinkedAt, blinkedAt, hfree.result_silenced]
  have hlt := h.lt
  refine ⟨h.first_le, hlt, ?_, fun n hle hn => ?_, ?_⟩
  · rw [hsame _ (by omega)]
    exact h.begins
  · rw [hsame n (Nat.le_of_lt hn)]
    exact h.steady n hle hn
  · rw [hsame stop (Nat.le_refl stop)]
    exact h.ends

/-- **A phase ends once.** -/
theorem stop_eq (h : p.ShowsPhase stage first start stop blinked) {other : Nat}
    (hlt : start < other)
    (hsteady : ∀ n, start ≤ n → n < other → p.blinkedAt stage n = some blinked)
    (hends : p.blinkedAt stage other ≠ some blinked) : stop = other := by
  rcases Nat.lt_trichotomy stop other with hless | heq | hgreater
  · have hflipped := (hsteady stop (Nat.le_of_lt h.lt) hless).symm.trans h.ends
    exact absurd (Option.some.inj hflipped) (Bool.self_ne_not blinked)
  · exact heq
  · exact absurd (h.steady other (Nat.le_of_lt hlt) hgreater) hends

/-- A phase has one end. -/
theorem stop_unique (h : p.ShowsPhase stage first start stop blinked) {other : Nat}
    (hother : p.ShowsPhase stage first start other blinked) : stop = other := by
  refine h.stop_eq hother.lt hother.steady ?_
  rw [hother.ends]
  exact fun heq => Bool.self_ne_not blinked (Option.some.inj heq).symm

end ShowsPhase

section Bursts

variable {world : σ} {config : Config} {sustain : Bool} {source : Source}
  (hfree : ∀ n, (fresh config sustain source world).RunsFreely stage n)
include hfree

/-- The frame of a burst is shown as many frame intervals after the first as its number says. -/
theorem shownAt_burst {i : Nat} (hi : i < (Burst.plan config source.yield.data.length).length) :
    (fresh config sustain source world).shownAt stage (source.leadIn + i) =
      i * config.frameInterval := by
  rw [shownAt, waits_burst hi (hfree _), List.sum_replicate_nat]

/-- Where there are no bursts, nothing is shown behind the blank frame. -/
theorem blinkedAt_of_plan_eq_nil (hnil : Burst.plan config source.yield.data.length = [])
    (j : Nat) :
    (fresh config sustain source world).blinkedAt stage (source.leadIn + 1 + j) = none := by
  have hconfig := (Session.readied_eq config sustain source).1
  rw [← hconfig] at hnil
  have hturns := Session.turns_add (Session.unbegun config sustain) source source.leadIn 1
  have hdone : ((Session.unbegun config sustain).turns source (source.leadIn + 1)).1.phase =
      .done := by
    obtain ⟨-, status, strings, hsession⟩ :=
      (Session.readied config sustain source).playNothing_fst_snd source.yield
    rw [hturns, Session.turns_leadIn]
    show ((Session.readied config sustain source).turn source.entered).session.phase = _
    rw [(Session.turn_entered config sustain source).2, Session.begin_eq_playNothing hnil]
    exact congrArg Session.phase hsession
  rw [blinkedAt, (ends_behind hfree hdone j).1]
  rfl

variable (henabled : config.blinkMode.isEnabled = true)
include henabled

/-- The frame of a burst is shown in the phase that its number has. -/
theorem blinkedAt_burst {i : Nat}
    (hi : i < (Burst.plan config source.yield.data.length).length) :
    (fresh config sustain source world).blinkedAt stage (source.leadIn + i) =
      some (config.blinkPhase i) := by
  obtain ⟨f, hframe, hblinked⟩ := shown_in_phase hfree henabled hi
  rw [blinkedAt_of_result hframe, hblinked]

/-- Behind the last burst every call flips the phase once more, and what is waited before
the first of them makes the phase a whole one; or nothing is shown any more. -/
theorem flips_or_ends {counted : Nat}
    (hlast : counted + 1 = (Burst.plan config source.yield.data.length).length) :
    let p := fresh config sustain source world
    let behind := source.leadIn + (counted + 1)
    let began := source.leadIn + counted / config.blinkFrames * config.blinkFrames
    ∃ last, p.result stage (source.leadIn + counted) = .frame last ∧
      if Session.blinksOn config sustain last then
        ∀ j, p.blinkedAt stage (behind + j) = some (not^[j + 1] last.blinked) ∧
          p.shownAt stage (behind + j) = p.shownAt stage began +
            config.blinkFrames * config.frameInterval + j * config.blinkDuration
      else ∀ j, p.blinkedAt stage (behind + j) = none := by
  intro p behind began
  have hcounted : counted < (Burst.plan config source.yield.data.length).length :=
    Nat.lt_of_succ_le (Nat.le_of_eq hlast)
  obtain ⟨last, hshown, hbehind⟩ := behind_bursts hfree henabled hlast
  refine ⟨last, hshown, ?_⟩
  split at hbehind
  case isTrue hon =>
    have hbefore : p.waits stage behind = List.replicate counted config.frameInterval :=
      waits_burst hcounted (hfree _)
    have hwhole := sum_waits_behind hfree hcounted
    rw [Nat.mul_comm config.blinkFrames (_ / _)] at hwhole
    rw [if_pos hon]
    intro j
    obtain ⟨hframe, hwaits⟩ := flips_behind hfree hbehind j
    refine ⟨blinkedAt_of_result hframe, ?_⟩
    calc p.shownAt stage (behind + j)
        = ((List.replicate counted config.frameInterval ++
            [config.frameInterval * config.blinkRest counted]) ++
            List.replicate j config.blinkDuration).sum := by
          rw [← hbefore, List.append_assoc]
          exact congrArg List.sum hwaits
      _ = p.shownAt stage began + config.blinkFrames * config.frameInterval +
            j * config.blinkDuration := by
          rw [List.sum_append, hwhole, List.sum_replicate_nat]
          rfl
  case isFalse hover =>
    rw [if_neg hover]
    intro j
    rw [blinkedAt, (ends_behind hfree hbehind j).1]
    rfl

/-- Within as many frames as a phase has, it is not flipped. -/
theorem blinkedAt_within {k i : Nat} (hle : k * config.blinkFrames ≤ i)
    (hlt : i < (k + 1) * config.blinkFrames)
    (hi : i < (Burst.plan config source.yield.data.length).length) :
    (fresh config sustain source world).blinkedAt stage (source.leadIn + i) =
      some (decide (k % 2 = 1)) := by
  rw [blinkedAt_burst hfree henabled hi, Config.blinkPhase_of_within hle hlt]

/-- A phase begins behind whole phases. -/
theorem begins_bursts {k : Nat}
    (hk : k * config.blinkFrames < (Burst.plan config source.yield.data.length).length) :
    source.leadIn + k * config.blinkFrames = source.leadIn ∨
      (fresh config sustain source world).blinkedAt stage
        (source.leadIn + k * config.blinkFrames - 1) = some (!decide (k % 2 = 1)) := by
  have hpos := config.blinkFrames_pos
  cases k with
  | zero => exact .inl (by rw [Nat.zero_mul, Nat.add_zero])
  | succ k =>
    have hlonger : (k + 1) * config.blinkFrames = k * config.blinkFrames + config.blinkFrames :=
      Nat.succ_mul _ _
    have hcall : source.leadIn + (k + 1) * config.blinkFrames - 1 =
        source.leadIn + ((k + 1) * config.blinkFrames - 1) := by omega
    refine .inr ?_
    rw [hcall, blinkedAt_within hfree henabled (k := k) (by omega) (by omega) (by omega),
      ← Config.not_phase k, Bool.not_not]

/-- **A phase within the stream** begins with the burst behind whole phases, and lasts for as
many bursts as it has frames. -/
theorem showsPhase_bursts {k : Nat}
    (hk : (k + 1) * config.blinkFrames < (Burst.plan config source.yield.data.length).length) :
    (fresh config sustain source world).ShowsPhase stage source.leadIn
      (source.leadIn + k * config.blinkFrames) (source.leadIn + (k + 1) * config.blinkFrames)
      (decide (k % 2 = 1)) := by
  have hpos := config.blinkFrames_pos
  have hlonger : (k + 1) * config.blinkFrames = k * config.blinkFrames + config.blinkFrames :=
    Nat.succ_mul _ _
  refine ⟨Nat.le_add_right _ _, by omega, begins_bursts hfree henabled (by omega),
    fun n hle hlt => ?_, ?_⟩
  · obtain ⟨i, rfl⟩ := Nat.exists_eq_add_of_le (Nat.le_trans (Nat.le_add_right _ _) hle)
    exact blinkedAt_within hfree henabled (by omega) (by omega) (by omega)
  · rw [blinkedAt_burst hfree henabled hk, Config.blinkPhase_mul, Config.not_phase]

/-- The frames of the phase that the stream ends in show that phase. -/
theorem blinkedAt_last {counted : Nat}
    (hlast : counted + 1 = (Burst.plan config source.yield.data.length).length) {n : Nat}
    (hle : source.leadIn + counted / config.blinkFrames * config.blinkFrames ≤ n)
    (hlt : n < source.leadIn + (counted + 1)) :
    (fresh config sustain source world).blinkedAt stage n =
      some (decide (counted / config.blinkFrames % 2 = 1)) := by
  obtain ⟨i, rfl⟩ := Nat.exists_eq_add_of_le (Nat.le_trans (Nat.le_add_right _ _) hle)
  have hwithin : counted < (counted / config.blinkFrames + 1) * config.blinkFrames := by
    rw [Nat.succ_mul]
    exact Nat.lt_div_mul_add config.blinkFrames_pos
  exact blinkedAt_within hfree henabled (by omega) (by omega) (by omega)

/-- **The phase that the stream ends in** lasts up to the first call behind it, if there is
one. -/
theorem showsPhase_last {counted : Nat}
    (hlast : counted + 1 = (Burst.plan config source.yield.data.length).length) {f : Frame}
    (hshown : (fresh config sustain source world).result stage (source.leadIn + counted) = .frame f)
    (hon : Session.blinksOn config sustain f = true) :
    (fresh config sustain source world).ShowsPhase stage source.leadIn
      (source.leadIn + counted / config.blinkFrames * config.blinkFrames)
      (source.leadIn + (counted + 1)) (decide (counted / config.blinkFrames % 2 = 1)) := by
  have hwhole := Nat.div_mul_le_self counted config.blinkFrames
  obtain ⟨last, hframe, hbehind⟩ := flips_or_ends hfree henabled hlast
  obtain rfl : f = last := Step.frame.inj (hshown.symm.trans hframe)
  rw [if_pos hon] at hbehind
  have hphase : f.blinked = decide (counted / config.blinkFrames % 2 = 1) := Option.some.inj
    ((blinkedAt_of_result hshown).symm.trans
      (blinkedAt_last hfree henabled hlast (by omega) (by omega)))
  refine ⟨Nat.le_add_right _ _, by omega, begins_bursts hfree henabled (by omega),
    fun n hle hlt => blinkedAt_last hfree henabled hlast hle hlt, ?_⟩
  rw [← hphase]
  exact (hbehind 0).1

namespace ShowsPhase

variable {start stop : Nat} {blinked : Bool}
  (h : (fresh config sustain source world).ShowsPhase stage source.leadIn start stop blinked)
include h

/-- A phase that begins with a burst does so where the frames before it make up whole
phases. -/
theorem exists_start_eq
    (hburst : start < source.leadIn + (Burst.plan config source.yield.data.length).length) :
    ∃ k, start = source.leadIn + k * config.blinkFrames ∧ blinked = decide (k % 2 = 1) := by
  obtain ⟨s, rfl⟩ := Nat.exists_eq_add_of_le h.first_le
  have hs : s < (Burst.plan config source.yield.data.length).length := by omega
  have hblinked : config.blinkPhase s = blinked := Option.some.inj
    ((blinkedAt_burst hfree henabled hs).symm.trans (h.steady _ (Nat.le_refl _) h.lt))
  have hwhole : config.blinkFrames ∣ s := by
    cases s with
    | zero => exact Nat.dvd_zero _
    | succ s =>
      rcases h.begins with hfirst | hflipped
      · omega
      · -- the burst before was shown in the other phase, which is over then
        have hbefore := blinkedAt_burst hfree henabled (Nat.lt_of_succ_lt hs)
        have hflip := Option.some.inj (hbefore.symm.trans hflipped)
        refine Config.dvd_of_flipped ?_
        rw [hblinked, hflip, Bool.not_not]
  obtain ⟨k, rfl⟩ := hwhole
  rw [Nat.mul_comm, Config.blinkPhase_mul] at hblinked
  exact ⟨k, by rw [Nat.mul_comm], hblinked.symm⟩

/-- **A phase that begins with a burst** takes the time of all its frames.  It lasts for as
many bursts as there are frames, or up to the first call behind the stream. -/
theorem of_burst
    (hburst : start < source.leadIn + (Burst.plan config source.yield.data.length).length) :
    (fresh config sustain source world).shownAt stage stop =
      (fresh config sustain source world).shownAt stage start +
        config.blinkFrames * config.frameInterval := by
  obtain ⟨k, rfl, rfl⟩ := h.exists_start_eq hfree henabled hburst
  by_cases hnext :
      (k + 1) * config.blinkFrames < (Burst.plan config source.yield.data.length).length
  · rw [h.stop_unique (showsPhase_bursts hfree henabled hnext), shownAt_burst hfree hnext,
      shownAt_burst hfree (by omega), Nat.succ_mul, Nat.add_mul]
  · -- the stream ends first, so that only a call behind it can flip the phase
    obtain ⟨counted, hlast⟩ : ∃ counted,
        counted + 1 = (Burst.plan config source.yield.data.length).length :=
      ⟨_, Nat.sub_add_cancel (by omega)⟩
    obtain rfl : counted / config.blinkFrames = k :=
      Nat.div_eq_of_lt_le (by omega) (by omega)
    obtain ⟨f, hshown, hbehind⟩ := flips_or_ends hfree henabled hlast
    split at hbehind
    case isTrue hon =>
      rw [h.stop_unique (showsPhase_last hfree henabled hlast hshown hon)]
      have htime := (hbehind 0).2
      rw [Nat.zero_mul] at htime
      exact htime
    case isFalse =>
      have hover : _ = none := hbehind 0
      have hstop : stop = source.leadIn + (counted + 1) := by
        refine h.stop_eq (by omega)
          (fun n hle hlt => blinkedAt_last hfree henabled hlast hle hlt) ?_
        rw [← Nat.add_zero (_ + _), hover]
        exact (Option.some_ne_none _).symm
      rw [Nat.add_zero, ← hstop, h.ends] at hover
      exact absurd hover (Option.some_ne_none _)

/-- **A phase that begins behind the stream** lasts as long as the settings say. -/
theorem of_flip
    (hbehind : source.leadIn + (Burst.plan config source.yield.data.length).length ≤ start) :
    (fresh config sustain source world).shownAt stage stop =
      (fresh config sustain source world).shownAt stage start + config.blinkDuration := by
  cases hbursts : (Burst.plan config source.yield.data.length).length with
  | zero =>
    have hfirst := h.first_le
    have hlt := h.lt
    obtain ⟨j, rfl⟩ : ∃ j, stop = source.leadIn + 1 + j := Nat.exists_eq_add_of_le (by omega)
    have hover := blinkedAt_of_plan_eq_nil hfree (List.length_eq_zero_iff.1 hbursts) j
    exact absurd (h.ends.symm.trans hover) (Option.some_ne_none _)
  | succ counted =>
    rw [hbursts] at hbehind
    obtain ⟨j, rfl⟩ := Nat.exists_eq_add_of_le hbehind
    have hshown := h.steady _ (Nat.le_refl _) h.lt
    obtain ⟨f, -, hflips⟩ := flips_or_ends hfree henabled hbursts.symm
    split at hflips
    case isTrue =>
      obtain ⟨hphase, htime⟩ := hflips j
      obtain ⟨hflipped, htimeNext⟩ := hflips (j + 1)
      have hstop : stop = source.leadIn + (counted + 1) + (j + 1) := by
        refine h.stop_eq (Nat.lt_succ_self _) (fun n hle hlt => ?_) ?_
        · rw [Nat.le_antisymm (Nat.le_of_lt_succ hlt) hle]
          exact hshown
        · obtain rfl : _ = blinked := Option.some.inj (hphase.symm.trans hshown)
          rw [hflipped, Function.iterate_succ_apply']
          exact fun heq => Bool.self_ne_not _ (Option.some.inj heq).symm
      rw [hstop, htime, htimeNext, Nat.succ_mul, ← Nat.add_assoc]
    case isFalse => exact absurd (hshown.symm.trans (hflips j)) (Option.some_ne_none _)

end ShowsPhase

end Bursts

section Run

variable {world : σ} {config : Config} {sustain : Bool} {source : Source} {start stop : Nat}
  {blinked : Bool}

/-- Only a session that blinks has phases that end. -/
theorem ShowsPhase.isEnabled
    (h : (fresh config sustain source world).ShowsPhase stage source.leadIn start stop blinked) :
    config.blinkMode.isEnabled = true := by
  cases hmode : config.blinkMode with
  | off =>
    obtain ⟨f, hf, hsteady⟩ := exists_of_blinkedAt (h.steady start (Nat.le_refl _) h.lt)
    obtain ⟨g, hg, hflipped⟩ := exists_of_blinkedAt h.ends
    rw [blinked_eq_false hmode hf] at hsteady
    rw [blinked_eq_false hmode hg, ← hsteady] at hflipped
    exact absurd hflipped Bool.false_ne_true
  | auto => rfl
  | host => rfl

/-- **The time of a phase,** whatever the stage is. -/
theorem ShowsPhase.shownAt_eq
    (h : (fresh config sustain source world).ShowsPhase stage source.leadIn start stop blinked) :
    (fresh config sustain source world).shownAt stage stop =
      (fresh config sustain source world).shownAt stage start +
        if start < source.leadIn + (Burst.plan config source.yield.data.length).length then
          config.blinkFrames * config.frameInterval
        else config.blinkDuration := by
  have hquiet : (fresh config sustain source ()).ShowsPhase .silent source.leadIn start stop
      blinked := h.silenced
  have hfree : ∀ n, (fresh config sustain source ()).RunsFreely .silent n := runsFreely_silent _
  rw [h.runsFreely.shownAt_silenced,
    (h.runsFreely.mono (Nat.succ_le_succ (Nat.le_of_lt h.lt))).shownAt_silenced]
  split
  case isTrue hburst => exact hquiet.of_burst hfree h.isEnabled hburst
  case isFalse hbehind => exact hquiet.of_flip hfree h.isEnabled (Nat.le_of_not_lt hbehind)

end Run

/-- **Blink phases keep their time,** as far as words can hold it.

Let settings pass the check, with an interval and a duration that are words, and let `n` be
the least number of frames, one at least, that fill the duration.

* A phase has `n` frames, or the largest 32-bit word if that is less.  But if no word holds
  the time of `n` frames, and they could be counted, it has one less.
* So its frames fill the duration exactly if they can be counted, and a word holds their
  time.  They never take longer than that by a whole interval.
* A phase that is shown up to its end takes the time of all its frames if it begins within
  the stream, even if the stream ends before the phase does.  Behind the stream it takes the
  duration.
* Where nothing disturbs a session that blinks, phases within the stream are shown for as
  many bursts as they have frames.  The one that the stream ends in is shown up to the first
  call behind it, if the last frame blinks on.

For the phases that are shown it does not matter what the stage is, and whether the session
is disturbed later. -/
theorem phases_keep_their_time {σ : Type} (stage : Stage σ) (world : σ) {config : Config}
    (hfault : config.fault? = none) (hinterval : config.frameInterval ≤ Word.max64)
    (hduration : config.blinkDuration ≤ Word.max64) (sustain : Bool) (source : Source) :
    let p := fresh config sustain source world
    let bursts := (Burst.plan config source.yield.data.length).length
    let first := source.leadIn
    let interval := config.frameInterval
    let duration := config.blinkDuration
    let frames := config.blinkFrames
    ∃ n, IsLeast {n | 0 < n ∧ duration ≤ n * interval} n ∧
      (n * interval ≤ Word.max64 ∨ Word.max32 < n → frames = min n Word.max32) ∧
      (Word.max64 < n * interval → n ≤ Word.max32 → frames = n - 1) ∧
      (duration ≤ frames * interval ↔ n ≤ Word.max32 ∧ n * interval ≤ Word.max64) ∧
      frames * interval < duration + interval ∧
      (∀ start stop blinked, p.ShowsPhase stage first start stop blinked →
        let time := if start < first + bursts then frames * interval else duration
        p.shownAt stage stop = p.shownAt stage start + time ∧ time < duration + interval ∧
          (n ≤ Word.max32 → n * interval ≤ Word.max64 → duration ≤ time)) ∧
      ((∀ m, p.RunsFreely stage m) → config.blinkMode.isEnabled = true →
        (∀ k, (k + 1) * frames < bursts → p.ShowsPhase stage first (first + k * frames)
          (first + (k + 1) * frames) (decide (k % 2 = 1))) ∧
        ∀ counted f, counted + 1 = bursts → p.result stage (first + counted) = .frame f →
          Session.blinksOn config sustain f = true → p.ShowsPhase stage first
            (first + counted / frames * frames) (first + bursts)
            (decide (counted / frames % 2 = 1))) := by
  intro p bursts first interval duration frames
  obtain ⟨hsome, hlong⟩ := Config.times_of_fault? hfault
  obtain ⟨n, hleast⟩ := Config.exists_isLeast_fills hsome
  have hframes := Config.blinkFrames_eq hlong hleast hduration hinterval
  have hfilled := Config.le_blinkFrames_mul_iff hlong hleast hduration hinterval
  have hfit : frames * interval < duration + interval := by
    rw [Nat.mul_comm]
    exact Config.interval_mul_frames_lt hsome hlong
  refine ⟨n, hleast, fun hheld => hframes.trans (if_pos hheld), fun hover hcounted => ?_, hfilled,
    hfit, ?_, ?_⟩
  · exact hframes.trans (if_neg fun hheld => hheld.elim (Nat.not_le_of_lt hover)
      (Nat.not_lt_of_le hcounted))
  · intro start stop blinked hphase time
    refine ⟨hphase.shownAt_eq, ?_, fun hcounted hheld => ?_⟩
    · show (if _ then frames * interval else duration) < duration + interval
      split
      case isTrue => exact hfit
      case isFalse => exact Nat.lt_add_of_pos_right hsome
    · show duration ≤ if _ then frames * interval else duration
      split
      case isTrue => exact hfilled.2 ⟨hcounted, hheld⟩
      case isFalse => exact Nat.le_refl _
  · intro hfree henabled
    refine ⟨fun k hk => showsPhase_bursts hfree henabled hk, ?_⟩
    intro counted f hlast hshown hon
    rw [← hlast]
    exact showsPhase_last hfree henabled hlast hshown hon

/-- Whatever the pace, a glyph that blinks has a phase that begins within the stream and ends
behind it, and it takes the time of its frames. -/
theorem exists_showsPhase_blinking (speed : ModemSpeed) (interval duration : Nat) :
    let config : Config :=
      { modemSpeed := speed, frameInterval := interval, blinkDuration := duration
        blinkMode := .auto, minWidth := 1, minHeight := 1, maxWidth := 1, maxHeight := 1 }
    let p := fresh config true (.bytes blinking) (Rehearsal.fresh 0 0)
    ∃ start stop blinked, p.ShowsPhase Rehearsal.stage 0 start stop blinked ∧
      p.shownAt Rehearsal.stage stop =
        p.shownAt Rehearsal.stage start + config.blinkFrames * interval := by
  intro config p
  obtain ⟨hfree, m, f, hstops, hblinks⟩ := exists_stopsAt_blinking speed interval duration
  obtain ⟨counted, hlast⟩ : ∃ counted,
      counted + 1 = (Burst.plan config blinking.length).length :=
    ⟨_, Nat.sub_add_cancel (List.length_pos_iff.2 (hstops.plan_ne_nil hblinks))⟩
  have hm : m = 0 + counted := by
    have hcall : m = 0 + ((Burst.plan config blinking.length).length - 1) := hstops.eq_lastCall
    omega
  have hshown : p.result Rehearsal.stage (0 + counted) = .frame f := hm ▸ hstops.shown
  have hphase := showsPhase_last hfree rfl hlast hshown hblinks
  have hburst : 0 + counted / config.blinkFrames * config.blinkFrames <
      0 + (Burst.plan config blinking.length).length := by
    have hwhole := Nat.div_mul_le_self counted config.blinkFrames
    omega
  exact ⟨_, _, _, hphase, hphase.of_burst hfree rfl hburst⟩

/-- Five frames make up the largest word, and fill a phase that is as long.  The sum that is
divided to count them stops at the largest word, and the count is right all the same. -/
theorem phases_keep_their_time_saturated :
    let config : Config :=
      { modemSpeed := .unlimited, frameInterval := 3689348814741910323
        blinkDuration := 18446744073709551615, blinkMode := .auto
        minWidth := 1, minHeight := 1, maxWidth := 1, maxHeight := 1 }
    let p := fresh config true (.bytes blinking) (Rehearsal.fresh 0 0)
    (config.fault? = none ∧ config.frameInterval ≤ Word.max64 ∧
      config.blinkDuration ≤ Word.max64) ∧
      config.blinkFrames = 5 ∧
      ∃ start stop blinked, p.ShowsPhase Rehearsal.stage 0 start stop blinked ∧
        p.shownAt Rehearsal.stage start + config.blinkDuration ≤
          p.shownAt Rehearsal.stage stop ∧
        p.shownAt Rehearsal.stage stop <
          p.shownAt Rehearsal.stage start + config.blinkDuration + config.frameInterval := by
  intro config p
  have hfault : config.fault? = none := by decide +kernel
  have hinterval : config.frameInterval ≤ Word.max64 := by decide
  have hduration : config.blinkDuration ≤ Word.max64 := by decide
  obtain ⟨start, stop, blinked, hphase, -⟩ := exists_showsPhase_blinking .unlimited
    config.frameInterval config.blinkDuration
  obtain ⟨n, hleast, hframes, -, -, -, htimes, -⟩ := phases_keep_their_time Rehearsal.stage
    (Rehearsal.fresh 0 0) hfault hinterval hduration true (.bytes blinking)
  have hfive : IsLeast {n | config.Fills n} 5 :=
    ⟨⟨by decide, by decide⟩, fun k ⟨_, hk⟩ => by
      have hk : 18446744073709551615 ≤ k * 3689348814741910323 := hk
      omega⟩
  obtain rfl : n = 5 := IsLeast.unique hleast hfive
  obtain ⟨htime, hlimit, hfilled⟩ := htimes start stop blinked hphase
  have hfill := hfilled (by decide) (by decide)
  refine ⟨⟨hfault, hinterval, hduration⟩, hframes (.inl (by decide)), start, stop, blinked,
    hphase, ?_, ?_⟩
  · rw [htime]
    exact Nat.add_le_add_left hfill _
  · rw [htime, Nat.add_assoc]
    exact Nat.add_lt_add_left hlimit _

/-- Two frames that are one short of the largest word fill a phase that is as long as that
word, but one is counted: the sum of the duration and an interval stops at the largest word,
in which there is no second one.  So the phase is over before its time. -/
theorem phase_beyond_words_is_cut_short :
    let config : Config :=
      { modemSpeed := .unlimited, frameInterval := 18446744073709551614
        blinkDuration := 18446744073709551615, blinkMode := .auto
        minWidth := 1, minHeight := 1, maxWidth := 1, maxHeight := 1 }
    let p := fresh config true (.bytes blinking) (Rehearsal.fresh 0 0)
    (config.fault? = none ∧ config.frameInterval ≤ Word.max64 ∧
      config.blinkDuration ≤ Word.max64) ∧
      IsLeast {n | 0 < n ∧ config.blinkDuration ≤ n * config.frameInterval} 2 ∧
      config.blinkFrames = 1 ∧ config.blinkFrames ≠ min 2 Word.max32 ∧
      ∃ start stop blinked, p.ShowsPhase Rehearsal.stage 0 start stop blinked ∧
        p.shownAt Rehearsal.stage stop <
          p.shownAt Rehearsal.stage start + config.blinkDuration := by
  intro config p
  have hfault : config.fault? = none := by decide +kernel
  have hframes : config.blinkFrames = 1 := by decide
  have htwo : IsLeast {n | 0 < n ∧ config.blinkDuration ≤ n * config.frameInterval} 2 :=
    ⟨⟨by decide, by decide⟩, fun k ⟨_, hk⟩ => by
      have hk : 18446744073709551615 ≤ k * 18446744073709551614 := hk
      omega⟩
  obtain ⟨start, stop, blinked, hphase, htime⟩ := exists_showsPhase_blinking .unlimited
    config.frameInterval config.blinkDuration
  have htime : p.shownAt Rehearsal.stage stop =
      p.shownAt Rehearsal.stage start + config.blinkFrames * config.frameInterval := htime
  rw [hframes] at htime
  refine ⟨⟨hfault, by decide, by decide⟩, htwo, hframes, by rw [hframes]; decide, start, stop,
    blinked, hphase, ?_⟩
  rw [htime]
  exact Nat.add_lt_add_left (by decide) _

end Performance

end BaudReel
