import BaudReel.Proofs.Opening
import BaudReel.Proofs.Pacing

/-!
# The life of a session

A session that nothing disturbs shows a placeholder if its source has to be
acquired first.  Then it shows one frame for each burst, and one for none, of which
only the last says that nothing more is played.  Behind that it either blinks on
for ever or shows nothing ever again (`Plays`).

How many frames there are is read off the bursts one by one: a burst that others
follow puts one frame in front of the course of those (`Plays.cons`), and the last
burst decides what comes behind it (`plays_last`).  `life_of_a_session` puts this
together with the source, which is opened by the call behind the placeholder and
by no other.
-/

namespace BaudReel

namespace Session

/-- Whether a session goes on behind the last frame of its stream. -/
def blinksOn (config : Config) (sustain : Bool) (last : Frame) : Bool :=
  sustain && config.blinkMode == .auto && last.willBlink

/-- A course of `count` frames, none of them a placeholder, of which only the last
says that nothing more is played.  Behind it there are frames for ever if it goes
on, and none at all if not. -/
structure Plays (course : Nat → Step) (count : Nat) (goesOn : Frame → Bool) : Prop where
  shown : ∀ i < count, ∃ f, course i = .frame f ∧ f.metadata ≠ none ∧
    f.status.playing = decide (i + 1 < count)
  behind : ∃ last, course (count - 1) = .frame last ∧
    if goesOn last then ∀ n, ∃ f, course (count + n) = .frame f
    else ∀ n, course (count + n) = .ended

section Course

variable {s : Session} {source : Source}

/-- A session that is over gives nothing more. -/
theorem outcome_of_done (h : s.phase = .done) (n : Nat) : s.outcome source n = .ended := by
  induction n with
  | zero =>
    rw [outcome_eq_course, turn_of_done h]
    rfl
  | succ n ih =>
    rw [outcome_eq_course, turn_of_done h]
    exact ih

/-- A session that sustains gives frames for good. -/
theorem outcome_of_sustaining {last : Frame} {begun : Bool} (h : s.phase = .sustaining last begun)
    (n : Nat) : ∃ f, s.outcome source n = .frame f := by
  induction n generalizing s begun with
  | zero =>
    rw [outcome_eq_course, turn_of_sustaining h]
    exact ⟨_, rfl⟩
  | succ n ih =>
    have hflipped : (s.flip last).2.phase = .sustaining last true := rfl
    rw [outcome_eq_course, turn_of_sustaining h]
    exact ih hflipped

/-- The last frame of a stream, and what its session comes to. -/
theorem plays_last {course : Nat → Step} {last : Frame} {goesOn : Frame → Bool} {t : Session}
    (hshown : course 0 = .frame last) (hmetadata : last.metadata ≠ none)
    (hstopped : last.status.playing = false)
    (hbehind : ∀ n, course (n + 1) = t.outcome source n)
    (hphase : t.phase = if goesOn last then .sustaining last false else .done) :
    Plays course 1 goesOn := by
  refine ⟨?_, last, hshown, ?_⟩
  · intro i hi
    obtain rfl : i = 0 := Nat.lt_one_iff.1 hi
    exact ⟨last, hshown, hmetadata, hstopped⟩
  · split at hphase
    case isTrue hgoesOn =>
      rw [if_pos hgoesOn]
      intro n
      rw [Nat.add_comm, hbehind]
      exact outcome_of_sustaining hphase n
    case isFalse hends =>
      rw [if_neg hends]
      intro n
      rw [Nat.add_comm, hbehind]
      exact outcome_of_done hphase n

/-- One more frame in front. -/
theorem Plays.cons {course later : Nat → Step} {count : Nat} {goesOn : Frame → Bool} {f : Frame}
    (hlater : Plays later (count + 1) goesOn) (hshown : course 0 = .frame f)
    (hmetadata : f.metadata ≠ none) (hplaying : f.status.playing = true)
    (hcourse : ∀ n, course (n + 1) = later n) : Plays course (count + 2) goesOn := by
  refine ⟨?_, ?_⟩
  · intro i hi
    cases i with
    | zero => exact ⟨f, hshown, hmetadata, hplaying.trans (decide_eq_true (by omega)).symm⟩
    | succ i =>
      obtain ⟨g, hg, hgmetadata, hgplaying⟩ := hlater.shown i (by omega)
      refine ⟨g, (hcourse i).trans hg, hgmetadata, hgplaying.trans ?_⟩
      rw [decide_eq_decide]
      omega
  · obtain ⟨last, hlast, hbehind⟩ := hlater.behind
    have hshift : ∀ n, course (count + 2 + n) = later (count + 1 + n) := by
      intro n
      rw [← hcourse]
      congr 1
      omega
    refine ⟨last, (hcourse count).trans hlast, ?_⟩
    split at hbehind
    case isTrue hgoesOn =>
      rw [if_pos hgoesOn]
      intro n
      rw [hshift]
      exact hbehind n
    case isFalse hends =>
      rw [if_neg hends]
      intro n
      rw [hshift]
      exact hbehind n

/-- **A run of bursts** shows a frame for each of them. -/
theorem plays_playBurst (s : Session) (source : Source) (reel : Reel) (burst : Burst)
    (later : List Burst) :
    Plays (Turn.ofMade source (s.playBurst reel burst later)).course (later.length + 1)
      (blinksOn s.config s.sustain) := by
  induction later generalizing s reel burst with
  | nil =>
    obtain ⟨hframe, status, strings, hsession⟩ := s.playBurst_fst_snd reel burst []
    have hphase := congrArg Session.phase hsession
    have hshown : (Turn.ofMade source (s.playBurst reel burst [])).course 0 =
        .frame (s.burstFrame reel burst []) := congrArg Step.frame hframe
    exact plays_last hshown (Option.some_ne_none _) rfl (fun _ => rfl) hphase
  | cons next rest ih =>
    obtain ⟨hframe, -⟩ := s.playBurst_fst_snd reel burst (next :: rest)
    obtain ⟨t, hconfig, hsustain, hcourse⟩ := course_playBurst_cons s source reel burst next rest
    have hlater := ih t (carried reel burst (next :: rest)) next
    have hshown : (Turn.ofMade source (s.playBurst reel burst (next :: rest))).course 0 =
        .frame (s.burstFrame reel burst (next :: rest)) := congrArg Step.frame hframe
    rw [hconfig, hsustain] at hlater
    exact hlater.cons hshown (Option.some_ne_none _) rfl hcourse

/-- **The course of a stream**, from the turn that opens it. -/
theorem plays_begin {config : Config} (source : Source) (hconfig : s.config = config)
    (acquired : Acquired) :
    Plays (Turn.ofMade source (s.begin acquired)).course
      (max 1 (Burst.plan config acquired.data.length).length)
      (fun last => !(Burst.plan config acquired.data.length).isEmpty &&
        blinksOn config s.sustain last) := by
  cases hplan : Burst.plan config acquired.data.length with
  | nil =>
    obtain ⟨⟨position, hframe⟩, status, strings, hsession⟩ := s.playNothing_fst_snd acquired
    have hphase := congrArg Session.phase hsession
    have hshown := congrArg Step.frame hframe
    subst hconfig
    rw [begin, hplan]
    exact plays_last hshown (Option.some_ne_none _) rfl (fun _ => rfl) hphase
  | cons burst later =>
    have hplays := plays_playBurst (s.measure acquired.data).2 source
      (reelAt config acquired 0) burst later
    rw [measure_eq] at hplays
    have hcourse := funext (course_begin source hconfig hplan)
    have hcount : max 1 (burst :: later).length = later.length + 1 := by
      rw [List.length_cons]
      omega
    rw [hcourse, measure_eq, hcount, ← hconfig]
    rw [← hconfig] at hplays
    exact hplays

end Course

end Session

namespace Performance

/-- **The life of a session.**  Let nothing disturb a session that gets its bytes.

* Before the bytes are there it shows the placeholder, and that is one frame if
  they are not there at first.
* Then comes a frame for each burst, or a single one if there is no burst; only the
  last of them says that nothing more is played.
* Behind the last frame there are frames for ever if that frame blinks, the session
  is to go on and is to blink by itself, and something was played; otherwise there
  is no frame any more.
* The call behind the placeholder opens the source, and every other call leaves the
  source alone.
* At unlimited speed there is one burst in front of the starting position and one
  behind it, unless they are empty. -/
theorem life_of_a_session {σ : Type} (stage : Stage σ) (world : σ) (config : Config)
    (sustain : Bool) (source : Source) {acquired : Acquired}
    (hacquired : source.resolve.1 = some acquired)
    (hfree : ∀ n, (fresh config sustain source world).RunsFreely stage n) :
    let p := fresh config sustain source world
    let bursts := Burst.plan config acquired.data.length
    let first := if source.isReady then 0 else 1
    let count := max 1 bursts.length
    (∀ m < first, p.result stage m = .frame (Frame.blank config {})) ∧
    (∀ i < count, ∃ f, p.result stage (first + i) = .frame f ∧ f.metadata ≠ none ∧
      f.status.playing = decide (i + 1 < count)) ∧
    (∃ last, p.result stage (first + (count - 1)) = .frame last ∧
      if !bursts.isEmpty && Session.blinksOn config sustain last then
        ∀ n, ∃ f, p.result stage (first + (count + n)) = .frame f
      else ∀ n, p.result stage (first + (count + n)) = .ended) ∧
    ((p.after stage first).next stage = (p.after stage first).begin stage ∧
      ∀ m, m ≠ first → (p.after stage m).LeavesSource stage) ∧
    (config.modemSpeed = .unlimited →
      bursts.length =
        (if 0 < config.seek.lead acquired.data.length then 1 else 0) +
          (if config.seek.resume ∧
              config.seek.lead acquired.data.length < acquired.data.length then 1 else 0)) := by
  intro p bursts first count
  have hfirst : first = source.placeholders := rfl
  obtain ⟨hconfig, hsustain⟩ := Session.readied_eq config sustain source
  have hplays := Session.plays_begin source.resolve.2 hconfig acquired
  rw [hsustain] at hplays
  have hcourse : ∀ n, p.result stage (first + n) =
      (Turn.ofMade source.resolve.2
        ((Session.readied config sustain source).begin acquired)).course n :=
    fun n => result_fresh hacquired (hfree _)
  have hopens : ∀ m, (p.after stage m).opens stage = decide (m = first) := by
    intro m
    have hawake := (hfree (m + 1) m (Nat.lt_succ_self m)).awake
    obtain ⟨hsession, hsource⟩ := Prod.mk.inj (hfree m).state_after
    rw [opens, hawake, hsession, hsource]
    exact Session.opens_turns config sustain hacquired m
  refine ⟨?_, ?_, ?_, ⟨?_, ?_⟩, ?_⟩
  · intro m hm
    rw [(hfree (m + 1)).result_eq]
    exact Session.outcome_of_lt_placeholders config sustain hm
  · intro i hi
    rw [hcourse]
    exact hplays.shown i hi
  · simp only [hcourse]
    exact hplays.behind
  · exact next_of_opens ((hopens first).trans (decide_eq_true rfl))
  · intro m hm
    exact leavesSource_of_not_opens ((hopens m).trans (decide_eq_false hm))
  · intro hspeed
    exact Burst.length_plan_unlimited hspeed _

/-- A session over bytes that have still to be acquired, and that do not blink. -/
theorem life_of_a_session_coloured :
    let config : Config := { modemSpeed := .bps 200 }
    let source : Source := .ofLoader (.loads coloured)
    let p := fresh config true source ()
    let count := max 1 (Burst.plan config coloured.length).length
    (source.resolve.1 = some (.success coloured) ∧ ∀ n, p.RunsFreely .silent n) ∧
      p.result .silent 0 = .frame (Frame.blank config {}) ∧
      (∃ f, p.result .silent count = .frame f ∧ f.status.playing = false) ∧
      (∀ n, p.result .silent (1 + (count + n)) = .ended) ∧
      (p.after .silent 1).next .silent = (p.after .silent 1).begin .silent := by
  intro config source p count
  obtain ⟨hblank, hshown, ⟨last, -, hbehind⟩, ⟨hopened, -⟩, -⟩ :=
    life_of_a_session .silent () config true source rfl (runsFreely_silent p)
  have hcount : 1 ≤ count := Nat.le_max_left _ _
  obtain ⟨f, hf, -, hplaying⟩ : ∃ f, p.result .silent (1 + (count - 1)) = .frame f ∧
      f.metadata ≠ none ∧ f.status.playing = decide (count - 1 + 1 < count) :=
    hshown (count - 1) (Nat.sub_lt hcount Nat.one_pos)
  refine ⟨⟨rfl, runsFreely_silent p⟩, hblank 0 (Nat.lt_succ_self 0), ⟨f, ?_, ?_⟩, ?_, hopened⟩
  · have hlast : 1 + (count - 1) = count := by omega
    rw [← hlast]
    exact hf
  · exact hplaying.trans (decide_eq_false (by omega))
  · have hoff : Session.blinksOn config true last = false := rfl
    rw [hoff, Bool.and_false] at hbehind
    exact hbehind

end Performance

end BaudReel
