import BaudReel.Proofs.Snapshot
import BaudReel.Proofs.Tiling

/-!
# Pacing cannot be seen

A session plays the bursts of its plan one after the other and then ends, or
shows its last frame in alternating blink phases for ever (`Closing`).  Together
with the snapshots of single bursts this gives every frame of a session that is
not disturbed, in terms of the bytes played so far (`shows_of_result`).

Speed, frame interval, blink duration and starting position decide which bytes
these are, and nothing else: `frames_are_snapshots`.
-/

namespace BaudReel

namespace Session

/-- The stream is over, and `last` is its last frame: nothing more comes, or it
blinks on. -/
def Closing (s : Session) (last : Frame) : Prop :=
  s.phase = .done ∨ s.sustain = true ∧ ∃ begun, s.phase = .sustaining last begun

namespace Closing

variable {s : Session} {last frame : Frame} {source : Source}

/-- Behind the end of the stream every frame is the last one in one blink phase
or the other. -/
theorem outcome_eq (h : s.Closing last) {n : Nat} (hframe : s.outcome source n = .frame frame) :
    frame = { last with blinked := frame.blinked } := by
  induction n generalizing s with
  | zero =>
    rw [outcome_eq_course] at hframe
    rcases h with hdone | ⟨-, begun, hsustaining⟩
    · rw [turn_of_done hdone] at hframe
      exact absurd hframe Step.noConfusion
    · rw [turn_of_sustaining hsustaining] at hframe
      cases hframe
      rfl
  | succ n ih =>
    rw [outcome_eq_course] at hframe
    rcases h with hdone | ⟨hsustain, begun, hsustaining⟩
    · rw [turn_of_done hdone] at hframe
      exact ih (.inl hdone) hframe
    · rw [turn_of_sustaining hsustaining] at hframe
      have hflipped : (s.flip last).2.Closing last := .inr ⟨hsustain, true, rfl⟩
      exact ih hflipped hframe

/-- A session that is closing and does not sustain has ended. -/
theorem outcome_zero (h : s.Closing last) (hsustain : s.sustain = false) :
    s.outcome source 0 = .ended := by
  rcases h with hdone | ⟨hgoesOn, -⟩
  · rw [outcome_eq_course, turn_of_done hdone]
    rfl
  · rw [hsustain] at hgoesOn
    exact absurd hgoesOn Bool.false_ne_true

end Closing

/-- Behind the last burst a session is closing with the frame of this burst. -/
theorem closing_of_phaseAfter {s t : Session} {last : Frame} (h : t.phase = s.phaseAfter last)
    (hsustain : t.sustain = s.sustain) : t.Closing last := by
  unfold phaseAfter at h
  split at h
  case isTrue hgoesOn =>
    have hs : s.sustain = true := by
      simp only [Bool.and_eq_true] at hgoesOn
      exact hgoesOn.1.1
    exact .inr ⟨hsustain.trans hs, false, h⟩
  case isFalse => exact .inl h

/-- A run of turns that comes to its end at turn `k` with the frame `last`. -/
structure ClosesAt (course : Nat → Step) (source : Source) (sustain : Bool) (k : Nat)
    (last : Frame) : Prop where
  shown : course k = .frame last
  behind : ∃ t : Session, t.sustain = sustain ∧ t.Closing last ∧
    ∀ n, course (k + 1 + n) = t.outcome source n

/-- From its end on a run shows its last frame only, in one blink phase or the
other. -/
theorem ClosesAt.frame_eq {course : Nat → Step} {source : Source} {sustain : Bool} {k n : Nat}
    {last frame : Frame} (h : ClosesAt course source sustain k last)
    (hframe : course n = .frame frame) :
    ∃ first, course (min n k) = .frame first ∧ frame = { first with blinked := frame.blinked } := by
  by_cases hn : n ≤ k
  · rw [Nat.min_eq_left hn]
    exact ⟨frame, hframe, rfl⟩
  · obtain ⟨t, -, hclosing, hbehind⟩ := h.behind
    obtain ⟨m, rfl⟩ : ∃ m, n = k + 1 + m := ⟨n - (k + 1), by omega⟩
    rw [Nat.min_eq_right (by omega)]
    rw [hbehind] at hframe
    exact ⟨last, h.shown, hclosing.outcome_eq hframe⟩

section Course

variable {config : Config} {acquired : Acquired} {source : Source}

/-- The course of a run of bursts goes on as that of the run without the first
one. -/
theorem course_playBurst_cons (s : Session) (source : Source) (reel : Reel) (burst next : Burst)
    (rest : List Burst) :
    ∃ t : Session, t.config = s.config ∧ t.sustain = s.sustain ∧
      ∀ n, (Turn.ofMade source (s.playBurst reel burst (next :: rest))).course (n + 1) =
        (Turn.ofMade source
          (t.playBurst (carried reel burst (next :: rest)) next rest)).course n := by
  let session := (s.playBurst reel burst (next :: rest)).2.1
  obtain ⟨-, status, strings, hsession⟩ := s.playBurst_fst_snd reel burst (next :: rest)
  have hkept := advanceBlink_eq session
  have hconfig := congrArg Session.config hsession
  have hsustain := congrArg Session.sustain hsession
  have hphase : session.phase = .playing (carried reel burst (next :: rest)) next rest :=
    congrArg Session.phase hsession
  refine ⟨session.advanceBlink, hkept.1.trans hconfig, hkept.2.trans hsustain, ?_⟩
  intro n
  rw [← turn_of_playing hphase, ← outcome_eq_course]
  rfl

/-- Behind a burst the course goes on with the next one, from where this one ended. -/
theorem course_playBurst_succ (s : Session) (source : Source) {start : Nat} {burst : Burst}
    (next : Burst) (rest : List Burst) (hstart : burst.start = start) (hlt : start < burst.stop) :
    ∃ t : Session, t.config = s.config ∧ t.sustain = s.sustain ∧
      ∀ n, (Turn.ofMade source
          (s.playBurst (reelAt config acquired start) burst (next :: rest))).course (n + 1) =
        (Turn.ofMade source
          (t.playBurst (reelAt config acquired burst.stop) next rest)).course n := by
  have hcarried : carried (reelAt config acquired start) burst (next :: rest) =
      reelAt config acquired burst.stop := carried_reelAt hstart hlt
  rw [← hcarried]
  exact course_playBurst_cons s source _ burst next rest

/-- **A run of bursts.**  Every burst in turn gives the snapshot at its end. -/
theorem course_playBurst {s : Session} {start stop : Nat} {burst : Burst} {later : List Burst}
    (hconfig : s.config = config) (htiles : Burst.Tiles start (burst :: later) stop)
    {i : Nat} {played : Burst} (hplayed : (burst :: later)[i]? = some played) :
    ∃ frame, (Turn.ofMade source
        (s.playBurst (reelAt config acquired start) burst later)).course i = .frame frame ∧
      ShowsPrefix config acquired.data played.stop (i + 1 == (burst :: later).length) frame := by
  -- along the bursts; what one hands to the next is the reel at its end
  induction later generalizing s start burst i with
  | nil =>
    obtain ⟨hstart, hlt, -⟩ := htiles
    obtain ⟨hframe, -⟩ := s.playBurst_fst_snd (reelAt config acquired start) burst []
    cases i with
    | zero =>
      cases hplayed
      refine ⟨_, rfl, ?_⟩
      rw [hframe]
      exact showsPrefix_burstFrame hconfig hstart hlt
    | succ i => exact absurd hplayed.symm (Option.some_ne_none played)
  | cons next rest ih =>
    obtain ⟨hstart, hlt, hlater⟩ := htiles
    cases i with
    | zero =>
      obtain ⟨hframe, -⟩ := s.playBurst_fst_snd (reelAt config acquired start) burst (next :: rest)
      cases hplayed
      refine ⟨_, rfl, ?_⟩
      rw [hframe]
      exact showsPrefix_burstFrame hconfig hstart hlt
    | succ i =>
      obtain ⟨t, htconfig, -, hcourse⟩ :=
        course_playBurst_succ s source next rest hstart hlt
      obtain ⟨frame, hframe, hshows⟩ := ih (htconfig.trans hconfig) hlater hplayed
      have hlast : (i + 1 + 1 == (burst :: next :: rest).length) =
          (i + 1 == (next :: rest).length) := by
        rw [Bool.eq_iff_iff, beq_iff_eq, beq_iff_eq, List.length_cons, Nat.add_right_cancel_iff]
      refine ⟨frame, (hcourse i).trans hframe, ?_⟩
      rw [hlast]
      exact hshows

/-- The run comes to its end with its last burst. -/
theorem closesAt_playBurst {s : Session} {start stop : Nat} {burst : Burst} {later : List Burst}
    (htiles : Burst.Tiles start (burst :: later) stop) :
    ∃ last, ClosesAt (Turn.ofMade source
      (s.playBurst (reelAt config acquired start) burst later)).course source s.sustain
      later.length last := by
  induction later generalizing s start burst with
  | nil =>
    obtain ⟨hframe, status, strings, hsession⟩ :=
      s.playBurst_fst_snd (reelAt config acquired start) burst []
    have hphase := congrArg Session.phase hsession
    have hsustain := congrArg Session.sustain hsession
    have hclosing := closing_of_phaseAfter hphase hsustain
    rw [← hframe] at hclosing
    refine ⟨_, rfl, _, hsustain, hclosing, fun n => ?_⟩
    rw [List.length_nil, Nat.zero_add, Nat.add_comm]
    rfl
  | cons next rest ih =>
    obtain ⟨hstart, hlt, hlater⟩ := htiles
    obtain ⟨t, -, hsustain, hcourse⟩ :=
      course_playBurst_succ s source next rest hstart hlt
    obtain ⟨last, hshown, behind⟩ := ih (s := t) hlater
    rw [hsustain] at behind
    obtain ⟨u, husustain, hclosing, hbehind⟩ := behind
    refine ⟨last, (hcourse _).trans hshown, u, husustain, hclosing, fun n => ?_⟩
    rw [List.length_cons, Nat.add_right_comm, hcourse]
    exact hbehind n

section Begin

variable (source) {s : Session} (hconfig : s.config = config)
include hconfig

/-- To begin with a plan is to play its first burst from the beginning of the stream. -/
theorem course_begin {burst : Burst} {later : List Burst}
    (hplan : Burst.plan config acquired.data.length = burst :: later) (n : Nat) :
    (Turn.ofMade source (s.begin acquired)).course n =
      (Turn.ofMade source ((s.measure acquired.data).2.playBurst
        (reelAt config acquired 0) burst later)).course n := by
  subst hconfig
  rw [begin, hplan, measure_eq]
  cases n <;> rfl

/-- Without a burst there is one blank frame, and the session closes with it. -/
theorem closesAt_begin_nil (hplan : Burst.plan config acquired.data.length = []) :
    ∃ status, ClosesAt (Turn.ofMade source (s.begin acquired)).course source s.sustain 0
      { Frame.blank config status with metadata := some [], error := acquired.error } := by
  subst hconfig
  obtain ⟨hframe, status, strings, hsession⟩ := s.playNothing_fst_snd acquired
  have hdone := congrArg Session.phase hsession
  have hsustain := congrArg Session.sustain hsession
  rw [begin, hplan]
  obtain ⟨position, hposition⟩ := hframe
  refine ⟨.stopped position, congrArg Step.frame hposition, _, hsustain, .inl hdone, fun n => ?_⟩
  rw [Nat.zero_add, Nat.add_comm]
  rfl

/-- Each burst of a plan has its call, which shows the stream up to the burst's end. -/
theorem course_begin_burst {i : Nat} {played : Burst}
    (hplayed : (Burst.plan config acquired.data.length)[i]? = some played) :
    ∃ frame, (Turn.ofMade source (s.begin acquired)).course i = .frame frame ∧
      ShowsPrefix config acquired.data played.stop
        (i + 1 == (Burst.plan config acquired.data.length).length) frame := by
  have htiles := Burst.tiles_plan config acquired.data.length
  cases hplan : Burst.plan config acquired.data.length with
  | nil =>
    rw [hplan] at hplayed
    exact absurd hplayed.symm (Option.some_ne_none played)
  | cons burst later =>
    rw [hplan] at hplayed htiles
    rw [course_begin source hconfig hplan]
    have hmeasured : (s.measure acquired.data).2.config = config := by
      rw [measure_eq]
      exact hconfig
    exact course_playBurst hmeasured htiles hplayed

/-- The course comes to its end with the last burst, or with the blank frame. -/
theorem closesAt_begin (acquired : Acquired) :
    ∃ last, ClosesAt (Turn.ofMade source (s.begin acquired)).course source s.sustain
      ((Burst.plan config acquired.data.length).length - 1) last := by
  have htiles := Burst.tiles_plan config acquired.data.length
  cases hplan : Burst.plan config acquired.data.length with
  | nil =>
    obtain ⟨status, hcloses⟩ := closesAt_begin_nil source hconfig hplan
    exact ⟨_, hcloses⟩
  | cons burst later =>
    rw [hplan] at htiles
    have hcourse := funext (course_begin source hconfig hplan)
    rw [hcourse, measure_eq]
    exact closesAt_playBurst htiles

/-- Every frame in terms of the bytes played so far. -/
theorem shows_course {n : Nat} {frame : Frame}
    (hframe : (Turn.ofMade source (s.begin acquired)).course n = .frame frame) :
    let total := acquired.data.length
    let count := Burst.played config total (n + 1)
    ShowsPlayed config acquired.data count frame ∧
      frame.metadata = some (stringsAt config acquired.data count
        (decide ((Burst.plan config total).length ≤ n + 1))) := by
  intro total count
  obtain ⟨last, hcloses⟩ := closesAt_begin source hconfig acquired
  obtain ⟨first, hfirst, hsame⟩ := hcloses.frame_eq hframe
  generalize frame.blinked = blinked at hsame
  subst hsame
  by_cases hplan : Burst.plan config total = []
  · -- the one frame there is, and it is blank
    obtain ⟨status, hblank⟩ := closesAt_begin_nil source hconfig hplan
    have hcount : count = 0 := Burst.played_of_plan_eq_nil hplan (n + 1)
    rw [hplan, List.length_nil, Nat.zero_sub, Nat.min_zero, hblank.shown] at hfirst
    cases hfirst
    rw [hcount, ShowsPlayed, if_pos rfl, stringsAt_zero]
    exact ⟨⟨rfl, rfl, rfl, rfl⟩, rfl⟩
  · -- the burst of this turn, or the last one if the turn is behind it
    have hlength := List.length_pos_iff.2 hplan
    obtain ⟨burst, hburst⟩ : ∃ burst,
        (Burst.plan config total)[min n ((Burst.plan config total).length - 1)]? = some burst :=
      ⟨_, List.getElem?_eq_getElem (by omega)⟩
    obtain ⟨shown, hshown, hprefix⟩ := course_begin_burst source hconfig hburst
    obtain rfl : shown = first := Step.frame.inj (hshown.symm.trans hfirst)
    have hcount : count = burst.stop := Burst.played_min hburst
    have hpos : count ≠ 0 := hcount ▸ Nat.ne_of_gt (Burst.stop_pos hburst)
    have hlast : (min n ((Burst.plan config total).length - 1) + 1 ==
        (Burst.plan config total).length) =
          decide ((Burst.plan config total).length ≤ n + 1) := by
      rw [Bool.eq_iff_iff, beq_iff_eq, decide_eq_true_iff]
      omega
    rw [hlast, ← hcount] at hprefix
    rw [ShowsPlayed, if_neg hpos]
    exact hprefix

end Begin

end Course

end Session

/-- The settings at another pace. -/
def Config.repaced (c : Config) (speed : ModemSpeed) (interval duration : Nat) (seek : Seek) :
    Config :=
  { c with
    modemSpeed := speed
    frameInterval := interval
    blinkDuration := duration
    seek := seek }

namespace Session

section Repaced

variable (config : Config) (speed : ModemSpeed) (interval duration : Nat) (seek : Seek)
  (data : List UInt8) (count : Nat)

/-- The screen of a stream is made without regard to the pace. -/
theorem snapshot_repaced :
    snapshot (config.repaced speed interval duration seek) data count =
      snapshot config data count := by
  rw [snapshot, snapshot, sizeFor_eq, sizeFor_eq]
  rfl

/-- Nor does it matter for what frames show. -/
theorem showsPlayed_repaced (f : Frame) :
    ShowsPlayed (config.repaced speed interval duration seek) data count f =
      ShowsPlayed config data count f := by
  rw [ShowsPlayed, ShowsPlayed, snapshot_repaced]
  rfl

/-- Nor for the descriptive strings. -/
theorem stringsAt_repaced (last : Bool) :
    stringsAt (config.repaced speed interval duration seek) data count last =
      stringsAt config data count last := by
  rw [stringsAt, stringsAt, snapshot_repaced]

end Repaced

end Session

namespace Performance

section Result

variable {σ : Type} {stage : Stage σ} {world : σ} {config : Config} {sustain : Bool}
  {source : Source} {acquired : Acquired} (hacquired : source.resolve.1 = some acquired)
include hacquired

/-- Behind the placeholders the calls give the course of what begins there. -/
theorem result_fresh {n : Nat}
    (hfree : (fresh config sustain source world).RunsFreely stage (source.placeholders + n + 1)) :
    (fresh config sustain source world).result stage (source.placeholders + n) =
      (Turn.ofMade source.resolve.2
        ((Session.readied config sustain source).begin acquired)).course n :=
  hfree.result_eq.trans (Session.outcome_fresh config sustain hacquired n)

/-- In a free run each burst has its call, which shows the stream up to the burst's end. -/
theorem result_burst {i : Nat} {burst : Burst}
    (hburst : (Burst.plan config acquired.data.length)[i]? = some burst)
    (hfree : (fresh config sustain source world).RunsFreely stage (source.placeholders + i + 1)) :
    ∃ frame, (fresh config sustain source world).result stage (source.placeholders + i) =
        .frame frame ∧
      Session.ShowsPrefix config acquired.data burst.stop
        (i + 1 == (Burst.plan config acquired.data.length).length) frame := by
  have hconfig := (Session.readied_eq config sustain source).1
  rw [result_fresh hacquired hfree]
  exact Session.course_begin_burst _ hconfig hburst

/-- **Every call** shows the bytes that have been played so far. -/
theorem shows_result {m : Nat} {frame : Frame}
    (hfree : (fresh config sustain source world).RunsFreely stage (m + 1))
    (hframe : (fresh config sustain source world).result stage m = .frame frame) :
    Session.ShowsPlayed config acquired.data
      (Burst.played config acquired.data.length (m + 1 - source.placeholders)) frame := by
  have hconfig := (Session.readied_eq config sustain source).1
  by_cases hm : m < source.placeholders
  · have hblank := Session.outcome_of_lt_placeholders config sustain hm
    have hcount : m + 1 - source.placeholders = 0 := by omega
    rw [hfree.result_eq] at hframe
    obtain rfl : Frame.blank config {} = frame := Step.frame.inj (hblank.symm.trans hframe)
    rw [hcount, Burst.played_zero, Session.ShowsPlayed, if_pos rfl]
    exact ⟨rfl, rfl, rfl, rfl⟩
  · obtain ⟨n, rfl⟩ := Nat.exists_eq_add_of_le (Nat.le_of_not_lt hm)
    have hcount : source.placeholders + n + 1 - source.placeholders = n + 1 := by omega
    rw [result_fresh hacquired hfree] at hframe
    rw [hcount]
    exact (Session.shows_course _ hconfig hframe).1

/-- **The end of a stream** that is played to its last byte. -/
theorem ends_result (hresume : config.seek.resume = true) {m : Nat} {frame : Frame}
    (hopened : source.placeholders ≤ m)
    (hplayed : source.placeholders + (Burst.plan config acquired.data.length).length ≤ m + 1)
    (hfree : (fresh config sustain source world).RunsFreely stage (m + 1))
    (hframe : (fresh config sustain source world).result stage m = .frame frame) :
    Session.ShowsPlayed config acquired.data acquired.data.length frame ∧
      frame.metadata =
        some (Session.stringsAt config acquired.data acquired.data.length true) := by
  have hconfig := (Session.readied_eq config sustain source).1
  obtain ⟨n, rfl⟩ := Nat.exists_eq_add_of_le hopened
  have hlength : (Burst.plan config acquired.data.length).length ≤ n + 1 := by omega
  have hcount : Burst.played config acquired.data.length (n + 1) = acquired.data.length := by
    rw [Burst.played_of_length_le hlength, Burst.finalStop, if_pos hresume]
  rw [result_fresh hacquired hfree] at hframe
  have hshows := Session.shows_course _ hconfig hframe
  simp only [hcount, decide_eq_true hlength] at hshows
  exact hshows

/-- In a free run every call up to the last burst shows a frame. -/
theorem exists_result {m : Nat}
    (hm : m ≤ source.placeholders + ((Burst.plan config acquired.data.length).length - 1))
    (hfree : (fresh config sustain source world).RunsFreely stage (m + 1)) :
    ∃ frame, (fresh config sustain source world).result stage m = .frame frame := by
  have hconfig := (Session.readied_eq config sustain source).1
  by_cases hbefore : m < source.placeholders
  · rw [hfree.result_eq]
    exact ⟨_, Session.outcome_of_lt_placeholders config sustain hbefore⟩
  · obtain ⟨n, rfl⟩ := Nat.exists_eq_add_of_le (Nat.le_of_not_lt hbefore)
    by_cases hn : n < (Burst.plan config acquired.data.length).length
    · have hburst := List.getElem?_eq_getElem hn
      obtain ⟨frame, hframe, -⟩ := result_burst hacquired hburst hfree
      exact ⟨frame, hframe⟩
    · obtain ⟨last, hcloses⟩ :=
        Session.closesAt_begin source.resolve.2 hconfig acquired
      obtain rfl : n = (Burst.plan config acquired.data.length).length - 1 := by omega
      rw [result_fresh hacquired hfree]
      exact ⟨last, hcloses.shown⟩

/-- Without sustaining, a free run ends behind the last burst. -/
theorem result_behind (hfree : (fresh config false source world).RunsFreely stage
      (source.placeholders + ((Burst.plan config acquired.data.length).length - 1 + 1) + 1)) :
    (fresh config false source world).result stage
      (source.placeholders + ((Burst.plan config acquired.data.length).length - 1 + 1)) =
        .ended := by
  obtain ⟨hconfig, hsustain⟩ := Session.readied_eq config false source
  obtain ⟨last, hcloses⟩ := Session.closesAt_begin source.resolve.2 hconfig acquired
  obtain ⟨t, htsustain, hclosing, hbehind⟩ := hcloses.behind
  rw [result_fresh hacquired hfree]
  exact (hbehind 0).trans (hclosing.outcome_zero (htsustain.trans hsustain))

end Result

/-- **One shot.**  The final screen shows the whole stream. -/
theorem renderFinal_ends {config : Config} {source : Source} {acquired : Acquired}
    (hacquired : source.resolve.1 = some acquired) (hresume : config.seek.resume = true) :
    Session.ShowsPlayed config acquired.data acquired.data.length (renderFinal source config) ∧
      (renderFinal source config).metadata =
        some (Session.stringsAt config acquired.data acquired.data.length true) := by
  let unlimited := { config with modemSpeed := .unlimited }
  let p : Performance Unit := fresh unlimited false source ()
  let bursts := Burst.plan unlimited acquired.data.length
  let k := source.placeholders + (bursts.length - 1)
  have hfree : ∀ n, p.RunsFreely .silent n := runsFreely_silent p
  have hframes : ∀ m ≤ k, ∃ frame, p.result .silent m = .frame frame := by
    intro m hm
    exact exists_result hacquired hm (hfree _)
  have hend : p.result .silent (k + 1) = .ended := result_behind hacquired (hfree _)
  have hbudget : k + 1 ≤ p.budgetFor := by
    have hlength : bursts.length ≤ acquired.data.length := Burst.length_plan_le _ _
    have hplaceholders := source.placeholders_le_one
    rw [budgetFor_eq hacquired]
    omega
  obtain ⟨last, hlast⟩ := hframes k (Nat.le_refl k)
  have hplay : (p.playAll .silent).1.getLast? = some last := by
    have hcollected := getLast?_play hbudget hframes (congrArg Step.frame? hend)
    rw [hlast] at hcollected
    exact hcollected
  have hfinal : renderFinal source config = last := by
    have hgetD := congrArg (·.getD (Frame.blank unlimited (.stopped 0.0))) hplay
    exact hgetD
  have hopened : source.placeholders ≤ k := Nat.le_add_right _ _
  have hplayed : source.placeholders + bursts.length ≤ k + 1 := by omega
  have hwhole : unlimited.seek.resume = true := hresume
  have hends := ends_result hacquired hwhole hopened hplayed (hfree _) hlast
  have hrepaced : unlimited = config.repaced .unlimited config.frameInterval config.blinkDuration
    config.seek := rfl
  rw [hrepaced, Session.showsPlayed_repaced, Session.stringsAt_repaced] at hends
  rw [hfinal]
  exact hends

/-- **Frames are snapshots.**  Let `p` and `q` play the same bytes at different
paces, on whatever stages.

* The call for a burst shows the terminal that has read all bytes up to its end
  at once, and that terminal's descriptive strings.
* Whenever `p` and `q` have played as many bytes, they show the same screen.
* Where both go on behind their starting positions, the last burst's frame and
  everything behind it show what is shown in one shot. -/
theorem frames_are_snapshots {σ τ : Type} (stage : Stage σ) (other : Stage τ) (world : σ)
    (elsewhere : τ) (config : Config) (sustain sustain' : Bool) (source source' : Source)
    {acquired acquired' : Acquired} (hacquired : source.resolve.1 = some acquired)
    (hacquired' : source'.resolve.1 = some acquired') (hdata : acquired'.data = acquired.data)
    (speed : ModemSpeed) (interval duration : Nat) (seek : Seek) :
    let data := acquired.data
    let config' := config.repaced speed interval duration seek
    let p := fresh config sustain source world
    let q := fresh config' sustain' source' elsewhere
    let bursts := Burst.plan config data.length
    (∀ i burst, bursts[i]? = some burst →
      p.RunsFreely stage (source.placeholders + i + 1) →
        ∃ frame, p.result stage (source.placeholders + i) = .frame frame ∧
          Session.ShowsPrefix config data burst.stop (i + 1 == bursts.length) frame) ∧
    (∀ m n f g, p.RunsFreely stage (m + 1) → q.RunsFreely other (n + 1) →
      p.result stage m = .frame f → q.result other n = .frame g →
      Burst.played config data.length (m + 1 - source.placeholders) =
        Burst.played config' data.length (n + 1 - source'.placeholders) →
        f.SameScreen g) ∧
    (config.seek.resume = true → seek.resume = true →
      let last := source.placeholders + (bursts.length - 1)
      (p.RunsFreely stage (last + 1) → ∃ f, p.result stage last = .frame f) ∧
      ∀ m f, last ≤ m → p.RunsFreely stage (m + 1) → p.result stage m = .frame f →
        f.SameScreen (renderFinal source' config') ∧
          f.metadata = (renderFinal source' config').metadata) := by
  intro data config' p q bursts
  refine ⟨?_, ?_, ?_⟩
  · intro i burst hburst hfree
    exact result_burst hacquired hburst hfree
  · intro m n f g hp hq hf hg hplayed
    have hshowsp := shows_result hacquired hp hf
    have hshowsq := shows_result hacquired' hq hg
    rw [hdata, ← hplayed, Session.showsPlayed_repaced] at hshowsq
    exact hshowsp.sameScreen hshowsq
  · intro hresume hresume' last
    have hwhole : config'.seek.resume = true := hresume'
    refine ⟨exists_result hacquired (Nat.le_refl last), ?_⟩
    intro m f hlast hfree hf
    have hopened : source.placeholders ≤ m := by omega
    have hplayed : source.placeholders + bursts.length ≤ m + 1 := by omega
    have hends := ends_result hacquired hresume hopened hplayed hfree hf
    have hfinal := renderFinal_ends hacquired' hwhole
    rw [hdata, Session.showsPlayed_repaced, Session.stringsAt_repaced] at hfinal
    exact ⟨hends.1.sameScreen hfinal.1, hends.2.trans hfinal.2.symm⟩

/-- A glyph, a control sequence and a coloured glyph. -/
def coloured : List UInt8 :=
  [0x41, 0x1B, 0x5B, 0x33, 0x31, 0x6D, 0x42]

/-- Played byte by byte, the control sequence is cut to pieces, and the stream
ends as in one shot. -/
theorem frames_are_snapshots_coloured :
    let config : Config := { modemSpeed := .bps 200 }
    let p := fresh config true (.bytes coloured) ()
    let bursts := Burst.plan config coloured.length
    (∃ burst f, bursts[0]? = some burst ∧ p.result .silent 0 = .frame f ∧
      Session.ShowsPrefix config coloured burst.stop (1 == bursts.length) f) ∧
    ∃ f, p.result .silent (bursts.length - 1) = .frame f ∧
      f.SameScreen (renderFinal (.ofLoader (.loads coloured)) config) ∧
      f.metadata = (renderFinal (.ofLoader (.loads coloured)) config).metadata := by
  intro config p bursts
  obtain ⟨hbursts, -, hends⟩ := frames_are_snapshots .silent .silent () () config true false
    (.bytes coloured) (.ofLoader (.loads coloured)) rfl rfl rfl (.bps 200) 50 500 {}
  have hplayed : bursts ≠ [] := by
    intro hnil
    exact absurd ((Burst.plan_eq_nil_iff config coloured.length).1 hnil) (by decide)
  have hburst := List.getElem?_eq_getElem (List.length_pos_iff.2 hplayed)
  obtain ⟨f, hf, hshows⟩ := hbursts 0 _ hburst (runsFreely_silent p 1)
  obtain ⟨hlast, hsame⟩ := hends rfl rfl
  obtain ⟨g, hg⟩ := hlast (runsFreely_silent p _)
  refine ⟨⟨_, f, hburst, hf, hshows⟩, g, ?_,
    hsame _ g (Nat.le_refl _) (runsFreely_silent p _) hg⟩
  rw [← hg]
  exact congrArg _ (Nat.zero_add _).symm

end Performance

end BaudReel
