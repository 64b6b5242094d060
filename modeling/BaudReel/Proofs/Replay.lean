import BaudReel.Proofs.Opening
import BaudReel.Proofs.Snapshot

/-!
# A source is replayed like its bytes

A session over a source that has to be acquired does what a session over the
acquired bytes does, apart from the placeholder in front and from the error that it
attaches to its frames where acquiring failed.

The two sessions tell different things, since the placeholder has a status of its
own.  But nothing that was told has a say in a frame: settings, blink phase and the
stream decide (`Alike`), and they stay in step from the opening of the stream on
(`Follows.turn`).  Neither does it matter what becomes of the source between two
turns, as long as it gives the same bytes; so the source may be another one at
every turn (`stepsAlong_unbegun`).
-/

namespace BaudReel

/-- The frame with an error attached, if there is one. -/
def Frame.withError (f : Frame) (error : Option SourceError) : Frame :=
  { f with error }

/-- The outcome of a call with an error attached to its frame. -/
def Step.withError (error : Option SourceError) : Step → Step
  | .frame f => .frame (f.withError error)
  | step => step

/-- A phase of a stream that has an error attached. -/
def Phase.withError (error : Option SourceError) : Phase → Phase
  | .playing reel burst later => .playing { reel with error } burst later
  | .sustaining last begun => .sustaining (last.withError error) begun
  | phase => phase

/-- The source gives these bytes, or this error's message. -/
def Source.Gives (source : Source) (acquired : Acquired) : Prop :=
  source.resolve.1 = some acquired

/-- A source that has been opened gives the same again. -/
theorem Source.Gives.resolve {source : Source} {acquired : Acquired} (h : source.Gives acquired) :
    source.resolve.2.Gives acquired :=
  congrArg Prod.fst (Source.resolve_resolve h)

namespace Session

/-- Two sessions that make the same frames of the same stream. -/
structure Alike (s t : Session) : Prop where
  config : s.config = t.config
  sustain : s.sustain = t.sustain
  blinked : s.blinked = t.blinked
  blinkLeft : s.blinkLeft = t.blinkLeft

/-- A session that goes the way of another one, with an error attached. -/
structure Follows (error : Option SourceError) (s t : Session) : Prop extends Alike s t where
  opened : t.Opened
  phase : s.phase = t.phase.withError error

section Step

variable {s t : Session} (error : Option SourceError)

/-- Sessions that differ in an error alone do so when they go on in the blink phase. -/
theorem Alike.advanceBlink (h : Alike s t) : Alike s.advanceBlink t.advanceBlink := by
  obtain ⟨hconfig, hsustain, hblinked, hblinkLeft⟩ := h
  unfold Session.advanceBlink
  rw [hconfig, hblinkLeft]
  split
  · exact ⟨hconfig, hsustain, hblinked, hblinkLeft⟩
  · split
    · exact ⟨rfl, hsustain, congrArg not hblinked, rfl⟩
    · exact ⟨rfl, hsustain, hblinked, rfl⟩

/-- Sessions that differ in an error alone show frames that do. -/
theorem Alike.burstFrame (h : Alike s t) (reel : Reel) (burst : Burst) (later : List Burst) :
    s.burstFrame { reel with error } burst later =
      (t.burstFrame reel burst later).withError error := by
  unfold Session.burstFrame
  rw [h.config, h.blinked]
  rfl

/-- Sessions that differ in an error alone come to phases that do. -/
theorem Alike.phaseAfter (h : Alike s t) (last : Frame) :
    s.phaseAfter (last.withError error) = (t.phaseAfter last).withError error := by
  have hblinks : (last.withError error).willBlink = last.willBlink := rfl
  unfold Session.phaseAfter
  rw [h.sustain, h.config, hblinks]
  split <;> rfl

theorem Alike.burstPhase (h : Alike s t) (reel : Reel) (burst : Burst) (later : List Burst) :
    s.burstPhase { reel with error } burst later =
      (t.burstPhase reel burst later).withError error := by
  cases later with
  | nil =>
    rw [Session.burstPhase, h.burstFrame]
    exact h.phaseAfter error _
  | cons next rest => rfl

/-- **One burst.**  The same frame and the same phase, with the error attached. -/
theorem Alike.playBurst (h : Alike s t) (reel : Reel) (burst : Burst) (later : List Burst) :
    (s.playBurst { reel with error } burst later).1 =
        (t.playBurst reel burst later).1.withError error ∧
      Follows error (s.playBurst { reel with error } burst later).2.1
        (t.playBurst reel burst later).2.1 := by
  obtain ⟨hframe, _, _, hsession⟩ := s.playBurst_fst_snd { reel with error } burst later
  obtain ⟨hframe', _, _, hsession'⟩ := t.playBurst_fst_snd reel burst later
  have hopened := t.opened_playBurst reel burst later
  rw [hsession'] at hopened
  rw [hframe, hframe', hsession, hsession']
  exact ⟨h.burstFrame error reel burst later,
    ⟨h.config, h.sustain, h.blinked, h.blinkLeft⟩, hopened, h.burstPhase error reel burst later⟩

/-- Sessions that differ in an error alone show the same where nothing is played. -/
theorem Alike.playNothing (h : Alike s t) (acquired : Acquired) :
    (s.playNothing acquired).1 =
        (t.playNothing (.success acquired.data)).1.withError acquired.error ∧
      Follows acquired.error (s.playNothing acquired).2.1
        (t.playNothing (.success acquired.data)).2.1 := by
  obtain ⟨-, _, _, hsession⟩ := s.playNothing_fst_snd acquired
  obtain ⟨-, _, _, hsession'⟩ := t.playNothing_fst_snd (.success acquired.data)
  have hframe : (s.playNothing acquired).1 =
      (t.playNothing (.success acquired.data)).1.withError acquired.error := by
    unfold Session.playNothing
    rw [h.config]
    rfl
  rw [hframe, hsession, hsession']
  exact ⟨rfl, ⟨h.config, h.sustain, h.blinked, h.blinkLeft⟩,
    ⟨Phase.noConfusion, Phase.noConfusion⟩, rfl⟩

/-- Without a burst, to begin is to play nothing. -/
theorem begin_of_nil {acquired : Acquired}
    (hplan : Burst.plan s.config acquired.data.length = []) :
    (s.begin acquired).1 = (s.playNothing acquired).1 ∧
      (s.begin acquired).2.1 = (s.playNothing acquired).2.1 := by
  rw [Session.begin, hplan]
  exact ⟨rfl, rfl⟩

/-- With a burst, to begin is to measure and to play it. -/
theorem begin_of_cons {acquired : Acquired} {burst : Burst} {later : List Burst}
    (hplan : Burst.plan s.config acquired.data.length = burst :: later) :
    let opened := s.measure acquired.data
    let made := opened.2.playBurst (openReel s.config acquired opened.1) burst later
    (s.begin acquired).1 = made.1 ∧ (s.begin acquired).2.1 = made.2.1 := by
  rw [Session.begin, hplan, measure_eq]
  exact ⟨rfl, rfl⟩

/-- **The opening of a stream.**  From there on the session that acquired its bytes
follows the one that had them. -/
theorem Alike.begin (h : Alike s t) (acquired : Acquired) :
    (s.begin acquired).1 = (t.begin (.success acquired.data)).1.withError acquired.error ∧
      Follows acquired.error (s.begin acquired).2.1 (t.begin (.success acquired.data)).2.1 := by
  cases hplan : Burst.plan t.config acquired.data.length with
  | nil =>
    have hplan' : Burst.plan s.config acquired.data.length = [] := h.config ▸ hplan
    obtain ⟨hframe, hsession⟩ := begin_of_nil hplan'
    have hbytes : Burst.plan t.config (Acquired.success acquired.data).data.length = [] := hplan
    obtain ⟨hframe', hsession'⟩ := begin_of_nil hbytes
    rw [hframe, hsession, hframe', hsession']
    exact h.playNothing acquired
  | cons burst later =>
    have hplan' : Burst.plan s.config acquired.data.length = burst :: later := h.config ▸ hplan
    obtain ⟨hframe, hsession⟩ := begin_of_cons hplan'
    have hbytes : Burst.plan t.config (Acquired.success acquired.data).data.length =
        burst :: later := hplan
    obtain ⟨hframe', hsession'⟩ := begin_of_cons hbytes
    have hreel : openReel s.config acquired (s.measure acquired.data).1 =
        { openReel t.config (.success acquired.data) (t.measure acquired.data).1 with
          error := acquired.error } := by
      rw [measure_eq, measure_eq, h.config]
      rfl
    have hmeasured : Alike (s.measure acquired.data).2 (t.measure acquired.data).2 := by
      rw [measure_eq, measure_eq]
      exact ⟨h.config, h.sustain, h.blinked, h.blinkLeft⟩
    rw [hframe, hsession, hframe', hsession', hreel]
    exact hmeasured.playBurst acquired.error _ burst later

/-- **Step by step.**  Who follows another session goes on following it. -/
theorem Follows.turn {error : Option SourceError} (h : Follows error s t)
    (source other : Source) :
    (s.turn source).step = (t.turn other).step.withError error ∧
      Follows error (s.turn source).session (t.turn other).session := by
  have hphase := h.phase
  cases ht : t.phase with
  | start => exact absurd ht h.opened.1
  | opening => exact absurd ht h.opened.2
  | playing reel burst later =>
    rw [ht] at hphase
    obtain ⟨hframe, hfollows⟩ := h.toAlike.advanceBlink.playBurst error reel burst later
    rw [turn_of_playing hphase, turn_of_playing ht]
    exact ⟨congrArg Step.frame hframe, hfollows⟩
  | sustaining last begun =>
    rw [ht] at hphase
    rw [turn_of_sustaining hphase, turn_of_sustaining ht]
    have hflipped := congrArg not h.blinked
    refine ⟨?_, ⟨h.config, h.sustain, hflipped, h.blinkLeft⟩,
      ⟨Phase.noConfusion, Phase.noConfusion⟩, rfl⟩
    unfold flip Turn.ofMade
    rw [h.blinked]
    rfl
  | done =>
    rw [ht] at hphase
    rw [turn_of_done hphase, turn_of_done ht]
    exact ⟨rfl, h⟩

end Step

/-- The outcomes of a session's turns, where the source is another one at every
turn. -/
def stepsAlong (s : Session) : List Source → List Step
  | [] => []
  | source :: later => (s.turn source).step :: (s.turn source).session.stepsAlong later

section Along

variable {s t : Session} {acquired : Acquired}

/-- A session with an error gives what one without gives, with the error on each frame. -/
theorem Follows.stepsAlong {error : Option SourceError} (h : Follows error s t)
    (data : List UInt8) (sources : List Source) :
    s.stepsAlong sources =
      (List.range sources.length).map fun n => (t.outcome (.bytes data) n).withError error := by
  induction sources generalizing s t with
  | nil => rfl
  | cons source later ih =>
    obtain ⟨hstep, hfollows⟩ := h.turn source (.bytes data)
    have hsource : (t.turn (.bytes data)).source = .bytes data := by
      rw [source_turn, h.opened.opens_eq]
      rfl
    rw [Session.stepsAlong, hstep, ih hfollows, List.length_cons, List.range_succ_eq_map,
      List.map_cons, List.map_map]
    refine congrArg (_ :: ·) (List.map_congr_left ?_)
    intro n _
    rw [Function.comp_apply, outcome_eq_course t _ (n + 1), Turn.course, hsource]

/-- A session that opens the stream now goes the way of one that has had the bytes
from the beginning. -/
theorem stepsAlong_opening {config : Config} {sustain : Bool} {source : Source}
    (halike : Alike s (unbegun config sustain)) (hopens : s.opens source = true)
    (hgives : source.Gives acquired) (later : List Source) :
    s.stepsAlong (source :: later) =
      (List.range (later.length + 1)).map fun n =>
        ((unbegun config sustain).outcome (.bytes acquired.data) n).withError acquired.error := by
  obtain ⟨hframe, hfollows⟩ := halike.begin acquired
  have hturn : s.turn source = .ofMade source.resolve.2 (s.begin acquired) := by
    rw [turn_of_opens hopens, acquire_eq s hgives]
  have halone : (unbegun config sustain).turn (.bytes acquired.data) =
      .ofMade (.bytes acquired.data)
        ((unbegun config sustain).begin (.success acquired.data)) := turn_of_ready rfl rfl
  have hlater := hfollows.stepsAlong acquired.data later
  rw [Session.stepsAlong, hturn, List.range_succ_eq_map, List.map_cons, List.map_map]
  refine congr (congrArg List.cons ?_) (hlater.trans (List.map_congr_left ?_))
  · rw [outcome_eq_course, halone]
    exact congrArg Step.frame hframe
  · intro n _
    rw [Function.comp_apply, outcome_eq_course _ _ (n + 1), halone]
    rfl

/-- **Replay.**  Whatever becomes of the source, as long as it gives the same
bytes: a session shows the placeholder if they are not there at its first turn, and
then what a session shows that has them. -/
theorem stepsAlong_unbegun (config : Config) (sustain : Bool) {first : Source}
    {later : List Source} (hgives : ∀ source ∈ first :: later, source.Gives acquired) :
    (unbegun config sustain).stepsAlong (first :: later) =
      (List.replicate first.placeholders (Step.frame (Frame.blank config {})) ++
        (List.range (later.length + 1)).map fun n =>
          ((unbegun config sustain).outcome (.bytes acquired.data) n).withError
            acquired.error).take (later.length + 1) := by
  have halike : Alike (unbegun config sustain) (unbegun config sustain) := ⟨rfl, rfl, rfl, rfl⟩
  have hfirst : first.Gives acquired := hgives first List.mem_cons_self
  unfold Source.placeholders
  by_cases hready : first.isReady
  · have hopens : (unbegun config sustain).opens first = true := hready
    rw [if_pos hready, List.replicate_zero, List.nil_append, List.take_of_length_le (by simp)]
    exact stepsAlong_opening halike hopens hfirst later
  · -- the placeholder leaves a session that is alike, and opens the stream next
    obtain ⟨told, htold⟩ := (unbegun config sustain).placeholder_snd_fst
    have hwaits : (unbegun config sustain).turn first =
        .ofMade first (unbegun config sustain).placeholder := turn_of_waiting rfl hready
    have hshown : Alike (unbegun config sustain).placeholder.2.1 (unbegun config sustain) := by
      rw [htold]
      exact ⟨rfl, rfl, rfl, rfl⟩
    rw [if_neg hready, Session.stepsAlong, hwaits, List.replicate_one, List.singleton_append,
      List.take_succ_cons, ← List.map_take, List.take_range, Nat.min_eq_left (Nat.le_succ _)]
    refine congrArg (_ :: ·) ?_
    cases later with
    | nil => rfl
    | cons second rest =>
      have hsecond : second.Gives acquired :=
        hgives second (List.mem_cons_of_mem _ List.mem_cons_self)
      exact stepsAlong_opening hshown rfl hsecond rest

end Along

end Session

end BaudReel
