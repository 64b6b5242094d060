import BaudReel.Proofs.Hearing
import BaudReel.Proofs.Rectangle

/-!
# What one call rings, and what sizing adds to it

The reader goes on where it stopped, so that a burst has actions of its own
(`Burst.actions`), whatever is between two bursts: the call that plays a burst rings
the bells among them and no others (`countP_isBeep_burst`).

Before the first burst a stream may be measured, by a terminal like the one that shows
it later.  The turn that opens the stream does so, if there is something to measure, and
no other turn (`measures_turns`).  A measuring terminal takes note of no bell and of no
string (`collected_measuringPass`).  And whether a stream is measured at all makes no
difference to the stage: as long as bursts are left, two sessions that differ in the
allowed sizes alone take turns that sound the same (`accord_turn`), so that they ask the
same of any stage (`after_resized`).

`bells_ring_once` puts this together for every call of a run that nothing disturbs.
-/

namespace BaudReel

/-- The bells of a run of actions are its bell actions. -/
theorem bellsIn_eq_count (actions : List Action) :
    bellsIn actions = actions.count (.control .bell) := by
  induction actions with
  | nil => rfl
  | cons a actions ih =>
    have hhead : Terminal.bellsOf a = if a == .control .bell then 1 else 0 := by
      cases a with
      | control code => cases code <;> rfl
      | _ => rfl
    rw [bellsIn, ih, List.count_cons, hhead, Nat.add_comm]

namespace Burst

/-- The bytes of a burst. -/
def bytes (b : Burst) (data : List UInt8) : List UInt8 :=
  (data.take b.stop).drop b.start

/-- What is read in a burst, behind the bytes in front of it. -/
def actions (b : Burst) (data : List UInt8) : List Action :=
  ((Parser.initial.parse (data.take b.start)).1.parse (b.bytes data)).2

/-- The bytes in front of a burst and those of the burst are the bytes up to its end. -/
theorem take_append_bytes {b : Burst} (h : b.start ≤ b.stop) (data : List UInt8) :
    data.take b.start ++ b.bytes data = data.take b.stop := by
  have htake : data.take b.start = (data.take b.stop).take b.start := by
    rw [List.take_take, Nat.min_eq_left h]
  rw [htake, bytes, List.take_append_drop]

/-- At the end of a burst there are as many bells more as bell actions in it. -/
theorem bellsAt_stop {b : Burst} (h : b.start ≤ b.stop) (data : List UInt8) :
    Session.bellsAt data b.stop =
      Session.bellsAt data b.start + (b.actions data).count (.control .bell) := by
  rw [Session.bellsAt, ← take_append_bytes h, Parser.parse_append, bellsIn_append, Session.bellsAt,
    ← bellsIn_eq_count]
  rfl

/-- A burst begins where the ones in front of it end. -/
theorem start_eq_played {config : Config} {total i : Nat} {burst : Burst}
    (h : (plan config total)[i]? = some burst) :
    burst.start = played config total i ∧ burst.start < burst.stop := by
  obtain ⟨hi, hburst⟩ := List.getElem?_eq_some_iff.1 h
  have htiles := tiles_drop config total i
  rw [List.drop_eq_getElem_cons hi, hburst] at htiles
  exact ⟨htiles.1, htiles.1 ▸ htiles.2.1⟩

end Burst

namespace Terminal

/-- A measuring terminal takes note of no bell and of no string. -/
theorem collected_apply_gauge {t : Terminal} (h : t.canvas.isGauge = true) (a : Action) :
    (t.apply a).canvas.isGauge = true ∧ (t.apply a).bells = t.bells ∧
      (t.apply a).metadata = t.metadata := by
  have hgauge : (t.apply a).canvas.isGauge = true := (isGauge_foldl_draw _ _).trans h
  obtain ⟨parser, head, canvas, endOfText, metadata, bells⟩ := t
  have hmeasures : canvas.isGauge = true := h
  refine ⟨hgauge, ?_, ?_⟩ <;>
    simp only [apply, hmeasures, Bool.not_true, Bool.false_eq_true, if_false]

/-- A terminal that measures takes note of no bell and of no string. -/
theorem collected_foldl_apply_gauge {t : Terminal} (h : t.canvas.isGauge = true)
    (actions : List Action) :
    (actions.foldl apply t).bells = t.bells ∧
      (actions.foldl apply t).metadata = t.metadata := by
  induction actions generalizing t with
  | nil => exact ⟨rfl, rfl⟩
  | cons a actions ih =>
    obtain ⟨hgauge, hbells, hmetadata⟩ := collected_apply_gauge h a
    obtain ⟨hbells', hmetadata'⟩ := ih hgauge
    exact ⟨hbells'.trans hbells, hmetadata'.trans hmetadata⟩

/-- **The measuring pass** collects nothing. -/
theorem collected_measuringPass (config : Config) (bytes : List UInt8) :
    (Session.measuringPass config bytes).bells = 0 ∧
      (Session.measuringPass config bytes).metadata = [] := by
  let start := measuring config.maxWidth config.maxHeight
  let actions := (start.parser.parse bytes).2
  let read := start.process bytes
  have hgauge : read.canvas.isGauge = true := isGauge_process _ _
  obtain ⟨hbells, hmetadata⟩ :=
    collected_foldl_apply_gauge (t := start) rfl actions
  have hread : read = { actions.foldl apply start with
      parser := (start.parser.parse bytes).1 } := process_eq _ _
  obtain ⟨hbells', hmetadata'⟩ := collected_foldl_apply_gauge
    (t := { read with parser := read.parser.finish.1 }) hgauge read.parser.finish.2
  have hreadBells : read.bells = 0 := (congrArg Terminal.bells hread).trans hbells
  have hreadStrings : read.metadata = [] := (congrArg Terminal.metadata hread).trans hmetadata
  exact ⟨hbells'.trans hreadBells, hmetadata'.trans hreadStrings⟩

end Terminal

/-- Other sizes of the screen. -/
def Config.resized (config : Config) (minWidth minHeight maxWidth maxHeight : Nat) : Config :=
  { config with minWidth, minHeight, maxWidth, maxHeight }

/-- The size has no say in how a stream is cut. -/
theorem Burst.plan_resized (config : Config) (minWidth minHeight maxWidth maxHeight total : Nat) :
    plan (config.resized minWidth minHeight maxWidth maxHeight) total = plan config total := by
  unfold plan Config.resized
  rfl

namespace Session

/-- The descriptive strings that are read in the first bytes of a stream, which may be
over behind them. -/
def stringsRead (data : List UInt8) (count : Nat) (last : Bool) : List String :=
  let read := Parser.initial.parse (data.take count)
  (if last then read.2 ++ read.1.finish.2 else read.2).flatMap Terminal.stringsOf

/-- The strings do not depend on the sizes. -/
theorem stringsAt_eq (config : Config) (data : List UInt8) (count : Nat) (last : Bool) :
    stringsAt config data count last = stringsRead data count last := by
  let start := Terminal.rendering (sizeFor config data).1 (sizeFor config data).2 config.maxWidth
    config.maxHeight config.transparency
  have hdraws : (snapshot config data count).canvas.isGauge = false :=
    Terminal.isGauge_process start _
  have hread : (snapshot config data count).metadata =
      (Parser.initial.parse (data.take count)).2.flatMap Terminal.stringsOf :=
    Terminal.metadata_process (t := start) rfl _
  have hparser : (snapshot config data count).parser =
      (Parser.initial.parse (data.take count)).1 := Terminal.parser_process start _
  unfold stringsAt
  cases last with
  | false => exact hread
  | true =>
    rw [if_pos rfl, (Terminal.collected_finish hdraws).2, hread, hparser, ← List.flatMap_append]
    rfl

/-- What a burst has to tell: its bells, and the strings so far. -/
theorem collected_playedTerminal (config : Config) (acquired : Acquired) {burst : Burst}
    (later : List Burst) (hlt : burst.start < burst.stop) :
    let t := playedTerminal (reelAt config acquired burst.start) burst later
    t.bells = (burst.actions acquired.data).count (.control .bell) ∧
      t.metadata = stringsRead acquired.data burst.stop later.isEmpty := by
  intro t
  have hbells := bells_playedTerminal config acquired later (Nat.le_of_lt hlt)
  rw [Burst.bellsAt_stop (Nat.le_of_lt hlt)] at hbells
  have hterminal : t.silent = _ := playedTerminal_reelAt rfl hlt
  have hstrings : t.metadata = stringsAt config acquired.data burst.stop later.isEmpty := by
    rw [Terminal.metadata_of_silent_eq hterminal, stringsAt]
    split <;> rfl
  exact ⟨Nat.add_left_cancel hbells, hstrings.trans (stringsAt_eq ..)⟩

/-- Two sessions have told the same last. -/
structure ToldAlike (s t : Session) : Prop where
  status : s.lastStatus = t.lastStatus
  strings : s.stringsTold = t.stringsTold

/-- Two turns give the same notices and show the same strings, and what was told last is
the same behind them. -/
structure Accord (a b : Turn) : Prop where
  notices : a.notices = b.notices
  strings : a.step.frame?.bind Frame.metadata = b.step.frame?.bind Frame.metadata
  alike : ToldAlike a.session b.session

section Alike

variable {s t : Session}

/-- Sessions that have told the same do so when they go on in the blink phase. -/
theorem ToldAlike.advanceBlink (h : ToldAlike s t) : ToldAlike s.advanceBlink t.advanceBlink := by
  obtain ⟨hstatus, hstrings⟩ := s.advanceBlink_memory
  obtain ⟨hstatus', hstrings'⟩ := t.advanceBlink_memory
  exact ⟨hstatus.trans (h.status.trans hstatus'.symm),
    hstrings.trans (h.strings.trans hstrings'.symm)⟩

/-- Sessions that have told the same tell the same of a status. -/
theorem ToldAlike.tellStatus (h : ToldAlike s t) (status : Status) :
    (s.tellStatus status).2 = (t.tellStatus status).2 ∧
      ToldAlike (s.tellStatus status).1 (t.tellStatus status).1 := by
  unfold Session.tellStatus
  rw [h.status]
  split
  · exact ⟨rfl, h⟩
  · exact ⟨rfl, rfl, h.strings⟩

/-- Sessions that have told the same tell the same of strings. -/
theorem ToldAlike.tellMetadata (h : ToldAlike s t) (strings : List String) :
    (s.tellMetadata strings).2 = (t.tellMetadata strings).2 ∧
      ToldAlike (s.tellMetadata strings).1 (t.tellMetadata strings).1 := by
  unfold Session.tellMetadata
  rw [h.strings]
  split
  · exact ⟨rfl, h⟩
  · exact ⟨rfl, h.status, rfl⟩

/-- Sessions that have told the same report the same. -/
theorem ToldAlike.report (h : ToldAlike s t) (strings : List String) (status : Status) :
    (s.report strings status).2 = (t.report strings status).2 ∧
      ToldAlike (s.report strings status).1 (t.report strings status).1 := by
  obtain ⟨htold, hbetween⟩ := h.tellMetadata strings
  obtain ⟨hstatuses, hafter⟩ := hbetween.tellStatus status
  exact ⟨congrArg₂ (· ++ ·) htold hstatuses, hafter⟩

/-- **A burst** sounds the same on every screen. -/
theorem ToldAlike.playBurst (h : ToldAlike s t) (config config' : Config) (acquired : Acquired)
    {burst : Burst} (later : List Burst) (hlt : burst.start < burst.stop)
    (source source' : Source) :
    Accord (.ofMade source (s.playBurst (reelAt config acquired burst.start) burst later))
      (.ofMade source' (t.playBurst (reelAt config' acquired burst.start) burst later)) := by
  let reel := reelAt config acquired burst.start
  let reel' := reelAt config' acquired burst.start
  let status : Status := ⟨fractionOf burst.stop acquired.data.toArray.size, !later.isEmpty⟩
  obtain ⟨hbells, hstrings⟩ := collected_playedTerminal config acquired later hlt
  obtain ⟨hbells', hstrings'⟩ := collected_playedTerminal config' acquired later hlt
  have hsameBells : (playedTerminal reel burst later).bells =
      (playedTerminal reel' burst later).bells := hbells.trans hbells'.symm
  have hsameStrings : (playedTerminal reel burst later).metadata =
      (playedTerminal reel' burst later).metadata := hstrings.trans hstrings'.symm
  obtain ⟨hnotices, hstatus, htold⟩ := s.playBurst_report reel burst later
  obtain ⟨hnotices', hstatus', htold'⟩ := t.playBurst_report reel' burst later
  obtain ⟨hreport, hafter⟩ := h.report (playedTerminal reel' burst later).metadata status
  rw [hsameStrings] at hnotices hstatus htold
  rw [hsameBells] at hnotices
  have hframe := congrArg Frame.metadata (s.playBurst_fst_snd reel burst later).1
  have hframe' := congrArg Frame.metadata (t.playBurst_fst_snd reel' burst later).1
  refine ⟨?_, ?_, ?_, ?_⟩
  · exact hnotices.trans ((congrArg _ hreport).trans hnotices'.symm)
  · exact hframe.trans ((congrArg some hsameStrings).trans hframe'.symm)
  · exact hstatus.trans (hafter.status.trans hstatus'.symm)
  · exact htold.trans (hafter.strings.trans htold'.symm)

/-- An empty screen has no strings, and is told of like any other. -/
theorem playNothing_report (s : Session) (acquired : Acquired) :
    let total := acquired.data.length
    let position := if total = 0 then 0.0 else fractionOf (s.config.seek.lead total) total
    let report := s.report [] (.stopped position)
    (s.playNothing acquired).1.metadata = some [] ∧
      (s.playNothing acquired).2.2 = report.2 ∧
      (s.playNothing acquired).2.1.lastStatus = report.1.lastStatus ∧
      (s.playNothing acquired).2.1.stringsTold = report.1.stringsTold :=
  ⟨rfl, rfl, rfl, rfl⟩

/-- **The turn that opens the stream** sounds the same on every screen. -/
theorem ToldAlike.begin (h : ToldAlike s t) {minWidth minHeight maxWidth maxHeight : Nat}
    (hconfig : t.config = s.config.resized minWidth minHeight maxWidth maxHeight)
    (acquired : Acquired) (source source' : Source) :
    Accord (.ofMade source (s.begin acquired)) (.ofMade source' (t.begin acquired)) := by
  have hplans : Burst.plan t.config acquired.data.length =
      Burst.plan s.config acquired.data.length := by
    rw [hconfig, Burst.plan_resized]
  cases hplan : Burst.plan s.config acquired.data.length with
  | nil =>
    obtain ⟨hstrings, hnotices, hstatus, htold⟩ := s.playNothing_report acquired
    obtain ⟨hstrings', hnotices', hstatus', htold'⟩ := t.playNothing_report acquired
    have hseek : t.config.seek = s.config.seek := by
      rw [hconfig]
      rfl
    rw [hseek] at hnotices' hstatus' htold'
    obtain ⟨hreport, hafter⟩ := h.report []
      (.stopped (if acquired.data.length = 0 then 0.0
        else fractionOf (s.config.seek.lead acquired.data.length) acquired.data.length))
    rw [begin_eq_playNothing hplan, begin_eq_playNothing (hplans.trans hplan)]
    refine ⟨?_, hstrings.trans hstrings'.symm, ?_, ?_⟩
    · exact congrArg (_ ++ ·) (hnotices.trans (hreport.trans hnotices'.symm))
    · exact hstatus.trans (hafter.status.trans hstatus'.symm)
    · exact htold.trans (hafter.strings.trans htold'.symm)
  | cons burst later =>
    obtain ⟨hlt, hbegin⟩ := begin_eq_playBurst hplan
    obtain ⟨-, hbegin'⟩ := begin_eq_playBurst (hplans.trans hplan)
    have hmeasured : ToldAlike (s.measure acquired.data).2 (t.measure acquired.data).2 := by
      rw [measure_eq, measure_eq]
      exact ⟨h.status, h.strings⟩
    have hplayed := hmeasured.playBurst s.config t.config acquired later hlt source source'
    rw [hbegin, hbegin']
    exact ⟨congrArg (_ ++ ·) hplayed.notices, hplayed.strings, hplayed.alike⟩

end Alike

section Course

variable (config : Config) (sustain : Bool) (source : Source)

/-- A session at the turn that opens the stream does not wait, and has told of the
placeholder at most. -/
theorem told_readied :
    (readied config sustain source).pause? = none ∧
      (readied config sustain source).lastStatus = (if source.isReady then none else some {}) ∧
      (readied config sustain source).stringsTold = none := by
  unfold readied
  split <;> exact ⟨rfl, rfl, rfl⟩

/-- In front of the stream there is the status of the placeholder to tell. -/
theorem told_of_lt_leadIn {m : Nat} (hlt : m < source.leadIn) :
    let here := (unbegun config sustain).turns source m
    let turn := here.1.turn here.2
    here.1.pause? = none ∧ turn.notices = (if m = 0 then [.status {}] else []) ∧
      turn.step.frame?.bind Frame.metadata = none ∧ turn.session.lastStatus = some {} ∧
      turn.session.stringsTold = none := by
  intro here turn
  rcases turn_of_lt_leadIn config sustain hlt with
    ⟨rfl, hhere, hturn⟩ | ⟨rfl, hhere, hbroken, hturn⟩
  · have hpause : here.1.pause? = none := congrArg (·.1.pause?) hhere
    have hmade : turn = .ofMade source (unbegun config sustain).placeholder := hturn
    rw [hmade]
    exact ⟨hpause, rfl, rfl, rfl, rfl⟩
  · obtain ⟨hwaits, hstatus, hstrings⟩ := told_readied config sustain source
    rw [if_neg (Source.resolve_of_brokenOff hbroken).1] at hstatus
    have hpause : here.1.pause? = none := (congrArg (·.1.pause?) hhere).trans hwaits
    have hmade : turn = ⟨.brokenOff, readied config sustain source, source.resolve.2, []⟩ := hturn
    rw [hmade]
    exact ⟨hpause, rfl, rfl, hstatus, hstrings⟩

section Resized

variable {config} {source} (minWidth minHeight maxWidth maxHeight : Nat)

/-- **One turn** sounds the same on every screen, up to the end of the stream. -/
theorem accord_turn {m : Nat}
    (hm : m < source.leadIn + max 1 (Burst.plan config source.yield.data.length).length) :
    let resized := config.resized minWidth minHeight maxWidth maxHeight
    let here := (unbegun config sustain).turns source m
    let there := (unbegun resized sustain).turns source m
    ToldAlike here.1 there.1 →
      here.1.pause? = there.1.pause? ∧ Accord (here.1.turn here.2) (there.1.turn there.2) := by
  intro resized here there hbefore
  rcases source.call_cases m with hlt | rfl | ⟨k, rfl⟩
  · obtain ⟨hpause, hnotices, hstrings, hstatus, htold⟩ :=
      told_of_lt_leadIn config sustain source hlt
    obtain ⟨hpause', hnotices', hstrings', hstatus', htold'⟩ :=
      told_of_lt_leadIn resized sustain source hlt
    exact ⟨hpause.trans hpause'.symm, hnotices.trans hnotices'.symm,
      hstrings.trans hstrings'.symm, hstatus.trans hstatus'.symm, htold.trans htold'.symm⟩
  · obtain ⟨hpause, -⟩ := told_readied config sustain source
    obtain ⟨hpause', -⟩ := told_readied resized sustain source
    have hhere : here = (readied config sustain source, source.entered) := turns_leadIn ..
    have hthere : there = (readied resized sustain source, source.entered) := turns_leadIn ..
    have hconfig : (readied resized sustain source).config =
        (readied config sustain source).config.resized minWidth minHeight maxWidth maxHeight := by
      rw [(readied_eq resized sustain source).1, (readied_eq config sustain source).1]
    rw [hhere, hthere] at hbefore ⊢
    rw [(turn_entered config sustain source).2, (turn_entered resized sustain source).2]
    exact ⟨hpause.trans hpause'.symm, hbefore.begin hconfig _ _ _⟩
  · have hmore : k + 1 < (Burst.plan config source.yield.data.length).length := by omega
    have hahead := ahead_of_leadIn config sustain source k
    have hahead' := ahead_of_leadIn resized sustain source k
    let burst := (Burst.plan config source.yield.data.length)[k + 1]
    let later := (Burst.plan config source.yield.data.length).drop (k + 2)
    have hdrop : (Burst.plan config source.yield.data.length).drop (k + 1) = burst :: later :=
      List.drop_eq_getElem_cons hmore
    have hlt : burst.start < burst.stop :=
      (Burst.start_eq_played (List.getElem?_eq_getElem hmore)).2
    have hphase : here.1.phase = .playing (reelAt config source.yield burst.start) burst later :=
      hahead.next burst later hdrop
    have hphase' : there.1.phase = .playing (reelAt resized source.yield burst.start) burst later :=
      hahead'.next burst later ((congrArg _ (Burst.plan_resized ..)).trans hdrop)
    have hinterval : here.1.config.frameInterval = there.1.config.frameInterval := by
      rw [hahead.config_eq, hahead'.config_eq]
      rfl
    rw [turn_of_playing hphase, turn_of_playing hphase', pause?, hphase, pause?, hphase']
    exact ⟨congrArg some hinterval,
      hbefore.advanceBlink.playBurst config resized source.yield later hlt _ _⟩

/-- With other allowed sizes a session tells the same up to the last burst. -/
theorem toldAlike_turns {m : Nat}
    (hm : m ≤ source.leadIn + max 1 (Burst.plan config source.yield.data.length).length) :
    ToldAlike ((unbegun config sustain).turns source m).1
      ((unbegun (config.resized minWidth minHeight maxWidth maxHeight) sustain).turns
        source m).1 := by
  induction m with
  | zero => exact ⟨rfl, rfl⟩
  | succ m ih =>
    rw [turns_add, turns_add]
    have hturn := accord_turn sustain minWidth minHeight maxWidth maxHeight hm
      (ih (Nat.le_of_lt hm))
    exact hturn.2.alike

end Resized

end Course

/-- Whether a turn runs the measuring pass: the note of it is cleared in front of the turn, and
made again by the pass. -/
def measures (s : Session) (source : Source) : Bool :=
  (({ s with sized := false } : Session).turn source).session.sized

section Measuring

variable {s : Session}

theorem unmeasured_of_sized (h : s.sized = false) : ({ s with sized := false } : Session) = s := by
  rw [← h]

/-- Playing a burst measures nothing. -/
theorem sized_playBurst (s : Session) (reel : Reel) (burst : Burst) (later : List Burst) :
    (s.playBurst reel burst later).2.1.sized = s.sized := by
  obtain ⟨-, status, strings, hsession⟩ := s.playBurst_fst_snd reel burst later
  rw [hsession]

/-- To begin measures the stream if there is a burst to play and the screen may grow. -/
theorem sized_begin (s : Session) (acquired : Acquired) :
    (s.begin acquired).2.1.sized =
      (s.sized || s.config.needsSizing && !(Burst.plan s.config acquired.data.length).isEmpty) := by
  cases hplan : Burst.plan s.config acquired.data.length with
  | nil =>
    obtain ⟨-, status, strings, hsession⟩ := s.playNothing_fst_snd acquired
    rw [begin_eq_playNothing hplan, hsession]
    exact (congrArg (s.sized || ·) (Bool.and_false _)).trans (Bool.or_false _) |>.symm
  | cons burst later =>
    rw [(begin_eq_playBurst hplan).2, sized_playBurst, measure_eq]
    exact congrArg (s.sized || ·) (Bool.and_true _).symm

/-- A stream that has been opened is not measured again. -/
theorem Opened.measures_eq (h : s.Opened) (source : Source) : s.measures source = false := by
  let cleared : Session := { s with sized := false }
  show (cleared.turn source).session.sized = false
  cases hphase : s.phase with
  | start => exact absurd hphase h.1
  | opening => exact absurd hphase h.2
  | playing reel burst later =>
    have hblink : cleared.advanceBlink.sized = false := by
      unfold Session.advanceBlink
      split
      · rfl
      · split <;> rfl
    have hplaying : cleared.phase = .playing reel burst later := hphase
    rw [turn_of_playing hplaying]
    exact (sized_playBurst _ _ _ _).trans hblink
  | sustaining last begun =>
    have hsustaining : cleared.phase = .sustaining last begun := hphase
    rw [turn_of_sustaining hsustaining]
    rfl
  | done =>
    have hdone : cleared.phase = .done := hphase
    rw [turn_of_done hdone]

/-- A session comes to its source with nothing measured. -/
theorem sized_readied (config : Config) (sustain : Bool) (source : Source) :
    (readied config sustain source).sized = false := by
  unfold readied
  split <;> rfl

/-- **Only the turn that opens the stream measures it**, if the screen may grow and there
is anything to play. -/
theorem measures_turns (config : Config) (sustain : Bool) (source : Source) (m : Nat) :
    let here := (unbegun config sustain).turns source m
    here.1.measures here.2 = true ↔ m = source.leadIn ∧ config.needsSizing = true ∧
      Burst.plan config source.yield.data.length ≠ [] := by
  intro here
  have hunmeasured := unmeasured_of_sized (sized_readied config sustain source)
  rcases source.call_cases m with hlt | rfl | ⟨k, rfl⟩
  · have hnone : here.1.measures here.2 = false := by
      rcases turn_of_lt_leadIn config sustain hlt with ⟨-, hhere, hturn⟩ | ⟨-, hhere, -, hturn⟩
      · have hplaceholder : here = (unbegun config sustain, source) := hhere
        rw [hhere] at hturn
        rw [hplaceholder]
        exact congrArg (·.session.sized) hturn
      · have hbroken : here = (readied config sustain source, source) := hhere
        rw [hhere] at hturn
        rw [hbroken, measures, hunmeasured]
        exact (congrArg (·.session.sized) hturn).trans (sized_readied config sustain source)
    rw [hnone]
    exact ⟨fun h => absurd h Bool.false_ne_true, fun h => absurd h.1 (Nat.ne_of_lt hlt)⟩
  · have hhere : here = (readied config sustain source, source.entered) := turns_leadIn ..
    rw [hhere, measures, hunmeasured, (turn_entered config sustain source).2]
    show (Session.begin _ _).2.1.sized = true ↔ _
    rw [sized_begin, (readied_eq config sustain source).1, sized_readied, Bool.false_or,
      Bool.and_eq_true, Bool.not_eq_true', List.isEmpty_eq_false_iff]
    exact ⟨fun h => ⟨rfl, h⟩, And.right⟩
  · have hopened : here.1.Opened := by
      have hhere : here = _ := turns_add (unbegun config sustain) source source.leadIn (k + 1)
      rw [hhere, turns_leadIn]
      show (Session.turns (Session.turn _ _).session _ k).1.Opened
      rw [(turn_entered config sustain source).2]
      exact (opened_begin _ _).turns _ k
    rw [hopened.measures_eq]
    exact ⟨fun h => absurd h Bool.false_ne_true, fun h => by omega⟩

end Measuring

/-- As long as bursts are left, a session is not over. -/
theorem isDone_turns {config : Config} {sustain : Bool} {source : Source} {m : Nat}
    (hm : m < source.leadIn + (Burst.plan config source.yield.data.length).length) :
    ((unbegun config sustain).turns source m).1.isDone = false := by
  have hreadied : (readied config sustain source).isDone = false := by
    unfold readied
    split <;> rfl
  rcases source.call_cases m with hlt | rfl | ⟨k, rfl⟩
  · rcases turn_of_lt_leadIn config sustain hlt with ⟨-, hhere, -⟩ | ⟨-, hhere, -⟩
    · exact congrArg (·.1.isDone) hhere
    · exact (congrArg (·.1.isDone) hhere).trans hreadied
  · rw [turns_leadIn]
    exact hreadied
  · have hmore : k + 1 < (Burst.plan config source.yield.data.length).length := by omega
    have hphase := (ahead_of_leadIn config sustain source k).next _ _
      (List.drop_eq_getElem_cons hmore)
    rw [isDone, hphase]

/-- The call for a burst rings its bells. -/
theorem countP_isBeep_burst (config : Config) (sustain : Bool) (source : Source) {i : Nat}
    {burst : Burst} (hburst : (Burst.plan config source.yield.data.length)[i]? = some burst) :
    let here := (unbegun config sustain).turns source (source.leadIn + i)
    (here.1.turn here.2).notices.countP Notice.isBeep =
      (burst.actions source.yield.data).count (.control .bell) := by
  intro here
  obtain ⟨hstart, hlt⟩ := Burst.start_eq_played hburst
  have hturn := countP_isBeep_turns config sustain source (source.leadIn + i)
  have hcount : source.leadIn + i - source.leadIn = i := by omega
  have hcount' : source.leadIn + i + 1 - source.leadIn = i + 1 := by omega
  rw [hcount, hcount', ← hstart, Burst.played_succ hburst, Burst.bellsAt_stop (Nat.le_of_lt hlt)]
    at hturn
  exact Nat.add_left_cancel hturn

/-- Every other call rings none. -/
theorem countP_isBeep_between (config : Config) (sustain : Bool) (source : Source) {m : Nat}
    (hm : m < source.leadIn ∨
      source.leadIn + (Burst.plan config source.yield.data.length).length ≤ m) :
    let here := (unbegun config sustain).turns source m
    (here.1.turn here.2).notices.countP Notice.isBeep = 0 := by
  intro here
  have hturn := countP_isBeep_turns config sustain source m
  have hplayed : Burst.played config source.yield.data.length (m + 1 - source.leadIn) =
      Burst.played config source.yield.data.length (m - source.leadIn) := by
    rcases hm with hlt | hle
    · have hnone : m + 1 - source.leadIn = m - source.leadIn := by omega
      rw [hnone]
    · rw [Burst.played_of_length_le (by omega), Burst.played_of_length_le (by omega)]
  rw [hplayed] at hturn
  exact Nat.add_eq_left.1 hturn

end Session

namespace Performance

variable {σ : Type}

/-- Whether a call runs the measuring pass: the note of it is cleared in front of the call, and
made again by the pass. -/
def measures (stage : Stage σ) (p : Performance σ) : Bool :=
  ({ p with session := { p.session with sized := false } } : Performance σ).next stage
    |>.2.session.sized

section Calls

variable {stage : Stage σ} {p q : Performance σ}

/-- A call that nothing disturbs measures if its session's turn does. -/
theorem Undisturbed.measures_eq (h : p.Undisturbed stage) :
    p.measures stage = p.session.measures p.source := by
  let cleared : Performance σ := { p with session := { p.session with sized := false } }
  have hcleared : cleared.Undisturbed stage := ⟨h.awake, h.completes⟩
  rw [measures, hcleared.next_eq]
  rfl

/-- **One call**: where two sessions wait alike and their turns are in accord, the stage
cannot tell them apart. -/
theorem Undisturbed.alike (h : p.Undisturbed stage) (hworld : q.world = p.world)
    (hpause : p.session.pause? = q.session.pause?)
    (haccord : Session.Accord (p.session.turn p.source) (q.session.turn q.source)) :
    q.Undisturbed stage ∧ q.asked stage = p.asked stage ∧
      (q.next stage).2.world = (p.next stage).2.world ∧
      (q.next stage).1.frame?.bind Frame.metadata =
        (p.next stage).1.frame?.bind Frame.metadata := by
  have hundisturbed : q.Undisturbed stage := by
    refine ⟨hworld ▸ h.awake, ?_⟩
    rw [hworld, ← hpause]
    exact h.completes
  refine ⟨hundisturbed, ?_, ?_, ?_⟩
  · rw [asked, asked, hworld, ← hpause, ← haccord.notices]
  · have hpaused : q.pausedWorld stage = p.pausedWorld stage := by
      rw [pausedWorld, pausedWorld, hworld, ← hpause]
    rw [hundisturbed.next_eq, h.next_eq]
    show stage.tellAll _ _ = stage.tellAll _ _
    rw [hpaused, ← haccord.notices]
  · rw [hundisturbed.result_zero, h.result_zero]
    exact haccord.strings.symm

end Calls

section Resized

variable {stage : Stage σ} {world : σ} {config : Config} {sustain : Bool} {source : Source}

/-- **A run of calls**, up to the end of the stream. -/
theorem after_resized (minWidth minHeight maxWidth maxHeight : Nat) {n : Nat}
    (hfree : (fresh config sustain source world).RunsFreely stage n)
    (hn : n ≤ source.leadIn + max 1 (Burst.plan config source.yield.data.length).length) :
    let p := fresh config sustain source world
    let q := fresh (config.resized minWidth minHeight maxWidth maxHeight) sustain source world
    (q.after stage n).world = (p.after stage n).world ∧ q.RunsFreely stage n ∧
      ∀ m < n, (q.after stage m).asked stage = (p.after stage m).asked stage ∧
        (q.result stage m).frame?.bind Frame.metadata =
          (p.result stage m).frame?.bind Frame.metadata := by
  intro p q
  induction n with
  | zero =>
    exact ⟨rfl, fun m hm => absurd hm (Nat.not_lt_zero m),
      fun m hm => absurd hm (Nat.not_lt_zero m)⟩
  | succ n ih =>
    have hbefore := hfree.mono (Nat.le_succ n)
    obtain ⟨hworld, hfree', hsame⟩ := ih hbefore (Nat.le_of_lt hn)
    obtain ⟨hsession, hsource⟩ := Prod.mk.inj hbefore.state_after
    obtain ⟨hsession', hsource'⟩ := Prod.mk.inj hfree'.state_after
    have hturn := Session.accord_turn sustain minWidth minHeight maxWidth maxHeight hn
      (Session.toldAlike_turns sustain minWidth minHeight maxWidth maxHeight (Nat.le_of_lt hn))
    have hpause : (p.after stage n).session.pause? = (q.after stage n).session.pause? := by
      rw [hsession, hsession']
      exact hturn.1
    have haccord : Session.Accord ((p.after stage n).session.turn (p.after stage n).source)
        ((q.after stage n).session.turn (q.after stage n).source) := by
      rw [hsession, hsource, hsession', hsource']
      exact hturn.2
    have hundisturbed := hfree n (Nat.lt_succ_self n)
    obtain ⟨hnext, hasked, hworld', hstrings⟩ := hundisturbed.alike hworld hpause haccord
    refine ⟨?_, ?_, ?_⟩
    · rw [after_succ, after_succ]
      exact hworld'
    · intro m hm
      rcases Nat.lt_succ_iff_lt_or_eq.1 hm with hlt | rfl
      · exact hfree' m hlt
      · exact hnext
    · intro m hm
      rcases Nat.lt_succ_iff_lt_or_eq.1 hm with hlt | rfl
      · exact hsame m hlt
      · exact ⟨hasked, hstrings⟩

end Resized

/-- **Every bell rings once, and sizing is not heard.**  In a run that nothing disturbs:

* The call that plays a burst shows a rendered frame, and rings as many bells as there
  are bell actions among what is read in the burst, behind the bytes in front of it.
* Every other call rings none.
* Behind the last burst, so many bells have been rung as there are bell actions in all
  that is played.  A session that is over has come that far.
* A call runs the measuring pass if it is the one that opens the stream, the smallest and the
  largest allowed size differ, and there is a burst to play.  From this call on, frames have the
  size that the pass over all bytes asks for, kept within the allowed sizes, or the smallest one
  where there is no pass.
* With other allowed sizes, be it with measuring or without it, every call up to the last
  burst asks the same waits and gives the same notices, and its frame has the same
  strings.
* The measuring pass takes note of no bell and of no string, whatever it reads. -/
theorem bells_ring_once {σ : Type} (stage : Stage σ) (world : σ) (config : Config)
    (sustain : Bool) (source : Source) {n : Nat}
    (hfree : (fresh config sustain source world).RunsFreely stage n) :
    let p := fresh config sustain source world
    let data := source.yield.data
    let bursts := Burst.plan config data.length
    let pass := fun bytes =>
      ((Terminal.measuring config.maxWidth config.maxHeight).process bytes).finish
    (∀ i burst, bursts[i]? = some burst → source.leadIn + i < n →
      (∃ f, p.result stage (source.leadIn + i) = .frame f ∧ f.metadata ≠ none) ∧
      ((p.after stage (source.leadIn + i)).told stage).countP Notice.isBeep =
        (burst.actions data).count (.control .bell)) ∧
    (∀ m < n, m < source.leadIn ∨ source.leadIn + bursts.length ≤ m →
      ((p.after stage m).told stage).countP Notice.isBeep = 0) ∧
    ((p.after stage n).session.isDone = true ∨ source.leadIn + bursts.length ≤ n →
      p.beeps stage n = (Parser.initial.parse
        (data.take (Burst.finalStop config data.length))).2.count (.control .bell)) ∧
    (∀ m < n, (p.after stage m).measures stage = true ↔
      m = source.leadIn ∧ config.needsSizing = true ∧ bursts ≠ []) ∧
    (∀ m < n, source.leadIn ≤ m → ∀ f, p.result stage m = .frame f → (f.width, f.height) =
      if config.needsSizing = true ∧ bursts ≠ [] then
        (max (config.fitWidth (pass data).extent.1) 1,
          max (config.fitHeight (pass data).extent.2) 1)
      else (max config.minWidth 1, max config.minHeight 1)) ∧
    (∀ minWidth minHeight maxWidth maxHeight,
      let q := fresh (config.resized minWidth minHeight maxWidth maxHeight) sustain source world
      ∀ m < n, m < source.leadIn + max 1 bursts.length →
        (q.after stage m).asked stage = (p.after stage m).asked stage ∧
        (q.result stage m).frame?.bind Frame.metadata =
          (p.result stage m).frame?.bind Frame.metadata) ∧
    ∀ bytes, (pass bytes).bells = 0 ∧ (pass bytes).metadata = [] := by
  intro p data bursts pass
  refine ⟨?_, ?_, ?_, ?_, ?_, ?_, Terminal.collected_measuringPass config⟩
  · intro i burst hburst hi
    have hlength : i < bursts.length := (List.getElem?_eq_some_iff.1 hburst).1
    have hconfig := (Session.readied_eq config sustain source).1
    obtain ⟨f, hshown, hrendered, -⟩ :=
      (Session.plays_begin source.entered.resolve.2 hconfig source.yield).shown i
        (Nat.lt_of_lt_of_le hlength (Nat.le_max_right _ _))
    have houtcome := (Session.outcome_leadIn config sustain source i).trans hshown
    have hresult : p.result stage (source.leadIn + i) = .frame f :=
      (hfree.mono hi).result_eq.trans houtcome
    refine ⟨⟨f, hresult, hrendered⟩, ?_⟩
    rw [hfree.told_eq hi]
    exact Session.countP_isBeep_burst config sustain source hburst
  · intro m hm hbetween
    rw [hfree.told_eq hm]
    exact Session.countP_isBeep_between config sustain source hbetween
  · intro hover
    have hplayed : source.leadIn + bursts.length ≤ n := by
      rcases hover with hdone | hle
      · by_contra hmore
        obtain ⟨hsession, -⟩ := Prod.mk.inj hfree.state_after
        rw [hsession] at hdone
        exact absurd (hdone.symm.trans (Session.isDone_turns (Nat.lt_of_not_le hmore)))
          Bool.noConfusion
      · exact hle
    have hall : Burst.played config data.length (n - source.leadIn) =
        Burst.finalStop config data.length :=
      Burst.played_of_length_le (Nat.le_sub_of_add_le' hplayed)
    rw [beeps_eq hfree, hall, Session.bellsAt, bellsIn_eq_count]
  · intro m hm
    obtain ⟨hsession, hsource⟩ := Prod.mk.inj (hfree.mono (Nat.le_of_lt hm)).state_after
    rw [(hfree m hm).measures_eq, hsession, hsource]
    exact Session.measures_turns config sustain source m
  · intro m hm hopen f hframe
    have houtcome := (hfree.mono hm).result_eq.symm.trans hframe
    have hbehind : ¬m < source.placeholders :=
      Nat.not_lt.2 (Nat.le_trans source.placeholders_le_leadIn hopen)
    obtain ⟨-, hsize⟩ := Session.framed_outcome config sustain source houtcome
    rw [if_neg hbehind, Session.frameSize_eq] at hsize
    exact hsize
  · intro minWidth minHeight maxWidth maxHeight q m hm hlast
    obtain ⟨-, -, hsame⟩ := after_resized minWidth minHeight maxWidth maxHeight
      (hfree.mono hm) hlast
    exact hsame m (Nat.lt_succ_self m)

/-- Two bells, with one behind an escape that is shown instead, and one behind the end of
the text, wherever the stream is cut.  Its screen has to be measured, and is as wide as the three
glyphs that are shown; but the call that measures asks the same as one that does not. -/
theorem bells_ring_once_cut :
    let config : Config := { modemSpeed := .bps 600, minWidth := 1, minHeight := 1 }
    let source : Source := .ofLoader (.loads [0x07, 0x41, 0x1B, 0x07, 0x07, 0x1A, 0x07])
    let p := fresh config true source ()
    let q := fresh (config.resized 80 25 80 25) true source ()
    p.RunsFreely .silent 8 ∧ p.beeps .silent 8 = 2 ∧
      (p.after .silent 1).measures .silent = true ∧
      (∃ f, p.result .silent 1 = .frame f ∧ (f.width, f.height) = (3, 1)) ∧
      (q.after .silent 1).asked .silent = (p.after .silent 1).asked .silent := by
  intro config source p q
  have hfree : p.RunsFreely .silent 8 := runsFreely_silent p 8
  have hlength : source.leadIn + (Burst.plan config source.yield.data.length).length ≤ 8 :=
    Nat.add_le_add_left (Burst.length_plan_le config 7) 1
  have hsome : Burst.plan config source.yield.data.length ≠ [] := by
    intro hnil
    exact absurd ((Burst.plan_eq_nil_iff config _).1 hnil) (by decide)
  obtain ⟨burst, hfirst⟩ : ∃ burst, (Burst.plan config source.yield.data.length)[0]? = some burst :=
    ⟨_, List.getElem?_eq_getElem (List.length_pos_iff.2 hsome)⟩
  have hlead : source.leadIn + 0 = 1 := rfl
  obtain ⟨hbursts, -, htotal, hmeasures, hsizes, hresized, -⟩ :=
    bells_ring_once .silent () config true source hfree
  refine ⟨hfree, ?_, ?_, ?_, ?_⟩
  · rw [htotal (.inr hlength)]
    decide +kernel
  · exact (hmeasures 1 (by decide)).2 ⟨rfl, by decide, hsome⟩
  · obtain ⟨⟨f, hframe, -⟩, -⟩ := hbursts 0 burst hfirst (by decide)
    rw [hlead] at hframe
    have hsize := hsizes 1 (by decide) (Nat.le_of_eq hlead) f hframe
    rw [if_pos ⟨by decide, hsome⟩] at hsize
    exact ⟨f, hframe, hsize.trans (by decide +kernel)⟩
  · have hopening : 1 < source.leadIn + max 1 (Burst.plan config source.yield.data.length).length :=
      Nat.add_lt_add_left (Nat.le_max_left 1 _) 1
    exact (hresized 80 25 80 25 1 (by decide) hopening).1

end Performance

end BaudReel
