import BaudReel.Proofs.Strokes
import BaudReel.Proofs.Turn

/-!
# Frames are snapshots

A stream is cut into bursts wherever the modem, the starting position and the
frame interval say, in the middle of a control sequence if need be.  None of
that can be seen: a frame shows what a fresh terminal shows that reads all bytes
up to the end of the burst at once (`Session.snapshot`).

The reason is that a burst carries on from the terminal of the burst before it,
up to the bells that were taken in between (`Session.reelAt`).  The main
statements are `showsPrefix_burstFrame`, for the frame of one burst, and
`carried_reelAt`, for what the next one begins with.
-/

namespace BaudReel

namespace Terminal

/-- The terminal with its bells taken. -/
def silent (t : Terminal) : Terminal :=
  { t with bells := 0 }

/-- What an action does but for the bells does not depend on the bells. -/
theorem silent_apply (t : Terminal) (a : Action) : (t.silent.apply a).silent = (t.apply a).silent :=
  rfl

/-- Bells have no say in anything else. -/
theorem silent_foldl_apply {t u : Terminal} (h : t.silent = u.silent) (actions : List Action) :
    (actions.foldl apply t).silent = (actions.foldl apply u).silent := by
  induction actions generalizing t u with
  | nil => exact h
  | cons a actions ih =>
    apply ih
    rw [← silent_apply t, h, silent_apply]

section SilentEq

variable {t u : Terminal} (h : t.silent = u.silent)
include h

theorem parser_of_silent_eq : t.parser = u.parser := by
  show t.silent.parser = u.silent.parser
  rw [h]

theorem metadata_of_silent_eq : t.metadata = u.metadata := by
  show t.silent.metadata = u.silent.metadata
  rw [h]

theorem grid?_of_silent_eq : t.grid? = u.grid? := by
  show t.silent.grid? = u.silent.grid?
  rw [h]

/-- Terminals that differ in their bells alone do so with another reader, too. -/
theorem silent_withReader (p : Parser) :
    ({ t with parser := p } : Terminal).silent = ({ u with parser := p } : Terminal).silent :=
  congrArg (fun v : Terminal => { v with parser := p }) h

/-- Terminals that differ in their bells alone do so behind the same bytes. -/
theorem silent_process (bytes : List UInt8) :
    (t.process bytes).silent = (u.process bytes).silent := by
  rw [process_eq, process_eq, parser_of_silent_eq h]
  exact silent_withReader (silent_foldl_apply h _) _

/-- Terminals that differ in their bells alone do so at the end of the stream. -/
theorem silent_finish : t.finish.silent = u.finish.silent := by
  rw [finish, finish, parser_of_silent_eq h]
  exact silent_foldl_apply (silent_withReader h _) _

end SilentEq

end Terminal

/-- A frame shows the screen of a terminal. -/
def Frame.Shows (f : Frame) (t : Terminal) (view : View) : Prop :=
  ∃ g, t.grid? = some g ∧ f.width = g.cols ∧ f.height = g.rows ∧ f.lines = g.lines view ∧
    f.willBlink = anyBlinks (g.lines view)

/-- Two frames show the same screen. -/
def Frame.SameScreen (f g : Frame) : Prop :=
  f.width = g.width ∧ f.height = g.height ∧ f.lines = g.lines ∧ f.willBlink = g.willBlink

theorem Frame.SameScreen.symm {f g : Frame} (h : f.SameScreen g) : g.SameScreen f :=
  ⟨h.1.symm, h.2.1.symm, h.2.2.1.symm, h.2.2.2.symm⟩

theorem Frame.SameScreen.trans {f g k : Frame} (h : f.SameScreen g) (hk : g.SameScreen k) :
    f.SameScreen k :=
  ⟨h.1.trans hk.1, h.2.1.trans hk.2.1, h.2.2.1.trans hk.2.2.1, h.2.2.2.trans hk.2.2.2⟩

/-- Two frames of the same terminal show the same screen. -/
theorem Frame.Shows.sameScreen {f g : Frame} {t : Terminal} {view : View} (hf : f.Shows t view)
    (hg : g.Shows t view) : f.SameScreen g := by
  obtain ⟨grid, hgrid, hwidth, hheight, hlines, hblink⟩ := hf
  obtain ⟨grid', hgrid', hwidth', hheight', hlines', hblink'⟩ := hg
  obtain rfl : grid = grid' := Option.some.inj (hgrid.symm.trans hgrid')
  exact ⟨hwidth.trans hwidth'.symm, hheight.trans hheight'.symm, hlines.trans hlines'.symm,
    hblink.trans hblink'.symm⟩

namespace Session

/-- A fresh terminal of the size that the whole stream asks for, which reads the
first bytes of the stream at once. -/
def snapshot (config : Config) (data : List UInt8) (count : Nat) : Terminal :=
  (Terminal.rendering (sizeFor config data).1 (sizeFor config data).2 config.maxWidth
    config.maxHeight config.transparency).process (data.take count)

/-- There is a screen in every snapshot. -/
theorem exists_grid?_snapshot (config : Config) (data : List UInt8) (count : Nat) :
    ∃ g, (snapshot config data count).grid? = some g :=
  ⟨_, Terminal.grid?_process_rendering _ _ _ _ _ _⟩

/-- The stream after its first bytes have been played in bursts. -/
def reelAt (config : Config) (acquired : Acquired) (count : Nat) : Reel where
  data := acquired.data.toArray
  error := acquired.error
  terminal := (snapshot config acquired.data count).silent

/-- The bytes in front of a burst and those of the burst are the bytes up to its end. -/
theorem take_append_extract (data : List UInt8) {start stop : Nat} (h : start ≤ stop) :
    data.take start ++ (data.toArray.extract start stop).toList = data.take stop := by
  obtain ⟨n, rfl⟩ := Nat.exists_eq_add_of_le h
  rw [List.take_add]
  simp

/-- A burst continues the bytes before it, wherever the cut is. -/
theorem silent_process_burst (config : Config) (acquired : Acquired) {start stop : Nat}
    (h : start ≤ stop) :
    ((reelAt config acquired start).terminal.process
        ((reelAt config acquired start).data.extract start stop).toList).silent =
      (snapshot config acquired.data stop).silent := by
  -- the two differ in nothing but bells taken before
  rw [snapshot, ← take_append_extract acquired.data h, Terminal.process_append]
  have hsilent : (reelAt config acquired start).terminal.silent =
      (snapshot config acquired.data start).silent := rfl
  exact Terminal.silent_process hsilent _

/-- The descriptive strings behind the first bytes of a stream.  The last burst
lets the terminal finish. -/
def stringsAt (config : Config) (data : List UInt8) (count : Nat) (last : Bool) : List String :=
  if last then (snapshot config data count).finish.metadata
  else (snapshot config data count).metadata

/-- A frame of a burst that ends at `count`: it shows the snapshot there, and
the descriptive strings. -/
def ShowsPrefix (config : Config) (data : List UInt8) (count : Nat) (last : Bool)
    (f : Frame) : Prop :=
  f.Shows (snapshot config data count) config.view ∧
    f.metadata = some (stringsAt config data count last)

theorem stringsAt_zero (config : Config) (data : List UInt8) (last : Bool) :
    stringsAt config data 0 last = [] := by
  unfold stringsAt
  split <;> rfl

/-- A frame shows the first `count` bytes of a stream.  Before there are any it
is blank. -/
def ShowsPlayed (config : Config) (data : List UInt8) (count : Nat) (f : Frame) : Prop :=
  if count = 0 then f.SameScreen (Frame.blank config {})
  else f.Shows (snapshot config data count) config.view

/-- Two frames that show the same bytes show the same screen. -/
theorem ShowsPlayed.sameScreen {config : Config} {data : List UInt8} {count : Nat} {f g : Frame}
    (hf : ShowsPlayed config data count f) (hg : ShowsPlayed config data count g) :
    f.SameScreen g := by
  unfold ShowsPlayed at hf hg
  split at hf
  case isTrue hzero =>
    rw [if_pos hzero] at hg
    exact hf.trans hg.symm
  case isFalse hsome =>
    rw [if_neg hsome] at hg
    exact hf.sameScreen hg

section Telling

variable (s : Session)

/-- Telling strings changes nothing but the memory of what was told. -/
theorem tellMetadata_fst (strings : List String) :
    ∃ told, (s.tellMetadata strings).1 = { s with stringsTold := told } := by
  unfold tellMetadata
  split
  · exact ⟨s.stringsTold, rfl⟩
  · exact ⟨some strings.length, rfl⟩

/-- Going on in the blink phase changes neither the settings nor what happens at the end. -/
theorem advanceBlink_eq :
    s.advanceBlink.config = s.config ∧ s.advanceBlink.sustain = s.sustain := by
  unfold advanceBlink
  split
  · exact ⟨rfl, rfl⟩
  · split <;> exact ⟨rfl, rfl⟩

end Telling

/-- Where nothing is played there is a blank frame, and the session is over. -/
theorem playNothing_fst_snd (s : Session) (acquired : Acquired) :
    (∃ position, (s.playNothing acquired).1 =
        { Frame.blank s.config (.stopped position) with
          metadata := some []
          error := acquired.error }) ∧
      ∃ status strings, (s.playNothing acquired).2.1 =
        { s with
          lastStatus := status
          stringsTold := strings
          phase := .done } := by
  refine ⟨⟨_, rfl⟩, ?_⟩
  obtain ⟨strings, hstrings⟩ := s.tellMetadata_fst []
  obtain ⟨status, hstatus⟩ := (s.tellMetadata []).1.tellStatus_fst (s.playNothing acquired).1.status
  have htold := congrArg (fun t : Session => { t with lastStatus := status }) hstrings
  exact ⟨status, strings, congrArg Session.stop (hstatus.trans htold)⟩

/-- The terminal behind a burst; the last one lets it finish. -/
def playedTerminal (reel : Reel) (burst : Burst) (later : List Burst) : Terminal :=
  let terminal := reel.terminal.process (reel.data.extract burst.start burst.stop).toList
  if later.isEmpty then terminal.finish else terminal

/-- The frame behind a burst. -/
def burstFrame (s : Session) (reel : Reel) (burst : Burst) (later : List Burst) : Frame :=
  let terminal := playedTerminal reel burst later
  { Frame.capture (terminal.grid?.getD default) s.config.view s.blinked
      ⟨fractionOf burst.stop reel.data.size, !later.isEmpty⟩ with
    metadata := some terminal.metadata
    error := reel.error }

/-- The reel that a burst hands on to the next one. -/
def carried (reel : Reel) (burst : Burst) (later : List Burst) : Reel :=
  { reel with terminal := (playedTerminal reel burst later).silent }

/-- The phase behind a burst. -/
def burstPhase (s : Session) (reel : Reel) (burst : Burst) (later : List Burst) : Phase :=
  match later with
  | [] => s.phaseAfter (s.burstFrame reel burst later)
  | next :: rest =>
    .playing { reel with terminal := (playedTerminal reel burst later).silent } next rest

/-- Playing a burst, with what is told apart from what is made. -/
theorem playBurst_eq (s : Session) (reel : Reel) (burst : Burst) (later : List Burst) :
    s.playBurst reel burst later =
      let terminal := playedTerminal reel burst later
      let (told, strings) := s.tellMetadata terminal.metadata
      let (told, statuses) :=
        told.tellStatus ⟨fractionOf burst.stop reel.data.size, !later.isEmpty⟩
      (told.burstFrame reel burst later,
        { told with phase := told.burstPhase reel burst later },
        List.replicate terminal.bells .beep ++ strings ++ statuses) := by
  cases later <;> rfl

/-- Of a burst the session keeps, beside its phase, only what was told. -/
theorem playBurst_fst_snd (s : Session) (reel : Reel) (burst : Burst) (later : List Burst) :
    (s.playBurst reel burst later).1 = s.burstFrame reel burst later ∧
      ∃ status strings, (s.playBurst reel burst later).2.1 =
        { s with
          lastStatus := status
          stringsTold := strings
          phase := s.burstPhase reel burst later } := by
  obtain ⟨strings, hstrings⟩ := s.tellMetadata_fst (playedTerminal reel burst later).metadata
  obtain ⟨status, hstatus⟩ := (s.tellMetadata (playedTerminal reel burst later).metadata).1
    |>.tellStatus_fst ⟨fractionOf burst.stop reel.data.size, !later.isEmpty⟩
  rw [hstrings] at hstatus
  rw [playBurst_eq]
  simp only [hstrings, hstatus]
  refine ⟨rfl, status, strings, ?_⟩
  cases later <;> rfl

section Played

variable {config : Config} {acquired : Acquired} {start : Nat} {burst : Burst}
  {later : List Burst}

/-- The terminal behind a burst is that of the snapshot at the burst's end, but for the bells. -/
theorem playedTerminal_reelAt (hstart : burst.start = start) (hlt : start < burst.stop) :
    (playedTerminal (reelAt config acquired start) burst later).silent =
      (if later.isEmpty then (snapshot config acquired.data burst.stop).finish
        else snapshot config acquired.data burst.stop).silent := by
  subst hstart
  have hburst := silent_process_burst config acquired (Nat.le_of_lt hlt)
  unfold playedTerminal
  split
  · exact Terminal.silent_finish hburst
  · exact hburst

/-- **One burst.**  Its frame is the snapshot at its end. -/
theorem showsPrefix_burstFrame {s : Session} (hconfig : s.config = config)
    (hstart : burst.start = start) (hlt : start < burst.stop) :
    ShowsPrefix config acquired.data burst.stop later.isEmpty
      (s.burstFrame (reelAt config acquired start) burst later) := by
  have hterminal : (playedTerminal (reelAt config acquired start) burst later).silent = _ :=
    playedTerminal_reelAt hstart hlt
  have hgrid := Terminal.grid?_of_silent_eq hterminal
  have hmetadata := Terminal.metadata_of_silent_eq hterminal
  obtain ⟨g, hg⟩ := exists_grid?_snapshot config acquired.data burst.stop
  have hshown : (playedTerminal (reelAt config acquired start) burst later).grid? = some g := by
    rw [hgrid, ← hg]
    split
    · exact congrArg Canvas.grid? (Terminal.canvas_finish _)
    · rfl
  refine ⟨⟨g, hg, ?_⟩, ?_⟩
  · rw [burstFrame, hshown, ← hconfig]
    exact ⟨rfl, rfl, rfl, rfl⟩
  · rw [burstFrame, hmetadata]
    cases later <;> rfl

/-- The reel that a burst leaves to the next one is the reel at the burst's end. -/
theorem carried_reelAt {next : Burst} {rest : List Burst} (hstart : burst.start = start)
    (hlt : start < burst.stop) :
    carried (reelAt config acquired start) burst (next :: rest) =
      reelAt config acquired burst.stop := by
  have hterminal : (playedTerminal (reelAt config acquired start) burst (next :: rest)).silent =
      (snapshot config acquired.data burst.stop).silent :=
    playedTerminal_reelAt hstart hlt
  rw [carried, hterminal]
  rfl

end Played

end Session

end BaudReel
