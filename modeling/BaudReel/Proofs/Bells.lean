import BaudReel.Proofs.Entrance
import BaudReel.Proofs.Record

/-!
# Every bell rings once

Bells are taken from the terminal behind each burst, so that the next burst begins
with none.  A bell is therefore rung in the call for the burst that its byte is in,
and never again: behind any number of calls the stage has heard the bells of the
bytes that have been played, wherever the bursts were cut (`beeps_eq`).
-/

namespace BaudReel

/-- Whether a notice is that a bell rang. -/
def Notice.isBeep : Notice → Bool
  | .beep => true
  | _ => false

/-- How many bells a run of actions rings. -/
def bellsIn : List Action → Nat
  | [] => 0
  | a :: rest => Terminal.bellsOf a + bellsIn rest

/-- The bells of two runs of actions add up. -/
theorem bellsIn_append (front rest : List Action) :
    bellsIn (front ++ rest) = bellsIn front + bellsIn rest := by
  induction front with
  | nil => exact (Nat.zero_add _).symm
  | cons a front ih => rw [List.cons_append, bellsIn, ih, bellsIn, Nat.add_assoc]

namespace Terminal

/-- No stroke turns a gauge into a screen or back. -/
theorem isGauge_foldl_draw (strokes : List Stroke) (c : Canvas) :
    (strokes.foldl Canvas.draw c).isGauge = c.isGauge := by
  induction strokes generalizing c with
  | nil => rfl
  | cons stroke strokes ih =>
    have hdraw : (c.draw stroke).isGauge = c.isGauge := by
      cases c with
      | gauge farCol farRow =>
        cases stroke with
        | put col row codepoint pen => rfl
        | rearrange r pen => cases r <;> rfl
      | screen grid transparency => cases stroke <;> rfl
    exact (ih _).trans hdraw

/-- No byte turns a measuring terminal into a rendering one or back. -/
theorem isGauge_process (t : Terminal) (bytes : List UInt8) :
    (t.process bytes).canvas.isGauge = t.canvas.isGauge := by
  rw [canvas_process]
  exact isGauge_foldl_draw _ _

section Rendering

variable {t : Terminal} (h : t.canvas.isGauge = false)
include h

/-- A terminal that draws hears every bell and collects every string. -/
theorem collected_foldl_apply (actions : List Action) :
    (actions.foldl apply t).bells = t.bells + bellsIn actions ∧
      (actions.foldl apply t).metadata = t.metadata ++ actions.flatMap stringsOf := by
  induction actions generalizing t with
  | nil => exact ⟨rfl, (List.append_nil _).symm⟩
  | cons a actions ih =>
    have happly : (t.apply a).bells = t.bells + bellsOf a ∧
        (t.apply a).metadata = t.metadata ++ stringsOf a := by
      obtain ⟨parser, head, canvas, endOfText, metadata, bells⟩ := t
      have hdraws : canvas.isGauge = false := h
      simp only [apply, hdraws]
      exact ⟨rfl, rfl⟩
    have hdraws : (t.apply a).canvas.isGauge = false := (isGauge_foldl_draw _ _).trans h
    obtain ⟨hbells, hmetadata⟩ := ih hdraws
    rw [List.foldl_cons, hbells, hmetadata, happly.1, happly.2, List.flatMap_cons,
      List.append_assoc, Nat.add_assoc]
    exact ⟨rfl, rfl⟩

/-- On a screen every bell that is read is counted. -/
theorem bells_process (bytes : List UInt8) :
    (t.process bytes).bells = t.bells + bellsIn (t.parser.parse bytes).2 := by
  rw [process_eq]
  exact (collected_foldl_apply h _).1

/-- On a screen the strings that are read are put behind those there are. -/
theorem metadata_process (bytes : List UInt8) :
    (t.process bytes).metadata =
      t.metadata ++ (t.parser.parse bytes).2.flatMap stringsOf := by
  rw [process_eq]
  exact (collected_foldl_apply h _).2

/-- At the end of the stream there may be one more string, but no bell. -/
theorem collected_finish :
    t.finish.bells = t.bells ∧ t.finish.metadata =
      t.metadata ++ t.parser.finish.2.flatMap stringsOf := by
  have hbells : bellsIn t.parser.finish.2 = 0 := by
    cases t.parser with
    | trailer begun =>
      show bellsIn (Parser.string? begun).toList = 0
      unfold Parser.string?
      split <;> rfl
    | _ => rfl
  have hcollected := collected_foldl_apply (t := { t with parser := t.parser.finish.1 }) h
    t.parser.finish.2
  rw [hbells] at hcollected
  exact hcollected

end Rendering

end Terminal

namespace Session

/-- How many bells the first bytes of a stream ring. -/
def bellsAt (data : List UInt8) (count : Nat) : Nat :=
  bellsIn (Parser.initial.parse (data.take count)).2

theorem bellsAt_zero (data : List UInt8) : bellsAt data 0 = 0 :=
  rfl

/-- A burst rings the bells between its two ends. -/
theorem bells_playedTerminal (config : Config) (acquired : Acquired) {burst : Burst}
    (later : List Burst) (hle : burst.start ≤ burst.stop) :
    bellsAt acquired.data burst.start +
        (playedTerminal (reelAt config acquired burst.start) burst later).bells =
      bellsAt acquired.data burst.stop := by
  let reel := reelAt config acquired burst.start
  let bytes := (reel.data.extract burst.start burst.stop).toList
  have hdraws : reel.terminal.canvas.isGauge = false := Terminal.isGauge_process _ _
  have hparser : reel.terminal.parser =
      (Parser.initial.parse (acquired.data.take burst.start)).1 := Terminal.parser_process _ _
  have hbells : (reel.terminal.process bytes).bells =
      bellsIn (reel.terminal.parser.parse bytes).2 :=
    (Terminal.bells_process hdraws bytes).trans (Nat.zero_add _)
  have hplayed : (playedTerminal reel burst later).bells = (reel.terminal.process bytes).bells := by
    unfold playedTerminal
    split
    · exact (Terminal.collected_finish ((Terminal.isGauge_process _ _).trans hdraws)).1
    · rfl
  rw [hplayed, hbells, hparser, bellsAt, bellsAt, ← take_append_extract acquired.data hle,
    Parser.parse_append, bellsIn_append]
  rfl

section Beeps

variable (s : Session)

theorem countP_isBeep_tellMetadata (strings : List String) :
    (s.tellMetadata strings).2.countP Notice.isBeep = 0 := by
  unfold tellMetadata
  split <;> rfl

theorem countP_isBeep_tellStatus (status : Status) :
    (s.tellStatus status).2.countP Notice.isBeep = 0 := by
  unfold tellStatus
  split <;> rfl

/-- A burst beeps once for every bell that its terminal has counted. -/
theorem countP_isBeep_playBurst (reel : Reel) (burst : Burst) (later : List Burst) :
    (s.playBurst reel burst later).2.2.countP Notice.isBeep =
      (playedTerminal reel burst later).bells := by
  have hbells : ∀ count, (List.replicate count Notice.beep).countP Notice.isBeep = count := by
    intro count
    rw [List.countP_replicate]
    rfl
  rw [playBurst_eq, List.countP_append, List.countP_append, countP_isBeep_tellMetadata,
    countP_isBeep_tellStatus, hbells, Nat.add_zero]

/-- Where nothing is played, nothing beeps. -/
theorem countP_isBeep_playNothing (acquired : Acquired) :
    (s.playNothing acquired).2.2.countP Notice.isBeep = 0 := by
  rw [playNothing, List.countP_append, countP_isBeep_tellMetadata, countP_isBeep_tellStatus]

/-- The turn that opens the stream rings the bells of the first burst. -/
theorem countP_isBeep_begin {config : Config} (hconfig : s.config = config)
    (acquired : Acquired) :
    (s.begin acquired).2.2.countP Notice.isBeep =
      bellsAt acquired.data (Burst.played config acquired.data.length 1) := by
  subst hconfig
  have hfailure : (acquired.error.toList.map Notice.failed).countP Notice.isBeep = 0 := by
    cases acquired.error <;> rfl
  rw [begin, List.countP_append, hfailure, Nat.zero_add]
  cases hplan : Burst.plan s.config acquired.data.length with
  | nil =>
    rw [Burst.played_of_plan_eq_nil hplan]
    exact s.countP_isBeep_playNothing acquired
  | cons burst later =>
    have hfirst : Burst.played s.config acquired.data.length 1 = burst.stop :=
      Burst.played_succ (by rw [hplan]; rfl)
    have htiles := Burst.tiles_plan s.config acquired.data.length
    rw [hplan] at htiles
    obtain ⟨hstart, hlt, -⟩ := htiles
    have hbells := bells_playedTerminal s.config acquired later (hstart ▸ Nat.le_of_lt hlt)
    rw [hstart, bellsAt_zero, Nat.zero_add] at hbells
    rw [hfirst, ← hbells]
    simp only [measure_eq]
    exact countP_isBeep_playBurst _ _ _ _

end Beeps

/-- Every later turn rings those of the burst that it plays. -/
theorem Ahead.countP_isBeep_turn {config : Config} {acquired : Acquired} {sustain : Bool}
    {count : Nat} {s : Session} (h : Ahead config acquired sustain count s) (source : Source) :
    bellsAt acquired.data (Burst.played config acquired.data.length count) +
        (s.turn source).notices.countP Notice.isBeep =
      bellsAt acquired.data (Burst.played config acquired.data.length (count + 1)) := by
  cases hdrop : (Burst.plan config acquired.data.length).drop count with
  | nil =>
    obtain ⟨last, hclosing⟩ := h.ended hdrop
    obtain ⟨-, -, -, hnotices⟩ := hclosing.turn source
    have hlength : (Burst.plan config acquired.data.length).length ≤ count :=
      List.drop_eq_nil_iff.1 hdrop
    rw [hnotices, Burst.played_of_length_le hlength,
      Burst.played_of_length_le (Nat.le_succ_of_le hlength)]
    rfl
  | cons burst later =>
    have htiles := Burst.tiles_drop config acquired.data.length count
    rw [hdrop] at htiles
    obtain ⟨hstart, hlt, -⟩ := htiles
    have hburst : (Burst.plan config acquired.data.length)[count]? = some burst := by
      rw [← List.head?_drop, hdrop]
      rfl
    have hbells := bells_playedTerminal config acquired later (hstart ▸ Nat.le_of_lt hlt)
    rw [turn_of_playing (h.next burst later hdrop), ← hstart, Burst.played_succ hburst, ← hbells]
    exact congrArg _ (countP_isBeep_playBurst _ _ _ _)

/-- **Every turn** rings the bells of the bytes that it plays. -/
theorem countP_isBeep_turns (config : Config) (sustain : Bool) (source : Source) (n : Nat) :
    let here := (unbegun config sustain).turns source n
    bellsAt source.yield.data
          (Burst.played config source.yield.data.length (n - source.leadIn)) +
        (here.1.turn here.2).notices.countP Notice.isBeep =
      bellsAt source.yield.data
        (Burst.played config source.yield.data.length (n + 1 - source.leadIn)) := by
  intro here
  rcases source.call_cases n with hlt | rfl | ⟨k, rfl⟩
  · have hcount : n - source.leadIn = 0 := by omega
    have hcount' : n + 1 - source.leadIn = 0 := by omega
    have hsilent : (here.1.turn here.2).notices.countP Notice.isBeep = 0 := by
      rcases turn_of_lt_leadIn config sustain hlt with ⟨-, -, hturn⟩ | ⟨-, -, -, hturn⟩
      · rw [hturn]
        exact countP_isBeep_tellStatus (unbegun config sustain) (Frame.blank config {}).status
      · rw [hturn]
        rfl
    rw [hcount, hcount', hsilent, Nat.add_zero]
  · have hcount : source.leadIn + 1 - source.leadIn = 1 := by omega
    have hconfig := (readied_eq config sustain source).1
    have hhere : here = (readied config sustain source, source.entered) :=
      turns_leadIn config sustain source
    rw [hcount, Nat.sub_self, Burst.played_zero, bellsAt_zero, Nat.zero_add, hhere,
      (turn_entered config sustain source).2]
    exact countP_isBeep_begin _ hconfig source.yield
  · have hahead := ahead_of_leadIn config sustain source k
    have hcount : source.leadIn + (k + 1) - source.leadIn = k + 1 := by omega
    have hcount' : source.leadIn + (k + 1) + 1 - source.leadIn = k + 1 + 1 := by omega
    rw [hcount, hcount']
    exact hahead.countP_isBeep_turn _

end Session

namespace Performance

variable {σ : Type} {stage : Stage σ} {world : σ} {config : Config} {sustain : Bool}
  {source : Source}

/-- How many bells the stage has heard behind a number of calls. -/
def beeps (stage : Stage σ) (p : Performance σ) (n : Nat) : Nat :=
  (p.heard stage n).countP Notice.isBeep

/-- **Every bell rings once.**  Behind any number of calls the stage has heard the
bells of the bytes that have been played. -/
theorem beeps_eq {n : Nat} (hfree : (fresh config sustain source world).RunsFreely stage n) :
    (fresh config sustain source world).beeps stage n =
      Session.bellsAt source.yield.data
        (Burst.played config source.yield.data.length (n - source.leadIn)) := by
  induction n with
  | zero => rw [Nat.zero_sub]; rfl
  | succ n ih =>
    have hbefore := ih (hfree.mono (Nat.le_succ n))
    have htold := hfree.told_eq (Nat.lt_succ_self n)
    rw [beeps, heard_succ, List.countP_append, htold, ← beeps, hbefore]
    exact Session.countP_isBeep_turns config sustain source n

end Performance

end BaudReel
