import BaudReel.Proofs.LifeCycle
import BaudReel.Proofs.Reporting

/-!
# What a stage hears mirrors what a session shows

Along the whole course of a session its notices mirror its frames (`Mirrored`).  A
turn keeps this up because the frame that it makes builds on the ones before it
(`Continues`): it is the first to show what the source yields, or it adds to the
strings of the last one, or it shows the last one again.  A call that is disturbed
neither shows nor tells anything.

`notices_mirror_frames` reads this off behind any number of calls, on any stage: no
notice is missing, none is given twice, and the failure of a source is told once, in
front of everything else that the first frame of its message brings.
-/

namespace BaudReel

/-- A reel whose stream is not empty, and no longer than a word can count, on a
terminal that draws. -/
structure Reel.Playable (reel : Reel) : Prop where
  draws : reel.terminal.canvas.isGauge = false
  some_data : 0 < reel.data.size
  countable : reel.data.size ≤ Word.max64

namespace Session

/-- A burst may add to the descriptive strings. -/
theorem metadata_playedTerminal {reel : Reel} (hdraws : reel.terminal.canvas.isGauge = false)
    (burst : Burst) (later : List Burst) :
    reel.terminal.metadata <+: (playedTerminal reel burst later).metadata ∧
      (playedTerminal reel burst later).canvas.isGauge = false := by
  let bytes := (reel.data.extract burst.start burst.stop).toList
  have hgauge := (reel.terminal.isGauge_process bytes).trans hdraws
  have hread : reel.terminal.metadata <+: (reel.terminal.process bytes).metadata := by
    rw [Terminal.metadata_process hdraws]
    exact List.prefix_append _ _
  unfold playedTerminal
  split
  · refine ⟨?_, ?_⟩
    · rw [(Terminal.collected_finish hgauge).2]
      exact hread.trans (List.prefix_append _ _)
    · rw [Terminal.canvas_finish]
      exact hgauge
  · exact ⟨hread, hgauge⟩

section Playing

variable (s : Session)

/-- Behind the last burst a session sustains or is over. -/
theorem phaseAfter_cases (last : Frame) :
    s.phaseAfter last = .sustaining last false ∨ s.phaseAfter last = .done := by
  unfold phaseAfter
  split
  · exact .inl rfl
  · exact .inr rfl

/-- Behind the bells of its burst, a frame is reported. -/
theorem playBurst_report (reel : Reel) (burst : Burst) (later : List Burst) :
    let report := s.report (playedTerminal reel burst later).metadata
      (s.burstFrame reel burst later).status
    (s.playBurst reel burst later).2.2 =
        List.replicate (playedTerminal reel burst later).bells .beep ++ report.2 ∧
      (s.playBurst reel burst later).2.1.lastStatus = report.1.lastStatus ∧
      (s.playBurst reel burst later).2.1.stringsTold = report.1.stringsTold := by
  rw [playBurst_eq]
  exact ⟨List.append_assoc _ _ _, rfl, rfl⟩

/-- Going on in the blink phase leaves the memory of what was told alone. -/
theorem advanceBlink_memory :
    s.advanceBlink.lastStatus = s.lastStatus ∧ s.advanceBlink.stringsTold = s.stringsTold := by
  unfold advanceBlink
  split
  · exact ⟨rfl, rfl⟩
  · split <;> exact ⟨rfl, rfl⟩

end Playing

/-- How the next frame builds on the ones so far: it shows what the source yields, or
it goes on with their strings, or it shows the last one again. -/
def Continues (yield : Acquired) (s : Session) (source : Source) (frames : List Frame) : Prop :=
  let shown := frames.filterMap Frame.metadata
  match s.phase with
  | .start | .opening => source.yield = yield ∧ shown = []
  | .playing reel _ _ => reel.Playable ∧ shown.getLast? = some reel.terminal.metadata
  | .sustaining last _ =>
    shown.getLast? = last.metadata ∧ last.metadata.isSome ∧
      s.lastStatus.any (·.agrees last.status) = true
  | .done => True

/-- Behind some frames and notices that mirror each other, a session that will go on
so. -/
structure Mirrored (yield : Acquired) (s : Session) (source : Source) (frames : List Frame)
    (heard : List Notice) : Prop where
  mirrors : s.Mirrors yield.error frames heard
  continues : s.Continues yield source frames

section Steps

variable {yield : Acquired} {s : Session} {source : Source} {frames : List Frame}
  {heard : List Notice}

/-- Failures and bells say nothing of statuses and strings. -/
theorem filterMap_failed (failures : List SourceError) (bells : Nat) :
    let extra := failures.map Notice.failed ++ List.replicate bells Notice.beep
    extra.filterMap Notice.status? = [] ∧ extra.filterMap Notice.strings? = [] ∧
      extra.filterMap Notice.error? = failures := by
  intro extra
  have hstatus : (failures.map Notice.failed).filterMap Notice.status? = [] := by
    rw [List.filterMap_map]
    exact List.filterMap_eq_nil_iff.2 fun _ _ => rfl
  have hstrings : (failures.map Notice.failed).filterMap Notice.strings? = [] := by
    rw [List.filterMap_map]
    exact List.filterMap_eq_nil_iff.2 fun _ _ => rfl
  have herror : (failures.map Notice.failed).filterMap Notice.error? = failures := by
    rw [List.filterMap_map]
    exact List.filterMap_some
  refine ⟨?_, ?_, ?_⟩
  · rw [List.filterMap_append, hstatus, List.filterMap_replicate_of_none rfl]
    rfl
  · rw [List.filterMap_append, hstrings, List.filterMap_replicate_of_none rfl]
    rfl
  · rw [List.filterMap_append, herror, List.filterMap_replicate_of_none rfl, List.append_nil]

/-- What is still to be told of a failure: all of it until a frame is rendered. -/
def failuresDue (yield : Acquired) (frames : List Frame) : List SourceError :=
  if (frames.filterMap Frame.metadata).isEmpty then yield.error.toList else []

/-- **A burst** that goes on with the strings so far. -/
theorem Mirrors.playBurst (h : s.Mirrors yield.error frames heard) {reel : Reel}
    (hreel : reel.Playable) (burst : Burst) (later : List Burst)
    (hextends : ∀ before ∈ (frames.filterMap Frame.metadata).getLast?,
      before <+: reel.terminal.metadata) (source : Source) :
    let made := s.playBurst reel burst later
    Mirrored yield made.2.1 source (frames ++ [made.1])
      (heard ++ ((failuresDue yield frames).map .failed ++ made.2.2)) := by
  intro made
  let f := s.burstFrame reel burst later
  let terminal := playedTerminal reel burst later
  obtain ⟨hframe, status, strings, hsession⟩ := s.playBurst_fst_snd reel burst later
  obtain ⟨hnotices, hstatus, hstrings⟩ := s.playBurst_report reel burst later
  obtain ⟨hgrows, hdraws⟩ := metadata_playedTerminal hreel.draws burst later
  obtain ⟨hstatusless, hstringless, herrors⟩ :=
    filterMap_failed (failuresDue yield frames) terminal.bells
  have hmetadata : f.metadata = some terminal.metadata := rfl
  have hlatest : ((frames ++ [f]).filterMap Frame.metadata).getLast? = some terminal.metadata := by
    rw [metadata_append hmetadata, List.getLast?_concat]
  have hreport := h.report hmetadata
    (fun before hbefore => (hextends before hbefore).trans hgrows) hstatusless hstringless herrors
  have hmade : made.1 = f := hframe
  have hphase : made.2.1.phase = s.burstPhase reel burst later := congrArg Session.phase hsession
  rw [hmade, hnotices]
  rw [List.append_assoc] at hreport
  refine ⟨hreport.of_memory hstatus hstrings, ?_⟩
  cases later with
  | cons next rest =>
    rw [Continues, hphase]
    exact ⟨⟨hdraws, hreel.some_data, hreel.countable⟩, hlatest⟩
  | nil =>
    have hposition := fractionOf_beq_self burst.stop hreel.some_data hreel.countable
    have hself : f.status.agrees f.status = true :=
      Bool.and_eq_true_iff.2 ⟨hposition, beq_self_eq_true _⟩
    have hagrees : made.2.1.lastStatus.any (·.agrees f.status) = true := by
      rw [hstatus]
      exact agrees_tellStatus _ hself
    rcases s.phaseAfter_cases f with hlive | hover
    · rw [Continues, hphase.trans hlive]
      exact ⟨hlatest, rfl, hagrees⟩
    · rw [Continues, hphase.trans hover]
      trivial

theorem prefix_of_first (hfirst : frames.filterMap Frame.metadata = []) {strings : List String} :
    ∀ before ∈ (frames.filterMap Frame.metadata).getLast?, before <+: strings := by
  intro before hbefore
  rw [hfirst] at hbefore
  exact absurd hbefore (Option.not_mem_none before)

/-- **The turn that opens the stream**, with the first rendered frame. -/
theorem Mirrors.begin (h : s.Mirrors yield.error frames heard)
    (hfirst : frames.filterMap Frame.metadata = []) (hcountable : yield.data.length ≤ Word.max64)
    (source : Source) :
    Mirrored yield (s.begin yield).2.1 source (frames ++ [(s.begin yield).1])
      (heard ++ (s.begin yield).2.2) := by
  have hdue : failuresDue yield frames = yield.error.toList := by
    rw [failuresDue, hfirst]
    rfl
  cases hplan : Burst.plan s.config yield.data.length with
  | nil =>
    obtain ⟨hstatusless, hstringless, herrors⟩ := filterMap_failed (failuresDue yield frames) 0
    have hreport := h.report (f := (s.playNothing yield).1) rfl
      (prefix_of_first hfirst) hstatusless hstringless herrors
    rw [hdue, List.replicate_zero, List.append_nil] at hreport
    rw [Session.begin, hplan]
    refine ⟨hreport.of_memory rfl rfl, trivial⟩
  | cons burst later =>
    have hlength := Burst.length_plan_le s.config yield.data.length
    rw [hplan] at hlength
    have hplayable : (openReel s.config yield (sizeFor s.config yield.data)).Playable :=
      ⟨rfl, Nat.lt_of_lt_of_le (Nat.zero_lt_succ _) hlength, hcountable⟩
    have hmeasured : (s.measure yield.data).2.Mirrors yield.error frames heard := by
      rw [measure_eq]
      exact h.of_memory rfl rfl
    have hplayed := hmeasured.playBurst hplayable burst later (prefix_of_first hfirst) source
    rw [hdue, measure_eq] at hplayed
    rw [Session.begin, hplan, measure_eq]
    exact hplayed

/-- The placeholder has a status and nothing else to tell. -/
theorem Mirrors.placeholder (h : s.Mirrors yield.error frames heard) :
    s.placeholder.2.1.Mirrors yield.error (frames ++ [s.placeholder.1])
        (heard ++ s.placeholder.2.2) ∧
      (frames ++ [s.placeholder.1]).filterMap Frame.metadata =
        frames.filterMap Frame.metadata := by
  let status := (Frame.blank s.config {}).status
  obtain ⟨hstringless, herrorless⟩ := s.filterMap_tellStatus status
  obtain ⟨told, htold⟩ := s.tellStatus_fst status
  have hmemory := congrArg Session.stringsTold htold
  have hmetadata : (frames ++ [s.placeholder.1]).filterMap Frame.metadata =
      frames.filterMap Frame.metadata := by
    rw [List.filterMap_append]
    exact List.append_nil _
  have htells := h.statuses.tellStatus status
  refine ⟨⟨?_, ?_, ?_⟩, hmetadata⟩
  · rw [List.map_append, List.filterMap_append]
    exact htells.of_memory rfl
  · have hnone : s.placeholder.2.2.filterMap Notice.strings? = [] := hstringless
    rw [hmetadata, List.filterMap_append, hnone, List.append_nil]
    exact h.strings.of_memory hmemory
  · have hnone : s.placeholder.2.2.filterMap Notice.error? = [] := herrorless
    rw [hmetadata, List.filterMap_append, hnone, List.append_nil]
    exact h.errors

/-- Opening the source keeps notices the mirror of the frames. -/
theorem Mirrored.acquire (h : s.Mirrors yield.error frames heard)
    (hyield : source.yield = yield) (hfirst : frames.filterMap Frame.metadata = [])
    (hcountable : yield.data.length ≤ Word.max64) :
    Mirrored yield (s.acquire source).session (s.acquire source).source
      (frames ++ (s.acquire source).step.frame?.toList) (heard ++ (s.acquire source).notices) := by
  have hkept := source.yield_resolve
  unfold Session.acquire
  rcases hresolve : source.resolve with ⟨_ | acquired, rest⟩
  · rw [hresolve] at hkept
    have hunchanged : Mirrored yield { s with phase := .opening } rest frames heard :=
      ⟨h.of_memory rfl rfl, hkept.trans hyield, hfirst⟩
    rw [← List.append_nil frames, ← List.append_nil heard] at hunchanged
    exact hunchanged
  · obtain rfl : acquired = yield := by
      rw [Source.yield, hresolve] at hyield
      exact hyield
    exact h.begin hfirst hcountable rest

/-- **One turn.** -/
theorem Mirrored.turn (h : Mirrored yield s source frames heard)
    (hcountable : yield.data.length ≤ Word.max64) :
    Mirrored yield (s.turn source).session (s.turn source).source
      (frames ++ (s.turn source).step.frame?.toList) (heard ++ (s.turn source).notices) := by
  obtain ⟨hmirrors, hcontinues⟩ := h
  unfold Continues at hcontinues
  cases hphase : s.phase with
  | start =>
    rw [hphase] at hcontinues
    by_cases hready : source.isReady
    · rw [turn_of_ready hphase hready]
      exact Mirrored.acquire hmirrors hcontinues.1 hcontinues.2 hcountable
    · obtain ⟨hshown, hmetadata⟩ := hmirrors.placeholder
      rw [turn_of_waiting hphase hready]
      exact ⟨hshown, hcontinues.1, hmetadata.trans hcontinues.2⟩
  | opening =>
    rw [hphase] at hcontinues
    rw [turn_of_opening hphase]
    exact Mirrored.acquire hmirrors hcontinues.1 hcontinues.2 hcountable
  | playing reel burst later =>
    rw [hphase] at hcontinues
    obtain ⟨hplayable, hlatest⟩ := hcontinues
    obtain ⟨hstatus, hstrings⟩ := s.advanceBlink_memory
    have hshown : (frames.filterMap Frame.metadata).isEmpty = false :=
      List.isEmpty_eq_false_iff.2 (List.ne_nil_of_mem (List.mem_of_getLast? hlatest))
    have hdue : failuresDue yield frames = [] := by
      rw [failuresDue, hshown]
      rfl
    have hplayed := (hmirrors.of_memory hstatus hstrings).playBurst hplayable burst later
      (fun before hbefore => by
        rw [hlatest] at hbefore
        obtain rfl := Option.some.inj hbefore
        exact List.prefix_rfl) source
    rw [hdue] at hplayed
    rw [turn_of_playing hphase]
    exact hplayed
  | sustaining last begun =>
    rw [hphase] at hcontinues
    obtain ⟨hlatest, hsome, hagrees⟩ := hcontinues
    obtain ⟨strings, hmetadata⟩ := Option.isSome_iff_exists.1 hsome
    have hflipped : (s.flip last).1.metadata = some strings := hmetadata
    have hagain := hmirrors.again hflipped (hlatest.trans hmetadata) hagrees
    have hlatest' : ((frames ++ [(s.flip last).1]).filterMap Frame.metadata).getLast? =
        last.metadata := by
      rw [metadata_append hflipped, List.getLast?_concat, hmetadata]
    rw [turn_of_sustaining hphase]
    rw [← List.append_nil heard] at hagain
    exact ⟨hagain.of_memory rfl rfl, hlatest', hsome, hagrees⟩
  | done =>
    have hunchanged : Mirrored yield s source frames heard := by
      refine ⟨hmirrors, ?_⟩
      rw [Continues, hphase]
      trivial
    rw [← List.append_nil frames, ← List.append_nil heard] at hunchanged
    rw [turn_of_done hphase]
    exact hunchanged

/-- The first rendered frame has the failure told in front of everything else. -/
theorem Mirrored.failure_first (h : Mirrored yield s source frames heard)
    (hfirst : frames.filterMap Frame.metadata = []) {f : Frame}
    (hframe : (s.turn source).step = .frame f) (hrendered : f.metadata ≠ none) :
    yield.error.toList.map .failed <+: (s.turn source).notices := by
  obtain ⟨-, hcontinues⟩ := h
  have hacquired : ∀ f, source.yield = yield → (s.acquire source).step = .frame f →
      yield.error.toList.map .failed <+: (s.acquire source).notices := by
    intro f hyield hframe
    unfold Source.yield at hyield
    unfold Session.acquire at hframe ⊢
    rcases hresolve : source.resolve with ⟨_ | acquired, rest⟩
    · rw [hresolve] at hframe
      exact absurd hframe Step.noConfusion
    · rw [hresolve] at hyield
      subst hyield
      exact List.prefix_append _ _
  unfold Continues at hcontinues
  rw [hfirst] at hcontinues
  cases hphase : s.phase with
  | start =>
    rw [hphase] at hcontinues
    by_cases hready : source.isReady
    · rw [turn_of_ready hphase hready] at hframe ⊢
      exact hacquired f hcontinues.1 hframe
    · rw [turn_of_waiting hphase hready] at hframe
      cases hframe
      exact absurd rfl hrendered
  | opening =>
    rw [hphase] at hcontinues
    rw [turn_of_opening hphase] at hframe ⊢
    exact hacquired f hcontinues.1 hframe
  | playing reel burst later =>
    rw [hphase] at hcontinues
    exact absurd hcontinues.2.symm (Option.some_ne_none _)
  | sustaining last begun =>
    rw [hphase] at hcontinues
    obtain ⟨hlatest, hsome, -⟩ := hcontinues
    rw [← hlatest] at hsome
    exact absurd hsome Bool.false_ne_true
  | done =>
    rw [turn_of_done hphase] at hframe
    exact absurd hframe Step.noConfusion

end Steps

/-- In front of the first call there is nothing to mirror. -/
theorem mirrored_unbegun (config : Config) (sustain : Bool) (source : Source) :
    Mirrored source.yield (unbegun config sustain) source [] [] :=
  ⟨⟨⟨rfl, rfl⟩, ⟨rfl, rfl, .nil, rfl⟩, rfl⟩, rfl, rfl⟩

end Session

namespace Performance

variable {σ : Type} (stage : Stage σ) (p : Performance σ)

/-- The frames that a number of calls show. -/
def shown (n : Nat) : List Frame :=
  (List.range n).filterMap fun m => (p.result stage m).frame?

theorem shown_succ (n : Nat) :
    p.shown stage (n + 1) = p.shown stage n ++ (p.result stage n).frame?.toList := by
  rw [shown, List.range_succ, List.filterMap_append]
  cases hframe : (p.result stage n).frame? with
  | none => rw [List.filterMap_cons, hframe]; rfl
  | some f => rw [List.filterMap_cons, hframe]; rfl

variable {stage} {p} {yield : Acquired}

/-- **One call**, disturbed or not. -/
theorem mirrored_next {frames : List Frame} {heard : List Notice}
    (h : Session.Mirrored yield p.session p.source frames heard)
    (hcountable : yield.data.length ≤ Word.max64) :
    Session.Mirrored yield (p.next stage).2.session (p.next stage).2.source
      (frames ++ (p.next stage).1.frame?.toList) (heard ++ p.told stage) := by
  by_cases hundisturbed : p.Undisturbed stage
  · rw [hundisturbed.told_eq, hundisturbed.next_eq]
    exact h.turn hcountable
  · obtain ⟨htold, hended, hsession, hsource⟩ := told_of_disturbed hundisturbed
    have hstopped : Session.Mirrored yield p.session.stop p.source frames heard :=
      ⟨h.mirrors.of_memory rfl rfl, trivial⟩
    rw [← List.append_nil frames, ← List.append_nil heard] at hstopped
    rw [htold, hended, hsession, hsource]
    exact hstopped

/-- **A run of calls.** -/
theorem mirrored_after (stage : Stage σ) (config : Config) (sustain : Bool) (source : Source) (world : σ)
    (hcountable : source.yield.data.length ≤ Word.max64) (n : Nat) :
    let p := fresh config sustain source world
    Session.Mirrored source.yield (p.after stage n).session (p.after stage n).source
      (p.shown stage n) (p.heard stage n) := by
  intro p
  induction n with
  | zero => exact Session.mirrored_unbegun config sustain source
  | succ n ih =>
    rw [after_succ, shown_succ, heard_succ]
    exact mirrored_next ih hcountable

/-- **What a stage hears mirrors what a session shows.**  Behind any number of calls:

* The statuses told are those of the frames, the placeholder and the frames that only
  blink among them, where one that says the same as the one told last is merged.
* The descriptive strings told are those of the rendered frames, the first of them and
  then each time that there are more.  Each time the ones told before are in front of
  the new ones, and the last ones told are those of the last rendered frame.
* If the source failed, its failure is told once, as soon as a frame is rendered; if
  not, none is told at all.
* In the call for the first rendered frame, the failure is told first.
* A source that gives bytes has a frame rendered by the first call behind the
  placeholder, as long as nothing disturbs the session. -/
theorem notices_mirror_frames (stage : Stage σ) (world : σ) (config : Config) (sustain : Bool)
    (source : Source) (hcountable : source.yield.data.length ≤ Word.max64) (n : Nat) :
    let p := fresh config sustain source world
    let frames := p.shown stage n
    let heard := p.heard stage n
    let rendered := frames.filterMap Frame.metadata
    let failure := source.yield.error.toList
    heard.filterMap Notice.status? = (frames.map Frame.status).destutter Status.Differs ∧
    (heard.filterMap Notice.strings? = rendered.destutter Longer ∧
      (heard.filterMap Notice.strings?).IsChain (fun before after =>
        before <+: after ∧ before ≠ after) ∧
      (heard.filterMap Notice.strings?).getLast? = rendered.getLast?) ∧
    heard.filterMap Notice.error? = (if rendered = [] then [] else failure) ∧
    (∀ f, p.result stage n = .frame f → f.metadata ≠ none → rendered = [] →
      failure.map .failed <+: (p.after stage n).told stage) ∧
    (∀ acquired, source.resolve.1 = some acquired →
      p.RunsFreely stage (source.placeholders + 1) → source.placeholders < n →
      rendered ≠ []) := by
  intro p frames heard rendered failure
  have hmirrored := mirrored_after stage config sustain source world hcountable n
  obtain ⟨hstatuses, hstrings, herrors⟩ := hmirrored.mirrors
  refine ⟨hstatuses.merged, ⟨hstrings.merged, hstrings.grows, hstrings.latest⟩, ?_, ?_, ?_⟩
  · rw [herrors]
    exact if_congr List.isEmpty_iff rfl rfl
  · intro f hframe hrendered hfirst
    have hundisturbed : (p.after stage n).Undisturbed stage := by
      by_contra hdisturbed
      have hended := (told_of_disturbed hdisturbed).2.1
      exact absurd (hframe.symm.trans hended) Step.noConfusion
    have hstep := hundisturbed.result_zero.symm.trans hframe
    rw [hundisturbed.told_eq]
    exact Session.Mirrored.failure_first hmirrored hfirst hstep hrendered
  · intro acquired hacquired hfree hn hnone
    have hconfig := (Session.readied_eq config sustain source).1
    obtain ⟨f, hframe, hrendered, -⟩ :=
      (Session.plays_begin source.resolve.2 hconfig acquired).shown 0 (Nat.le_max_left 1 _)
    have hresult : p.result stage source.placeholders = .frame f :=
      (result_fresh (n := 0) hacquired hfree).trans hframe
    have hshown : f ∈ frames := by
      apply List.mem_filterMap.2
      exact ⟨source.placeholders, List.mem_range.2 hn, congrArg Step.frame? hresult⟩
    exact hrendered (List.filterMap_eq_nil_iff.1 hnone f hshown)

/-- A failure whose message is played byte by byte is told once. -/
theorem notices_mirror_frames_failed :
    let config : Config := { modemSpeed := .bps 200 }
    let error : SourceError := .unavailable "line dead"
    let source : Source := .ofLoader (.fails error)
    let p := fresh config true source ()
    source.yield.data.length ≤ Word.max64 ∧
      (p.heard .silent 4).filterMap Notice.error? = [error] := by
  intro config error source p
  have hcountable : source.yield.data.length ≤ Word.max64 := by decide +kernel
  obtain ⟨-, -, herrors, -, hrendered⟩ :=
    notices_mirror_frames .silent () config true source hcountable 4
  have hsome := hrendered (.failure error) rfl (runsFreely_silent p _) (by decide)
  refine ⟨hcountable, ?_⟩
  rw [herrors, if_neg hsome]
  rfl

end Performance

end BaudReel
