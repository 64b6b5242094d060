import BaudReel.CommandLine.Program
import BaudReel.CommandLine.Requests
import BaudReel.Proofs.Cutting
import BaudReel.Proofs.Pacing

/-!
# The speed that was asked for

A speed is set by the options for it and by settings files, and by nothing else: any number of
other requests leave the speed as it is (`Options.modemSpeed_of_applyRequests`).  So the last of
these requests decides, and if it is a speed, its value has been read as a number of a 64-bit
word on the way.

From there on the speed is kept in a narrower word, of 32 bits.  A number that fits it is
played as it was asked for, down to the bytes of each frame (`Options.PlaysAt`).  A larger
one loses its upper bits without a word: it is played at what is left of it, and refused only
if nothing is left.
-/

namespace BaudReel.CommandLine

/-- Whether a request says how fast streams are played.  A settings file does, since it
replaces all settings. -/
def Request.setsSpeed : Request → Bool
  | .setting .baud _ _ => true
  | .setting .config _ _ => true
  | _ => false

theorem Request.sets_baud (r : Request) : r.sets .baud = r.setsSpeed := by
  cases r with
  | setting s flag value => cases s <;> rfl
  | switch s | positional argument => rfl

namespace Options

/-- Bytes that `n` bits a second bring between two frames. -/
def bytesAt (o : Options) (n : Nat) : Nat :=
  max 1 (min (n * o.config.frameInterval / 10000) Word.max64)

/-- The options play streams at `n` bits a second. -/
structure PlaysAt (o : Options) (n : Nat) : Prop where
  speed : o.config.modemSpeed = .bps n
  burst : o.config.burstLength = some (o.bytesAt n)
  planned : ∀ total, Burst.Planned o.config.seek.resume (o.config.seek.lead total)
    (o.bytesAt n) total (Burst.plan o.config total)
  /-- Each burst of the plan has its frame, which shows the stream up to the burst's end. -/
  played : ∀ source acquired, source.resolve.1 = some acquired →
    let bursts := Burst.plan o.config acquired.data.length
    ∀ i burst, bursts[i]? = some burst →
      ∃ frame, (o.frames source)[source.placeholders + i]? = some frame ∧
        Session.ShowsPrefix o.config acquired.data burst.stop (i + 1 == bursts.length) frame

/-! ### What the requests do to the speed -/

/-- Requests that set no speed leave the speed as it is. -/
theorem modemSpeed_of_applyRequests [Json.Library] {files : Files} {later : List Request}
    (hlater : ∀ r ∈ later, r.setsSpeed = false) {o last : Options}
    (h : o.applyRequests files later = .ok last) :
    last.config.modemSpeed = o.config.modemSpeed :=
  samePart_of_applyRequests (s := .baud) (fun r hr => r.sets_baud.trans (hlater r hr)) h

/-- A request for a speed sets the low 32 bits of its number. -/
theorem modemSpeed_of_apply_baud [Json.Library] {files : Files} {o next : Options}
    {flag value : String} (h : o.apply files (.setting .baud flag value) = .ok next) :
    ∃ n, (numberOf? value = some n ∧ 0 < n ∧ n ≤ Word.max64) ∧
      next.config.modemSpeed = .bps (n % (Word.max32 + 1)) := by
  simp only [apply, set] at h
  cases hn : positive flag value with
  | error e => simp [hn] at h
  | ok n =>
    simp only [hn, Except.ok.injEq] at h
    exact ⟨n, positive_eq_ok_iff.1 hn, h ▸ rfl⟩

/-! ### What a speed is good for -/

/-- Every burst of the plan has its frame, behind the one that is shown before the source is
opened. -/
theorem frames_burst (o : Options) {source : Source} {acquired : Acquired}
    (hacquired : source.resolve.1 = some acquired) {i : Nat} {burst : Burst}
    (hburst : (Burst.plan o.config acquired.data.length)[i]? = some burst) :
    ∃ frame, (o.frames source)[source.placeholders + i]? = some frame ∧
      Session.ShowsPrefix o.config acquired.data burst.stop
        (i + 1 == (Burst.plan o.config acquired.data.length).length) frame := by
  let p : Performance Unit := .fresh o.config false source ()
  have hfree : ∀ n, p.RunsFreely .silent n := Performance.runsFreely_silent p
  obtain ⟨frame, hframe, hshows⟩ := Performance.result_burst hacquired hburst (hfree _)
  have hi := (List.getElem?_eq_some_iff.1 hburst).1
  have hbudget : source.placeholders + i < p.budgetFor := by
    have hlength := Burst.length_plan_le o.config acquired.data.length
    have hplaceholders := source.placeholders_le_one
    rw [Performance.budgetFor_eq hacquired]
    omega
  have hframes : ∀ m ≤ source.placeholders + i, ∃ f, p.result .silent m = .frame f := by
    intro m hm
    exact Performance.exists_result hacquired (by omega) (hfree _)
  have hplayed := Performance.getElem?_play hbudget hframes
  rw [hframe] at hplayed
  exact ⟨frame, hplayed, hshows⟩

/-- A speed in the settings is good for bursts of its length. -/
theorem playsAt_of_modemSpeed {o : Options} {n : Nat} (h : o.config.modemSpeed = .bps n) :
    o.PlaysAt n where
  speed := h
  burst := by
    rw [Config.burstLength, h]
    rfl
  planned total := by
    have hlead := Burst.lead_le o.config.seek total
    have hstep : o.config.stepLength total = o.bytesAt n := by
      rw [Burst.stepLength_eq, h]
      rfl
    rw [Burst.plan_eq, ← hstep]
    exact Burst.planned_planFrom o.config hlead
  played _ _ hacquired _ _ hburst := o.frames_burst hacquired hburst

/-- A number is played as it is only if it fits the word that keeps it. -/
theorem playsAt_iff_le {o : Options} {n : Nat} (h : o.PlaysAt (n % (Word.max32 + 1))) :
    o.PlaysAt n ↔ n ≤ Word.max32 := by
  constructor
  · intro hn
    have hsame : n % (Word.max32 + 1) = n := ModemSpeed.bps.inj (h.speed.symm.trans hn.speed)
    have hlt : n % (Word.max32 + 1) < Word.max32 + 1 := Nat.mod_lt n (Nat.succ_pos _)
    omega
  · intro hn
    rw [Nat.mod_eq_of_lt (Nat.lt_succ_of_le hn)] at h
    exact h

/-- **The speed that was asked for.**  For all arguments and files, whatever library reads the
settings files:

* Arguments that are accepted have been read as requests.  If the last request for a speed or
  a settings file is one for a speed, its value is a positive number of a 64-bit word.  What is
  played is this number without what it has beyond 32 bits, and that is not zero; so it is
  played as it is exactly if it fits 32 bits.
* A value that is no such number is never played: if a request before it is refused, the
  arguments are refused for that, and otherwise for this value. -/
theorem asked_speed_is_played [Json.Library] (files : Files) (arguments : List String) :
    (∀ o, parse files arguments = .ok o →
      ∃ requests, Request.ofArguments? arguments = some requests ∧
        ∀ front flag value later, requests = front ++ .setting .baud flag value :: later →
          (∀ r ∈ later, r.setsSpeed = false) →
            ∃ n, (numberOf? value = some n ∧ 0 < n ∧ n ≤ Word.max64) ∧
              (0 < n % (Word.max32 + 1) ∧ o.PlaysAt (n % (Word.max32 + 1))) ∧
              (o.PlaysAt n ↔ n ≤ Word.max32)) ∧
    ∀ front flag value later,
      Request.ofArguments? arguments = some (front ++ .setting .baud flag value :: later) →
        (∀ n, numberOf? value = some n → n = 0 ∨ Word.max64 < n) →
          (∃ e, ({} : Options).applyRequests files front = .error e ∧
            parse files arguments = .error e) ∨
          parse files arguments = .error (.invalidNumber value flag) := by
  constructor
  · intro o h
    obtain ⟨requests, hrequests, happlied, hfault⟩ := parse_eq_ok_iff.1 h
    refine ⟨requests, hrequests, ?_⟩
    rintro front flag value later rfl hlater
    obtain ⟨before, next, -, hset, hrest⟩ := exists_around happlied
    obtain ⟨n, hn, hspeed⟩ := modemSpeed_of_apply_baud hset
    have hlast := (modemSpeed_of_applyRequests hlater hrest).trans hspeed
    have hplays := playsAt_of_modemSpeed hlast
    obtain ⟨-, -, -, -, hsome, -⟩ := Config.fault?_eq_none_iff.1 hfault
    have hpos : n % (Word.max32 + 1) ≠ 0 := fun hzero => hsome (hzero ▸ hlast)
    exact ⟨n, hn, ⟨Nat.pos_of_ne_zero hpos, hplays⟩, playsAt_iff_le hplays⟩
  · intro front flag value later hrequests hvalue
    have hbaud : ∀ before : Options, before.apply files (.setting .baud flag value) =
        .error (.invalidNumber value flag) := by
      intro before
      simp only [apply, set, positive_eq_error hvalue]
    rcases applyRequests_refused hbaud {} front later with ⟨e, hfront, happlied⟩ | happlied
    · exact .inl ⟨e, hfront, parse_eq_error hrequests happlied⟩
    · exact .inr (parse_eq_error hrequests happlied)

/-- A speed with a plus sign, between other requests; and no speed at all. -/
theorem asked_speed_is_played_signed :
    let files : Files := fun _ => .error .notFound
    (∃ o, parse files ["--blink", "auto", "-b", "+2400", "-c", "4"] = .ok o ∧ o.PlaysAt 2400 ∧
      o.bytesAt 2400 = 12) ∧
    parse files ["-b", "0"] = .error (.invalidNumber "0" "-b") := by
  intro files
  constructor
  · let arguments := ["--blink", "auto", "-b", "+2400", "-c", "4"]
    have haccepted : (parse files arguments).toOption.map (·.config.frameInterval) = some 50 := by
      decide +kernel
    cases hparse : parse files arguments with
    | error e => simp [hparse, Except.toOption] at haccepted
    | ok o =>
      obtain ⟨requests, hrequests, hlast⟩ := (asked_speed_is_played files arguments).1 o hparse
      have hread : requests = [.setting .blink "--blink" "auto"] ++
          .setting .baud "-b" "+2400" :: [.setting .cols "-c" "4"] :=
        Option.some.inj (hrequests.symm.trans (by decide))
      obtain ⟨n, ⟨hn, -⟩, -, hplays⟩ := hlast _ _ _ _ hread (by decide)
      have hvalue : numberOf? "+2400" = some 2400 := by decide
      obtain rfl : 2400 = n := Option.some.inj (hvalue.symm.trans hn)
      have hinterval : o.config.frameInterval = 50 := by
        simpa [hparse, Except.toOption] using haccepted
      refine ⟨o, rfl, hplays.2 (by decide), ?_⟩
      rw [bytesAt, hinterval]
      decide
  · have hrefused := (asked_speed_is_played files ["-b", "0"]).2 [] "-b" "0" [] (by decide)
      (fun n hn => .inl (Option.some.inj (hn.symm.trans (by decide))))
    rcases hrefused with ⟨e, he, -⟩ | hrefused
    · cases he
    · exact hrefused

/-- A number of 33 bits is accepted, and played at what is left of it in 32 of them. -/
theorem wide_speed_wraps :
    let files : Files := fun _ => .error .notFound
    let arguments := ["-b", "4294969696", "-c", "8", "-r", "1"]
    Request.ofArguments? arguments = some [.setting .baud "-b" "4294969696",
      .setting .cols "-c" "8", .setting .rows "-r" "1"] ∧
    numberOf? "4294969696" = some 4294969696 ∧
    ∃ o, parse files arguments = .ok o ∧ o.config.modemSpeed = .bps 2400 ∧
      o.config.burstLength = some 12 ∧ ¬ o.PlaysAt 4294969696 := by
  intro files arguments
  have haccepted : (parse files arguments).toOption.map
      (fun o => (o.config.modemSpeed, o.config.burstLength)) = some (.bps 2400, some 12) := by
    decide +kernel
  refine ⟨by decide, by decide, ?_⟩
  cases hparse : parse files arguments with
  | error e => simp [hparse, Except.toOption] at haccepted
  | ok o =>
    simp only [hparse, Except.toOption, Option.map_some, Option.some.injEq, Prod.mk.injEq]
      at haccepted
    obtain ⟨hspeed, hburst⟩ := haccepted
    refine ⟨o, rfl, hspeed, hburst, fun hplays => ?_⟩
    have hsame := ModemSpeed.bps.inj (hspeed.symm.trans hplays.speed)
    exact absurd hsame (by decide)

end Options

end BaudReel.CommandLine
