import BaudReel.Proofs.Bells
import BaudReel.Proofs.Grammar
import BaudReel.Proofs.LifeCycle
import BaudReel.Proofs.Sizing

/-!
# A trailer never shows

Behind the end-of-text mark a reader is in the trailer for good, and all that it asks
for from then on is to note descriptive strings (`Action.Unseen`).  Unseen actions
leave no strokes and ring no bells, so that neither the measured size nor the screen
depends on what the trailer holds, be it escapes, bells or form feeds
(`grid?_snapshot_marked`).  Its strings are those between the bytes that end one,
wherever the bursts were cut, and the last of them needs nothing behind it
(`stringsAt_marked`).
-/

namespace BaudReel

/-- An action that only the descriptive strings are about. -/
def Action.Unseen : Action → Prop
  | .endOfText => True
  | .metadata _ => True
  | _ => False

namespace Parser

variable {p : Parser}

theorem exists_of_inTrailer (h : p.inTrailer = true) : ∃ begun, p = .trailer begun := by
  cases p with
  | trailer begun => exact ⟨begun, rfl⟩
  | _ => exact absurd h Bool.false_ne_true

/-- A reader in the trailer stays in it. -/
theorem inTrailer_step (h : p.inTrailer = true) (byte : UInt8) :
    (p.step byte).1.inTrailer = true := by
  obtain ⟨begun, rfl⟩ := exists_of_inTrailer h
  rw [step]
  split <;> rfl

/-- There is no way out of the trailer. -/
theorem inTrailer_parse (h : p.inTrailer = true) (bytes : List UInt8) :
    (p.parse bytes).1.inTrailer = true := by
  induction bytes generalizing p with
  | nil => exact h
  | cons byte rest ih => exact ih (inTrailer_step h byte)

/-- What the trailer asks for is not seen. -/
theorem unseen_step_trailer (begun : Array UInt8) (byte : UInt8) :
    ∀ a ∈ ((trailer begun).step byte).2, a.Unseen := by
  intro a ha
  rw [step] at ha
  split at ha
  · unfold string? at ha
    split at ha
    · exact absurd ha List.not_mem_nil
    · rw [List.mem_singleton.1 ha]
      trivial
  · exact absurd ha List.not_mem_nil

/-- What is read in the trailer is not seen. -/
theorem unseen_parse (h : p.inTrailer = true) (bytes : List UInt8) :
    ∀ a ∈ (p.parse bytes).2, a.Unseen := by
  induction bytes generalizing p with
  | nil =>
    intro a ha
    exact absurd ha List.not_mem_nil
  | cons byte rest ih =>
    obtain ⟨begun, rfl⟩ := exists_of_inTrailer h
    intro a ha
    rw [parse_cons] at ha
    rcases List.mem_append.1 ha with hhere | hlater
    · exact unseen_step_trailer begun byte a hhere
    · exact ih (inTrailer_step h byte) a hlater

/-- Only the mark and the trailer behind it ask for what is not seen. -/
theorem inTrailer_of_unseen {byte : UInt8} {a : Action} (ha : a ∈ (p.step byte).2)
    (hunseen : a.Unseen) : (p.step byte).1.inTrailer = true := by
  cases p with
  | ground =>
    show (stepGround byte).1.inTrailer = true
    replace ha : a ∈ (stepGround byte).2 := ha
    unfold stepGround at ha ⊢
    split at ha
    · rw [List.mem_singleton.1 ha] at hunseen
      exact absurd hunseen id
    · split at ha
      · next hmark =>
        rw [if_pos hmark]
        rfl
      · split at ha
        · exact absurd ha List.not_mem_nil
        · rw [List.mem_singleton.1 ha] at hunseen
          exact absurd hunseen id
  | escape =>
    rw [step] at ha
    split at ha
    · exact absurd ha List.not_mem_nil
    · rcases List.mem_cons.1 ha with rfl | hsecond
      · exact absurd hunseen id
      · rw [List.mem_singleton.1 hsecond] at hunseen
        exact absurd hunseen id
  | params kept =>
    rw [step] at ha
    split at ha
    · rw [List.mem_singleton.1 ha] at hunseen
      exact absurd hunseen id
    · split at ha <;> exact absurd ha List.not_mem_nil
  | trailer begun => exact inTrailer_step rfl byte

/-- What is read in front of the trailer is seen. -/
theorem seen_of_not_inTrailer {bytes : List UInt8} (h : (p.parse bytes).1.inTrailer = false) :
    ∀ a ∈ (p.parse bytes).2, ¬a.Unseen := by
  induction bytes generalizing p with
  | nil =>
    intro a ha
    exact absurd ha List.not_mem_nil
  | cons byte rest ih =>
    intro a ha hunseen
    rw [parse_cons] at ha h
    rcases List.mem_append.1 ha with hhere | hlater
    · have hstays := inTrailer_parse (inTrailer_of_unseen hhere hunseen) rest
      exact absurd (h.symm.trans hstays) Bool.false_ne_true
    · exact ih h a hlater hunseen

/-- **Behind the mark.**  What follows it is not seen, and its strings are told in
order, the last one at the end of the stream. -/
theorem parse_marked {text : List UInt8} (hground : (p.parse text).1 = .ground)
    (rest : List UInt8) :
    (∃ unseen, (∀ a ∈ unseen, a.Unseen) ∧
      (p.parse (text ++ endMark :: rest)).2 = (p.parse text).2 ++ unseen) ∧
    p.readAll (text ++ endMark :: rest) =
      (p.parse text).2 ++ .endOfText :: (Ending.strings rest).map Ending.told := by
  have hmark : ground.step endMark = (.trailer #[], [.endOfText]) := by decide
  have hstrings := Ending.parse_trailer #[] rest (fun _ h => absurd h List.not_mem_nil)
  refine ⟨⟨.endOfText :: ((trailer #[]).parse rest).2, ?_, ?_⟩, ?_⟩
  · intro a ha
    rcases List.mem_cons.1 ha with rfl | hrest
    · trivial
    · exact unseen_parse rfl rest a hrest
  · rw [parse_append, hground, parse_cons, hmark]
    rfl
  · rw [readAll_append, hground, readAll, parse_cons, hmark]
    exact congrArg (fun told => (p.parse text).2 ++ .endOfText :: told) hstrings

end Parser

section Unseen

variable {actions : List Action} (h : ∀ a ∈ actions, a.Unseen)
include h

/-- Unseen actions leave no strokes and do not move the head. -/
theorem Head.strokes_of_unseen (k : Head) : k.strokes actions = [] := by
  induction actions with
  | nil => rfl
  | cons a actions ih =>
    have hstill : k.apply a = (k, []) := by
      have ha := h a List.mem_cons_self
      cases a with
      | endOfText => rfl
      | metadata text => rfl
      | _ => exact absurd ha id
    have hrest := ih fun b hb => h b (List.mem_cons_of_mem a hb)
    rw [strokes, hstill, hrest]
    rfl

/-- What is not seen has no bells. -/
theorem bellsIn_of_unseen : bellsIn actions = 0 := by
  induction actions with
  | nil => rfl
  | cons a actions ih =>
    have hquiet : Terminal.bellsOf a = 0 := by
      have ha := h a List.mem_cons_self
      cases a with
      | endOfText => rfl
      | metadata text => rfl
      | _ => exact absurd ha id
    have hrest := ih fun b hb => h b (List.mem_cons_of_mem a hb)
    have hsum : bellsIn (a :: actions) = Terminal.bellsOf a + bellsIn actions := rfl
    rw [hsum, hquiet, hrest]

end Unseen

/-- What is seen has no strings. -/
theorem flatMap_stringsOf_of_seen {actions : List Action} (h : ∀ a ∈ actions, ¬a.Unseen) :
    actions.flatMap Terminal.stringsOf = [] := by
  rw [List.flatMap_eq_nil_iff]
  intro a ha
  cases a with
  | metadata text => exact absurd trivial (h _ ha)
  | _ => rfl

namespace Session

/-- Whatever the size of the screen, a stream that is over has told the strings that
its reader gives. -/
theorem stringsAt_length (config : Config) (data : List UInt8) :
    stringsAt config data data.length true =
      (Parser.initial.readAll data).flatMap Terminal.stringsOf := by
  let fresh := Terminal.rendering (sizeFor config data).1 (sizeFor config data).2 config.maxWidth
    config.maxHeight config.transparency
  have hdraws : (fresh.process data).canvas.isGauge = false := Terminal.isGauge_process _ _
  have hmetadata : (fresh.process data).metadata =
      (Parser.initial.parse data).2.flatMap Terminal.stringsOf :=
    Terminal.metadata_process rfl data
  have hfinish := (Terminal.collected_finish hdraws).2
  rw [hmetadata, Terminal.parser_process, ← List.flatMap_append] at hfinish
  rw [stringsAt, if_pos rfl, snapshot, List.take_length]
  exact hfinish

section Marked

variable (config : Config) {text : List UInt8} (hground : (Parser.initial.parse text).1 = .ground)
  (rest : List UInt8)
include hground

/-- The trailer has no strokes. -/
theorem strokes_marked (k : Head) :
    k.strokes (Parser.initial.parse (text ++ Parser.endMark :: rest)).2 =
      k.strokes (Parser.initial.parse text).2 := by
  obtain ⟨unseen, hunseen, hparse⟩ := (Parser.parse_marked hground rest).1
  rw [hparse, Head.strokes_append, Head.strokes_of_unseen hunseen, List.append_nil]

/-- A trailer has no say in the size of the screen. -/
theorem sizeFor_marked :
    sizeFor config (text ++ Parser.endMark :: rest) = sizeFor config text := by
  have hreach : reachOf config (text ++ Parser.endMark :: rest) = reachOf config text := by
    rw [reachOf, reachOf, strokes_marked hground]
  rw [sizeFor_eq, sizeFor_eq]
  simp only [extent_measuringPass, hreach]

/-- **Nor in what is on it.** -/
theorem grid?_snapshot_marked :
    (snapshot config (text ++ Parser.endMark :: rest)
        (text ++ Parser.endMark :: rest).length).grid? =
      (snapshot config text text.length).grid? := by
  rw [snapshot, snapshot, List.take_length, List.take_length, Terminal.grid?_process_rendering,
    Terminal.grid?_process_rendering, strokes_marked hground, sizeFor_marked config hground]

/-- The trailer has no bells. -/
theorem bellsAt_marked :
    bellsAt (text ++ Parser.endMark :: rest) (text ++ Parser.endMark :: rest).length =
      bellsAt text text.length := by
  obtain ⟨unseen, hunseen, hparse⟩ := (Parser.parse_marked hground rest).1
  rw [bellsAt, bellsAt, List.take_length, List.take_length, hparse, bellsIn_append,
    bellsIn_of_unseen hunseen, Nat.add_zero]

/-- The strings of the trailer are all the strings there are. -/
theorem stringsAt_marked :
    stringsAt config (text ++ Parser.endMark :: rest)
        (text ++ Parser.endMark :: rest).length true =
      (Ending.strings rest).map CodePage.decode := by
  have hseen : ∀ a ∈ (Parser.initial.parse text).2, ¬a.Unseen :=
    Parser.seen_of_not_inTrailer (congrArg Parser.inTrailer hground)
  have htold : ((Ending.strings rest).map Ending.told).flatMap Terminal.stringsOf =
      (Ending.strings rest).map CodePage.decode := by
    rw [List.flatMap_map, List.map_eq_flatMap]
    rfl
  rw [stringsAt_length, (Parser.parse_marked hground rest).2, List.flatMap_append,
    flatMap_stringsOf_of_seen hseen, List.nil_append]
  exact htold

end Marked

end Session

/-- A frame that shows a terminal shows any other with the same screen. -/
theorem Frame.Shows.of_grid? {f : Frame} {t u : Terminal} {view : View} (h : f.Shows t view)
    (hgrid : t.grid? = u.grid?) : f.Shows u view := by
  obtain ⟨g, hg, hshown⟩ := h
  exact ⟨g, hgrid.symm.trans hg, hshown⟩

namespace Performance

/-- A session comes to an end with a call: the call has a frame, and none behind it
has one. -/
def EndsWith {σ : Type} (stage : Stage σ) (p : Performance σ) (last : Nat) (f : Frame) : Prop :=
  p.result stage last = .frame f ∧ ∀ n, p.result stage (last + 1 + n) = .ended

section Ends

variable {σ : Type} {stage : Stage σ} {world : σ} {config : Config} {sustain : Bool}
  {source : Source} {acquired : Acquired} (hacquired : source.resolve.1 = some acquired)
  (hfree : ∀ n, (fresh config sustain source world).RunsFreely stage n)
include hacquired hfree

/-- The call for the last burst is the last one with a frame, unless the session goes
on and that frame blinks. -/
theorem exists_endsWith
    (hover : sustain = false ∨ ∀ f, (fresh config sustain source world).result stage
      (source.placeholders + ((Burst.plan config acquired.data.length).length - 1)) = .frame f →
        f.willBlink = false) :
    ∃ f, (fresh config sustain source world).EndsWith stage
      (source.placeholders + ((Burst.plan config acquired.data.length).length - 1)) f := by
  obtain ⟨hconfig, hsustain⟩ := Session.readied_eq config sustain source
  obtain ⟨-, last, hlast, hbehind⟩ := Session.plays_begin source.resolve.2 hconfig acquired
  have hcount : max 1 (Burst.plan config acquired.data.length).length =
      (Burst.plan config acquired.data.length).length - 1 + 1 := by omega
  rw [hcount, Nat.add_sub_cancel, ← result_fresh hacquired (hfree _)] at hlast
  have hstill : Session.blinksOn config (Session.readied config sustain source).sustain last =
      false := by
    rw [hsustain, Session.blinksOn]
    rcases hover with rfl | hover
    · rw [Bool.false_and, Bool.false_and]
    · rw [hover last hlast, Bool.and_false]
  have hends : ¬(!(Burst.plan config acquired.data.length).isEmpty &&
      Session.blinksOn config (Session.readied config sustain source).sustain last) = true := by
    rw [hstill, Bool.and_false]
    exact Bool.false_ne_true
  rw [if_neg hends, hcount] at hbehind
  refine ⟨last, hlast, ?_⟩
  intro n
  rw [Nat.add_assoc, Nat.add_assoc, result_fresh hacquired (hfree _), ← Nat.add_assoc]
  exact hbehind n

/-- Behind the last burst of a stream that is played to its end, all its bells have
rung. -/
theorem beeps_of_ended (hresume : config.seek.resume = true) {n : Nat}
    (hn : source.placeholders + ((Burst.plan config acquired.data.length).length - 1) < n) :
    (fresh config sustain source world).beeps stage n =
      Session.bellsAt acquired.data acquired.data.length := by
  have hlength : (Burst.plan config acquired.data.length).length ≤ n - source.placeholders := by
    omega
  rw [beeps_eq (hfree n), Source.yield_of_resolve hacquired, Source.leadIn_of_resolve hacquired,
    Burst.played_of_length_le hlength, Burst.finalStop, if_pos hresume]

end Ends

/-- **A trailer never shows.**  Let a text leave the reader in its ground state, and
play it to its end with a trailer behind it and without one.

* The last frame with the trailer has just the strings of the trailer.
* Unless the text is empty, its screen is that of the last frame without the trailer,
  and as many bells have rung. -/
theorem trailer_never_shows {σ τ : Type} (stage : Stage σ) (other : Stage τ) (world : σ)
    (elsewhere : τ) (config : Config) (source source' : Source) {acquired acquired' : Acquired}
    (hacquired : source.resolve.1 = some acquired)
    (hacquired' : source'.resolve.1 = some acquired') {text trailer : List UInt8}
    (hdata : acquired.data = text ++ Parser.endMark :: trailer) (hdata' : acquired'.data = text)
    (hground : (Parser.initial.parse text).1 = .ground) (hresume : config.seek.resume = true)
    (hfree : ∀ n, (fresh config false source world).RunsFreely stage n)
    (hfree' : ∀ n, (fresh config false source' elsewhere).RunsFreely other n) :
    let p := fresh config false source world
    let q := fresh config false source' elsewhere
    let last := source.placeholders + ((Burst.plan config acquired.data.length).length - 1)
    let last' := source'.placeholders + ((Burst.plan config acquired'.data.length).length - 1)
    ∃ f g, p.EndsWith stage last f ∧ q.EndsWith other last' g ∧
      f.metadata = some ((Ending.strings trailer).map CodePage.decode) ∧
      (text ≠ [] → f.SameScreen g ∧
        ∀ m n, last < m → last' < n → p.beeps stage m = q.beeps other n) := by
  intro p q last last'
  obtain ⟨f, hf⟩ := exists_endsWith hacquired hfree (.inl rfl)
  obtain ⟨g, hg⟩ := exists_endsWith hacquired' hfree' (.inl rfl)
  obtain ⟨hshows, hmetadata⟩ := ends_result hacquired hresume (Nat.le_add_right _ _) (by omega)
    (hfree _) hf.1
  obtain ⟨hshows', -⟩ := ends_result hacquired' hresume (Nat.le_add_right _ _) (by omega)
    (hfree' _) hg.1
  rw [hdata] at hshows hmetadata
  rw [hdata'] at hshows'
  refine ⟨f, g, hf, hg, ?_, ?_⟩
  · rw [hmetadata, Session.stringsAt_marked config hground]
  · intro hplayed
    have hlength : text.length ≠ 0 := fun hzero => hplayed (List.length_eq_zero_iff.1 hzero)
    have hlength' : (text ++ Parser.endMark :: trailer).length ≠ 0 := by
      rw [List.length_append]
      omega
    rw [Session.ShowsPlayed, if_neg hlength'] at hshows
    rw [Session.ShowsPlayed, if_neg hlength] at hshows'
    have hgrid := Session.grid?_snapshot_marked config hground trailer
    refine ⟨(hshows.of_grid? hgrid).sameScreen hshows', ?_⟩
    intro m n hm hn
    have hbeeps : p.beeps stage m = _ := beeps_of_ended hacquired hfree hresume hm
    have hbeeps' : q.beeps other n = _ := beeps_of_ended hacquired' hfree' hresume hn
    rw [hbeeps, hbeeps', hdata, hdata', Session.bellsAt_marked hground]

/-- A text that rings the bell, and one with a trailer that looks like an escape, a
bell and a form feed, played byte by byte from a source that is still to be
acquired. -/
theorem trailer_never_shows_formFeed :
    let config : Config := { modemSpeed := .bps 200 }
    let text : List UInt8 := [0x41, 0x07]
    let trailer : List UInt8 := [0x1B, 0x5B, 0x00, 0x07, 0x1A, 0x00, 0x0C]
    let source : Source := .ofLoader (.loads (text ++ Parser.endMark :: trailer))
    let last := 1 + ((Burst.plan config 10).length - 1)
    let last' := (Burst.plan config 2).length - 1
    (Parser.initial.parse text).1 = .ground ∧ ∃ f g,
      (fresh config false source ()).EndsWith .silent last f ∧
      (fresh config false (.bytes text) ()).EndsWith .silent last' g ∧
      f.metadata = some ["←[", "•", "♀"] ∧ f.SameScreen g := by
  intro config text trailer source last last'
  have hground : (Parser.initial.parse text).1 = .ground := by decide +kernel
  obtain ⟨f, g, hf, hg, hmetadata, hsame⟩ := trailer_never_shows .silent .silent () () config
    source (.bytes text) rfl rfl rfl rfl hground rfl (runsFreely_silent _) (runsFreely_silent _)
  have hstrings : (Ending.strings trailer).map CodePage.decode = ["←[", "•", "♀"] := by
    decide +kernel
  rw [hstrings] at hmetadata
  have hlast : source.placeholders = 1 := rfl
  have hlast' : (Source.bytes text).placeholders = 0 := rfl
  rw [hlast] at hf
  rw [hlast', Nat.zero_add] at hg
  exact ⟨hground, f, g, hf, hg, hmetadata, (hsame (List.cons_ne_nil _ _)).1⟩

end Performance

end BaudReel
