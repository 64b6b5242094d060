import BaudReel.Proofs.Replay
import BaudReel.Proofs.Sharing
import Mathlib.Logic.Function.Basic

/-!
# Sessions that share a source

Any number of sessions may play one source, each with settings and on a stage of its
own, and be called in any order.  All they share is the source (`Ensemble`), and all
that becomes of the source is that the first session to open it has it acquired
(`source_after`).

The calls of one session are therefore the turns that it would take alone, with
whatever the source is at each of them (`stepsOf_eq`), and that makes no difference
to what it plays: `shared_sources_replay`.
-/

namespace BaudReel

/-- Sessions that play one source, each on a stage of its own. -/
structure Ensemble (ι : Type) (σ : ι → Type) where
  session : ι → Session
  world : (i : ι) → σ i
  source : Source

namespace Ensemble

variable {ι : Type} {σ : ι → Type}

/-- Sessions that have not begun. -/
def fresh (config : ι → Config) (sustain : ι → Bool) (source : Source)
    (world : (i : ι) → σ i) : Ensemble ι σ where
  session := fun i => Session.unbegun (config i) (sustain i)
  world := world
  source := source

/-- One of the sessions, with the source as it is. -/
def member (e : Ensemble ι σ) (i : ι) : Performance (σ i) :=
  ⟨e.session i, e.source, e.world i⟩

variable [DecidableEq ι] (stage : (i : ι) → Stage (σ i))

/-- Calls one of the sessions for its next frame. -/
def call (e : Ensemble ι σ) (i : ι) : Step × Ensemble ι σ :=
  let (step, p) := (e.member i).next (stage i)
  (step,
    { session := Function.update e.session i p.session
      world := Function.update e.world i p.world
      source := p.source })

/-- The ensemble behind calls in a certain order. -/
def after (e : Ensemble ι σ) : List ι → Ensemble ι σ
  | [] => e
  | i :: later => (e.call stage i).2.after later

/-- What the calls of one session come to, in order. -/
def stepsOf (i : ι) (e : Ensemble ι σ) : List ι → List Step
  | [] => []
  | j :: later =>
    if j = i then (e.call stage j).1 :: (e.call stage j).2.stepsOf i later
    else (e.call stage j).2.stepsOf i later

/-- Whether one of the calls opens the source. -/
def opened (e : Ensemble ι σ) : List ι → Bool
  | [] => false
  | i :: later => (e.member i).opens (stage i) || (e.call stage i).2.opened later

/-- None of the calls is disturbed. -/
def RunsFreely (e : Ensemble ι σ) : List ι → Prop
  | [] => True
  | i :: later => (e.member i).Undisturbed (stage i) ∧ (e.call stage i).2.RunsFreely later

/-- The source at the calls of one session. -/
def sourcesOf (i : ι) (e : Ensemble ι σ) : List ι → List Source
  | [] => []
  | j :: later =>
    if j = i then e.source :: (e.call stage j).2.sourcesOf i later
    else (e.call stage j).2.sourcesOf i later

section Calls

variable {stage} {e : Ensemble ι σ} {acquired : Acquired}

/-- **An undisturbed call** is a turn of the session that is called. -/
theorem call_eq {i : ι} (h : (e.member i).Undisturbed (stage i)) :
    (e.call stage i).1 = ((e.session i).turn e.source).step ∧
      (e.call stage i).2.session =
        Function.update e.session i ((e.session i).turn e.source).session ∧
      (e.call stage i).2.source = ((e.session i).turn e.source).source := by
  unfold call
  rw [h.next_eq]
  exact ⟨rfl, rfl, rfl⟩

/-- A call leaves the shared source alone unless its member opens it. -/
theorem source_call {i : ι} (h : (e.member i).Undisturbed (stage i)) :
    (e.call stage i).2.source =
      if (e.member i).opens (stage i) then e.source.resolve.2 else e.source := by
  rw [(call_eq h).2.2, Session.source_turn, Performance.opens, h.awake]
  rfl

/-- The shared source keeps what it gives. -/
theorem gives_call {i : ι} (h : (e.member i).Undisturbed (stage i))
    (hgives : e.source.Gives acquired) : (e.call stage i).2.source.Gives acquired := by
  rw [source_call h]
  split
  · exact hgives.resolve
  · exact hgives

/-- **What becomes of the source.**  It is as if it had been asked for once, if one of
the calls opened it, and never otherwise. -/
theorem source_after (hgives : e.source.Gives acquired) {calls : List ι}
    (hfree : e.RunsFreely stage calls) :
    (e.after stage calls).source =
      if e.opened stage calls then e.source.resolve.2 else e.source := by
  induction calls generalizing e with
  | nil => rfl
  | cons i later ih =>
    obtain ⟨hcall, hlater⟩ := hfree
    rw [after, ih (gives_call hcall hgives) hlater, source_call hcall, opened]
    by_cases hopens : (e.member i).opens (stage i)
    · rw [if_pos hopens, Source.resolve_resolve hgives, hopens, Bool.true_or, ite_self]
      rfl
    · rw [if_neg hopens, Bool.eq_false_iff.2 hopens, Bool.false_or]

/-- **A run of calls.**  The shared source keeps what it gives. -/
theorem gives_after (hgives : e.source.Gives acquired) {calls : List ι}
    (hfree : e.RunsFreely stage calls) : (e.after stage calls).source.Gives acquired := by
  rw [source_after hgives hfree]
  split
  · exact hgives.resolve
  · exact hgives

/-- The shared source is ready as soon as one of its members has opened it. -/
theorem isReady_after (hgives : e.source.Gives acquired) (hready : e.source.isReady = false)
    {calls : List ι} (hfree : e.RunsFreely stage calls) :
    (e.after stage calls).source.isReady = e.opened stage calls := by
  rw [source_after hgives hfree]
  split
  case isTrue hopened => rw [Source.isReady_resolve hgives, hopened]
  case isFalse hclosed => rw [hready, Bool.eq_false_iff.2 hclosed]

/-- **One session among others.**  Its calls are its own turns, over the source as it
is at each of them. -/
theorem stepsOf_eq (i : ι) {calls : List ι} (hfree : e.RunsFreely stage calls) :
    e.stepsOf stage i calls = (e.session i).stepsAlong (e.sourcesOf stage i calls) := by
  induction calls generalizing e with
  | nil => rfl
  | cons j later ih =>
    obtain ⟨hcall, hlater⟩ := hfree
    obtain ⟨hstep, hsession, -⟩ := call_eq hcall
    rw [stepsOf, sourcesOf, ih hlater, hsession]
    by_cases hj : j = i
    · subst hj
      rw [if_pos rfl, if_pos rfl, Function.update_self, hstep]
      rfl
    · rw [if_neg hj, if_neg hj, Function.update_of_ne (Ne.symm hj)]

theorem length_sourcesOf (i : ι) (calls : List ι) :
    (e.sourcesOf stage i calls).length = calls.count i := by
  induction calls generalizing e with
  | nil => rfl
  | cons j later ih =>
    rw [sourcesOf, List.count_cons]
    by_cases hj : j = i
    · rw [if_pos hj, List.length_cons, ih, if_pos (beq_iff_eq.2 hj)]
    · rw [if_neg hj, ih, if_neg (fun h => hj (beq_iff_eq.1 h)), Nat.add_zero]

/-- Every call of a member finds a source that gives the same. -/
theorem gives_of_mem_sourcesOf (i : ι) (hgives : e.source.Gives acquired) {calls : List ι}
    (hfree : e.RunsFreely stage calls) :
    ∀ source ∈ e.sourcesOf stage i calls, source.Gives acquired := by
  induction calls generalizing e with
  | nil =>
    intro source hsource
    exact absurd hsource List.not_mem_nil
  | cons j later ih =>
    intro source hsource
    obtain ⟨hcall, hlater⟩ := hfree
    have hrest := ih (gives_call hcall hgives) hlater source
    rw [sourcesOf] at hsource
    split at hsource
    · rcases List.mem_cons.1 hsource with rfl | hmem
      · exact hgives
      · exact hrest hmem
    · exact hrest hsource

/-- At the first call of a session the source is what the calls of the others have
made of it. -/
theorem exists_sourcesOf_eq_cons {i : ι} {calls : List ι} (hi : i ∈ calls) :
    ∃ later, e.sourcesOf stage i calls =
      (e.after stage (calls.takeWhile (· ≠ i))).source :: later := by
  induction calls generalizing e with
  | nil => exact absurd hi List.not_mem_nil
  | cons j rest ih =>
    rw [sourcesOf, List.takeWhile_cons]
    by_cases hj : j = i
    · rw [if_pos hj, if_neg (by simp [hj])]
      exact ⟨_, rfl⟩
    · have hrest : i ∈ rest := (List.mem_cons.1 hi).resolve_left (Ne.symm hj)
      rw [if_neg hj, if_pos (by simp [hj])]
      exact ih hrest

/-- The beginning of a free run is a free run. -/
theorem RunsFreely.takeWhile (keep : ι → Bool) {calls : List ι} (h : e.RunsFreely stage calls) :
    e.RunsFreely stage (calls.takeWhile keep) := by
  induction calls generalizing e with
  | nil => trivial
  | cons i later ih =>
    rw [List.takeWhile_cons]
    split
    · exact ⟨h.1, ih h.2⟩
    · trivial

end Calls

end Ensemble

/-- An acquisition that does not break off gives its outcome. -/
theorem Source.gives_ofLoader {loader : Loader} (h : loader ≠ .breaksOff) :
    (Source.ofLoader loader).Gives loader.outcome := by
  cases loader with
  | loads data => rfl
  | fails error => rfl
  | breaksOff => exact absurd rfl h

namespace Ensemble

variable {ι : Type} {σ : ι → Type} [DecidableEq ι]

/-- **Shared sources replay.**  Let sessions share an acquisition that does not break
off, and be called in any order, without being disturbed.

* The acquisition is run once at most.
* Each session first shows the placeholder if at its first call nobody had opened
  the source.  Then it shows, frame for frame, what a session with the same settings
  shows that has the bytes already, with the error attached if acquiring failed.
* The bytes of a failed acquisition are those of the error's message. -/
theorem shared_sources_replay (stage : (i : ι) → Stage (σ i)) (world : (i : ι) → σ i)
    (config : ι → Config) (sustain : ι → Bool) {loader : Loader} (hloader : loader ≠ .breaksOff)
    (calls : List ι)
    (hfree : (fresh config sustain (.ofLoader loader) world).RunsFreely stage calls)
    {τ : Type} (other : Stage τ) (elsewhere : τ)
    (halone : ∀ i n, (Performance.fresh (config i) (sustain i) (.bytes loader.outcome.data)
      elsewhere).RunsFreely other n) :
    let e := fresh config sustain (.ofLoader loader) world
    (e.after stage calls).source.runs ≤ 1 ∧
    (∀ i,
      let before := calls.takeWhile (· ≠ i)
      let placeholder :=
        if e.opened stage before then [] else [Step.frame (Frame.blank (config i) {})]
      let alone := Performance.fresh (config i) (sustain i) (.bytes loader.outcome.data) elsewhere
      e.stepsOf stage i calls =
        (placeholder ++ (List.range (calls.count i)).map fun n =>
          (alone.result other n).withError loader.outcome.error).take (calls.count i)) ∧
    ∀ error, loader = .fails error →
      (e.after stage calls).source.Gives ⟨CodePage.encode error.message, some error⟩ := by
  intro e
  have hgives : e.source.Gives loader.outcome := Source.gives_ofLoader hloader
  refine ⟨?_, ?_, ?_⟩
  · rw [source_after hgives hfree]
    split
    · have hruns : (Pending.asked loader 1).runs = 1 := Pending.runs_asked loader 1
      exact Nat.le_of_eq hruns
    · exact Nat.zero_le 1
  · intro i before placeholder alone
    have hcount : (e.sourcesOf stage i calls).length = calls.count i := length_sourcesOf i calls
    have hsteps : e.stepsOf stage i calls =
        (Session.unbegun (config i) (sustain i)).stepsAlong (e.sourcesOf stage i calls) :=
      stepsOf_eq i hfree
    have hsources := gives_of_mem_sourcesOf i hgives hfree
    by_cases hi : i ∈ calls
    · obtain ⟨later, hlater⟩ : ∃ later, e.sourcesOf stage i calls =
          (e.after stage before).source :: later := exists_sourcesOf_eq_cons hi
      have hready : (e.after stage before).source.isReady = e.opened stage before :=
        isReady_after hgives rfl (hfree.takeWhile _)
      have hplaceholder : List.replicate (e.after stage before).source.placeholders
          (Step.frame (Frame.blank (config i) {})) = placeholder := by
        unfold Source.placeholders placeholder
        rw [hready]
        split <;> rfl
      have hresult : ∀ n, alone.result other n = (Session.unbegun (config i) (sustain i)).outcome
          (.bytes loader.outcome.data) n := fun n => (halone i (n + 1)).result_eq
      rw [hlater] at hsources hcount hsteps
      rw [hsteps, Session.stepsAlong_unbegun (config i) (sustain i) hsources, hplaceholder,
        ← hcount, List.length_cons]
      simp only [hresult]
    · have hnone : calls.count i = 0 := List.count_eq_zero.2 hi
      rw [hnone] at hcount
      rw [hsteps, hnone, List.length_eq_zero_iff.1 hcount, List.take_zero]
      rfl
  · rintro error rfl
    exact gives_after hgives hfree

theorem runsFreely_silent (e : Ensemble ι fun _ => Unit) (calls : List ι) :
    e.RunsFreely (fun _ => .silent) calls := by
  induction calls generalizing e with
  | nil => trivial
  | cons i later ih => exact ⟨⟨rfl, fun _ _ => rfl⟩, ih _⟩

/-- Three sessions over a file that cannot be read.  The first two begin before it is
read, and the third one behind that. -/
theorem shared_sources_replay_failed :
    let loader : Loader := .fails (.io "no such file")
    let e : Ensemble (Fin 3) fun _ => Unit :=
      fresh (fun _ => {}) (fun _ => true) (.ofLoader loader) (fun _ => ())
    let calls : List (Fin 3) := [0, 1, 0, 2, 1]
    let alone := Performance.fresh {} true (.bytes loader.outcome.data) ()
    let shown := (alone.result .silent 0).withError loader.outcome.error
    (loader ≠ .breaksOff ∧ e.RunsFreely (fun _ => .silent) calls ∧
        ∀ n, alone.RunsFreely .silent n) ∧
      (e.after (fun _ => .silent) calls).source.runs ≤ 1 ∧
      e.stepsOf (fun _ => .silent) 1 calls = [.frame (Frame.blank {} {}), shown] ∧
      e.stepsOf (fun _ => .silent) 2 calls = [shown] := by
  intro loader e calls alone shown
  have hloader : loader ≠ .breaksOff := Loader.noConfusion
  have hfree := runsFreely_silent e calls
  have halone := Performance.runsFreely_silent alone
  obtain ⟨hruns, hsteps, -⟩ := shared_sources_replay (fun _ => .silent) (fun _ => ())
    (fun _ => {}) (fun _ => true) hloader calls hfree .silent () (fun _ => halone)
  exact ⟨⟨hloader, hfree, halone⟩, hruns, hsteps 1, hsteps 2⟩

end Ensemble

end BaudReel
