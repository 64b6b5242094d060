import BaudReel.CommandLine.Program
import BaudReel.CommandLine.Requests
import BaudReel.Proofs.Literals
import BaudReel.Proofs.Rectangle
import BaudReel.Proofs.Speed

/-!
# The size that was asked for

A width that is asked for becomes both limits of the width, a height becomes the largest one.
No later option changes that but another one for the same limits or a settings file
(`Options.samePart_of_applyRequests`).  Every frame that is played lies within the limits that
are left at the end, whatever is played (`Options.within_of_mem_frames`), and so the last width
binds exactly and the last height from above.

A size can be asked for at any time: the limits stay in order, the least height giving way if it
has to (`Config.fault?_fixWidth`, `Config.fault?_capHeight`).  So arguments that are accepted are
accepted with a size behind them, too.
-/

namespace BaudReel

namespace Config

/-- Settings with one width only. -/
def fixWidth (n : Nat) (c : Config) : Config :=
  { c with minWidth := n, maxWidth := n }

/-- Settings with a largest height, to which the smallest gives way. -/
def capHeight (n : Nat) (c : Config) : Config :=
  { c with maxHeight := n, minHeight := min c.minHeight n }

variable {c : Config} {n : Nat}

/-- Usable settings stay usable with another width. -/
theorem fault?_fixWidth (hfault : c.fault? = none) (hn : 0 < n) :
    (c.fixWidth n).fault? = none := by
  rw [fault?_eq_none_iff] at hfault ⊢
  obtain ⟨⟨-, hheight⟩, ⟨-, hheights⟩, hrest⟩ := hfault
  exact ⟨⟨hn, hheight⟩, ⟨Nat.le_refl n, hheights⟩, hrest⟩

/-- Usable settings stay usable with another largest height. -/
theorem fault?_capHeight (hfault : c.fault? = none) (hn : 0 < n) :
    (c.capHeight n).fault? = none := by
  rw [fault?_eq_none_iff] at hfault ⊢
  obtain ⟨⟨hwidth, -⟩, ⟨hwidths, -⟩, hrest⟩ := hfault
  exact ⟨⟨hwidth, hn⟩, ⟨hwidths, Nat.min_le_right _ n⟩, hrest⟩

end Config

namespace CommandLine

/-- The decimal numeral of a number is read as this number. -/
theorem numberOf?_toString (n : Nat) : numberOf? (toString n) = some n := by
  have hdigits : ∀ c ∈ Nat.toDigits 10 n, c.isDigit = true := fun _ => isDigit_of_mem_toDigits
  have hall : (Nat.toDigits 10 n).all Char.isDigit = true := List.all_eq_true.2 hdigits
  have hsome : (Nat.toDigits 10 n).isEmpty = false :=
    List.isEmpty_eq_false_iff.2 Nat.toDigits_ne_nil
  rw [numberOf?, toList_toString]
  -- a digit is no plus sign
  split
  case h_1 rest hplus =>
    have hplus : Char.isDigit '+' = true := hdigits _ (hplus ▸ List.mem_cons_self)
    exact absurd hplus (by decide)
  case h_2 =>
    rw [hsome, hall]
    exact congrArg some Nat.ofDigitChars_ten_toDigits

namespace Options

variable {files : Files} {o next : Options} {flag value : String}

/-- A width is accepted as a positive number of a word, and fixes the width at this number. -/
theorem apply_cols_eq_ok_iff [Json.Library] : o.apply files (.setting .cols flag value) = .ok next ↔
    ∃ n, (numberOf? value = some n ∧ 0 < n ∧ n ≤ Word.max64) ∧
      { o with config := o.config.fixWidth n } = next := by
  simp only [apply, set, ← @positive_eq_ok_iff flag value]
  cases positive flag value with
  | error e => simp
  | ok n => simp [Config.fixWidth]

/-- A height is accepted as a positive number of a word, and caps the height at this number. -/
theorem apply_rows_eq_ok_iff [Json.Library] : o.apply files (.setting .rows flag value) = .ok next ↔
    ∃ n, (numberOf? value = some n ∧ 0 < n ∧ n ≤ Word.max64) ∧
      { o with config := o.config.capHeight n } = next := by
  simp only [apply, set, ← @positive_eq_ok_iff flag value]
  cases positive flag value with
  | error e => simp
  | ok n => simp [Config.capHeight]

/-- Every frame that is played lies within the limits of the settings. -/
theorem within_of_mem_frames (hfault : o.config.fault? = none) {source : Source} {f : Frame}
    (hf : f ∈ o.frames source) :
    (max o.config.minWidth 1 ≤ f.width ∧ f.width ≤ o.config.maxWidth) ∧
      max o.config.minHeight 1 ≤ f.height ∧ f.height ≤ o.config.maxHeight := by
  let p : Performance Unit := .fresh o.config false source ()
  obtain ⟨n, hframe⟩ : ∃ n, p.result .silent n = .frame f :=
    Performance.exists_result_of_mem_play hf
  rw [(Performance.runsFreely_silent p (n + 1)).result_eq] at hframe
  exact Session.outcome_within hfault hframe

/-- Arguments that are accepted are accepted with one more option behind them, if this can be
carried out and leaves usable settings. -/
theorem parse_append [Json.Library] {arguments : List String}
    (h : parse files arguments = .ok o) {s : Setting} (hflag : Setting.ofText? flag = some s)
    (happly : o.apply files (.setting s flag value) = .ok next)
    (hfault : next.config.fault? = none) :
    parse files (arguments ++ [flag, value]) = .ok next := by
  obtain ⟨requests, hrequests, happlied, -⟩ := parse_eq_ok_iff.1 h
  refine parse_eq_ok_iff.2 ⟨requests ++ [.setting s flag value], ?_, ?_, hfault⟩
  · rw [Request.ofArguments?_append hrequests, Request.ofArguments?, hflag]
    rfl
  · rw [applyRequests_append, happlied]
    simp only [Except.bind, applyRequests, happly]

section Last

variable [Json.Library] {last : Options} {front later : List Request}
  (hfault : last.config.fault? = none)
include hfault

/-- The last width binds, unless a settings file follows it. -/
theorem exists_width
    (happlied : ({} : Options).applyRequests files (front ++ .setting .cols flag value :: later) =
      .ok last)
    (hlater : ∀ r ∈ later, r.sets .cols = false) :
    ∃ n, (numberOf? value = some n ∧ 0 < n ∧ n ≤ Word.max64) ∧
      ∀ source, ∀ f ∈ last.frames source, f.width = n := by
  obtain ⟨before, next, -, hset, hrest⟩ := exists_around happlied
  obtain ⟨n, hn, rfl⟩ := apply_cols_eq_ok_iff.1 hset
  obtain ⟨hmin, hmax⟩ := samePart_of_applyRequests hlater hrest
  refine ⟨n, hn, fun source f hf => ?_⟩
  obtain ⟨⟨hleast, hmost⟩, -⟩ := within_of_mem_frames hfault hf
  rw [hmin, Config.fixWidth] at hleast
  rw [hmax, Config.fixWidth] at hmost
  simp only at hleast hmost
  omega

/-- The last height binds from above, unless a settings file follows it. -/
theorem exists_height
    (happlied : ({} : Options).applyRequests files (front ++ .setting .rows flag value :: later) =
      .ok last)
    (hlater : ∀ r ∈ later, r.sets .rows = false) :
    ∃ n, (numberOf? value = some n ∧ 0 < n ∧ n ≤ Word.max64) ∧
      ∀ source, ∀ f ∈ last.frames source, 1 ≤ f.height ∧ f.height ≤ n := by
  obtain ⟨before, next, -, hset, hrest⟩ := exists_around happlied
  obtain ⟨n, hn, rfl⟩ := apply_rows_eq_ok_iff.1 hset
  have hmax : last.config.maxHeight = n := samePart_of_applyRequests hlater hrest
  refine ⟨n, hn, fun source f hf => ?_⟩
  obtain ⟨-, hleast, hmost⟩ := within_of_mem_frames hfault hf
  exact ⟨Nat.le_trans (Nat.le_max_right _ 1) hleast, hmax ▸ hmost⟩

end Last

/-- **The size that was asked for.**  For all arguments that are accepted, whatever library reads
the settings files:

* They have been read as requests.  If no other width and no settings file follows a width, this
  is a positive number of a 64-bit word, and every frame that is played, of whatever source, is
  just as wide.
* If no other height and no settings file follows a height, this is such a number too, and
  every frame that is played has between one row and as many.
* With any such number behind them as a width or a height, however it is written, they are
  accepted again.  Its decimal numeral is a way to write it. -/
theorem asked_size_binds [Json.Library] {files : Files} {arguments : List String} {o : Options}
    (h : parse files arguments = .ok o) :
    (∃ requests, Request.ofArguments? arguments = some requests ∧
      (∀ front flag value later, requests = front ++ .setting .cols flag value :: later →
        (∀ r ∈ later, r.sets .cols = false) →
          ∃ n, (numberOf? value = some n ∧ 0 < n ∧ n ≤ Word.max64) ∧
            ∀ source, ∀ f ∈ o.frames source, f.width = n) ∧
      ∀ front flag value later, requests = front ++ .setting .rows flag value :: later →
        (∀ r ∈ later, r.sets .rows = false) →
          ∃ n, (numberOf? value = some n ∧ 0 < n ∧ n ≤ Word.max64) ∧
            ∀ source, ∀ f ∈ o.frames source, 1 ≤ f.height ∧ f.height ≤ n) ∧
    ∀ n, 0 < n → n ≤ Word.max64 →
      numberOf? (toString n) = some n ∧
      ∀ flag value, Setting.ofText? flag = some .cols ∨ Setting.ofText? flag = some .rows →
        numberOf? value = some n → ∃ next, parse files (arguments ++ [flag, value]) = .ok next := by
  obtain ⟨requests, hrequests, happlied, hfault⟩ := parse_eq_ok_iff.1 h
  refine ⟨⟨requests, hrequests, ?_, ?_⟩, ?_⟩
  · rintro front flag value later rfl hlater
    exact exists_width hfault happlied hlater
  · rintro front flag value later rfl hlater
    exact exists_height hfault happlied hlater
  · intro n hpos hmost
    refine ⟨numberOf?_toString n, ?_⟩
    rintro flag value (hflag | hflag) hvalue
    · have happly : o.apply files (.setting .cols flag value) =
          .ok { o with config := o.config.fixWidth n } :=
        apply_cols_eq_ok_iff.2 ⟨n, ⟨hvalue, hpos, hmost⟩, rfl⟩
      exact ⟨_, parse_append h hflag happly (Config.fault?_fixWidth hfault hpos)⟩
    · have happly : o.apply files (.setting .rows flag value) =
          .ok { o with config := o.config.capHeight n } :=
        apply_rows_eq_ok_iff.2 ⟨n, ⟨hvalue, hpos, hmost⟩, rfl⟩
      exact ⟨_, parse_append h hflag happly (Config.fault?_capHeight hfault hpos)⟩

/-- A height below the default least one, a width that is asked for twice, and one more.  A stream
of one glyph is played on a screen of just this size. -/
theorem asked_size_binds_twice :
    let files : Files := fun _ => .error .notFound
    let arguments := ["-c", "3", "--rows", "1", "--cols", "+40", "-b", "300"]
    ∃ o, parse files arguments = .ok o ∧
      (∃ f, (o.frames (.bytes [0x41]))[0]? = some f ∧ (f.width, f.height) = (40, 1)) ∧
      ∃ next, parse files (arguments ++ ["-r", toString Word.max64]) = .ok next := by
  intro files arguments
  have haccepted : (parse files arguments).toOption.map (·.config.seek.resume) = some true := by
    decide +kernel
  cases hparse : parse files arguments with
  | error e => simp [hparse, Except.toOption] at haccepted
  | ok o =>
    obtain ⟨⟨requests, hrequests, hcols, hrows⟩, happend⟩ := asked_size_binds hparse
    obtain rfl : [.setting .cols "-c" "3", .setting .rows "--rows" "1",
        .setting .cols "--cols" "+40", .setting .baud "-b" "300"] = requests :=
      Option.some.inj (Eq.trans (by decide) hrequests)
    obtain ⟨n, ⟨hn, -⟩, hwidth⟩ :=
      hcols [.setting .cols "-c" "3", .setting .rows "--rows" "1"] _ _ _ rfl (by decide)
    obtain ⟨m, ⟨hm, -⟩, hheight⟩ := hrows [.setting .cols "-c" "3"] _ _ _ rfl (by decide)
    obtain rfl : 40 = n := Option.some.inj (Eq.trans (by decide) hn)
    obtain rfl : 1 = m := Option.some.inj (Eq.trans (by decide) hm)
    refine ⟨o, rfl, ?_, ?_⟩
    · have hresume : o.config.seek.resume = true := by
        simpa [hparse, Except.toOption] using haccepted
      have hplan : Burst.plan o.config 1 ≠ [] := by
        intro hnil
        have hstop := (Burst.plan_eq_nil_iff o.config 1).1 hnil
        rw [Burst.finalStop, hresume, if_pos rfl] at hstop
        exact Nat.one_ne_zero hstop
      obtain ⟨burst, hburst⟩ : ∃ burst, (Burst.plan o.config 1)[0]? = some burst :=
        ⟨_, List.getElem?_eq_getElem (List.length_pos_iff.2 hplan)⟩
      have hacquired : (Source.bytes [0x41]).resolve.1 = some (.success [0x41]) := rfl
      obtain ⟨f, hplayed, -⟩ := frames_burst o hacquired hburst
      have hmem := List.mem_of_getElem? hplayed
      obtain ⟨hleast, hmost⟩ := hheight _ f hmem
      exact ⟨f, hplayed, Prod.ext (hwidth _ f hmem) (Nat.le_antisymm hmost hleast)⟩
    · obtain ⟨hnumber, haccepts⟩ := happend Word.max64 (by decide) (Nat.le_refl _)
      exact haccepts "-r" _ (.inr rfl) hnumber

end Options

end CommandLine

end BaudReel
