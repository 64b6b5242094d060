import BaudReel.CommandLine.Options
/-!
# Arguments as requests

Which of the arguments are options and which are values of options is a matter of the
arguments alone: neither the files nor what the options come to have a say in it.  So the
arguments can be taken apart first, into requests, and the requests carried out one after
the other.  That this is how arguments are applied is `Options.applyAll_eq`, and arguments
that lack a value are never accepted (`Options.parse_eq_ok_iff`).

Requests are carried out in parts, so that one of them can be picked out (`Options.exists_around`),
and what each of them leaves as it is, all of them do (`Options.applyRequests_keeps`).  An option
for a part of the settings is the only one that changes this part, but for a settings file
(`Options.samePart_of_applyRequests`).
-/

namespace BaudReel.CommandLine

/-- A value is accepted as what it is read as, if that is positive and fits a word. -/
theorem positive_eq_ok_iff {flag value : String} {n : Nat} :
    positive flag value = .ok n ↔ numberOf? value = some n ∧ 0 < n ∧ n ≤ Word.max64 := by
  unfold positive
  cases numberOf? value with
  | none => simp
  | some m =>
    dsimp only
    split
    case isTrue hm =>
      rw [Except.ok.injEq, Option.some.injEq]
      exact ⟨fun h => ⟨h, h ▸ hm⟩, And.left⟩
    case isFalse hm =>
      rw [Option.some.injEq]
      exact ⟨nofun, fun h => absurd (h.1 ▸ h.2) hm⟩

/-- What is no positive number of a word is refused, with the option it was given for. -/
theorem positive_eq_error {flag value : String}
    (h : ∀ n, numberOf? value = some n → n = 0 ∨ Word.max64 < n) :
    positive flag value = .error (.invalidNumber value flag) := by
  unfold positive
  cases hvalue : numberOf? value with
  | none => rfl
  | some n =>
    have hn := h n hvalue
    exact if_neg (by omega)

/-- An option with its value, an option that stands alone, or an argument that is no
option. -/
inductive Request where
  | setting (s : Setting) (flag value : String)
  | switch (s : Switch)
  | positional (argument : String)
deriving DecidableEq, Inhabited

namespace Request

/-- The requests of arguments, none if the last option lacks its value. -/
def ofArguments? : List String → Option (List Request)
  | [] => some []
  | argument :: rest =>
    match Setting.ofText? argument with
    | some s =>
      match rest with
      | [] => none
      | value :: rest => (ofArguments? rest).map (.setting s argument value :: ·)
    | none =>
      match Switch.ofText? argument with
      | some s => (ofArguments? rest).map (.switch s :: ·)
      | none => (ofArguments? rest).map (.positional argument :: ·)

/-- Arguments behind others that can be read are read by themselves. -/
theorem ofArguments?_append {arguments : List String} {requests : List Request}
    (h : ofArguments? arguments = some requests) (more : List String) :
    ofArguments? (arguments ++ more) = (ofArguments? more).map (requests ++ ·) := by
  fun_induction ofArguments? arguments generalizing requests with
  | case1 =>
    obtain rfl : [] = requests := Option.some.inj h
    exact Option.map_id'.symm
  | case2 => cases h
  | case3 argument s hs value rest ih =>
    obtain ⟨later, hlater, rfl⟩ := Option.map_eq_some_iff.mp h
    rw [List.cons_append, List.cons_append, ofArguments?, hs]
    simp only [ih hlater, Option.map_map]
    rfl
  | case4 argument rest hs s hswitch ih =>
    obtain ⟨later, hlater, rfl⟩ := Option.map_eq_some_iff.mp h
    rw [List.cons_append, ofArguments?, hs]
    simp only [hswitch, ih hlater, Option.map_map]
    rfl
  | case5 argument rest hs hswitch ih =>
    obtain ⟨later, hlater, rfl⟩ := Option.map_eq_some_iff.mp h
    rw [List.cons_append, ofArguments?, hs]
    simp only [hswitch, ih hlater, Option.map_map]
    rfl

/-- Whether a request sets what an option is for.  A settings file does, since it replaces
all settings. -/
def sets (s : Setting) : Request → Bool
  | .setting t _ _ => t == s || t == .config
  | _ => false

end Request

/-- Whether settings agree in the part of them that an option is for, if it is for a part. -/
def Setting.SamePart (s : Setting) (c d : Config) : Prop :=
  match s with
  | .cols => c.minWidth = d.minWidth ∧ c.maxWidth = d.maxWidth
  | .rows => c.maxHeight = d.maxHeight
  | .baud => c.modemSpeed = d.modemSpeed
  | .blink => c.blinkMode = d.blinkMode
  | .config | .file => True

theorem Setting.SamePart.refl (s : Setting) (c : Config) : s.SamePart c c := by
  cases s <;> simp only [SamePart, and_self]

theorem Setting.SamePart.trans {s : Setting} {c d e : Config} (h : s.SamePart c d)
    (h' : s.SamePart d e) : s.SamePart c e := by
  cases s with
  | cols => exact ⟨h.1.trans h'.1, h.2.trans h'.2⟩
  | rows | baud | blink => exact Eq.trans h h'
  | config | file => trivial

namespace Options

variable [Json.Library]

/-- Carries out one request. -/
def apply (files : Files) (o : Options) : Request → Except UsageError Options
  | .setting s flag value => o.set files s flag value
  | .switch s => .ok (o.turnOn s)
  | .positional argument => o.positional argument

/-- Carries out requests from left to right, up to the first that is refused. -/
def applyRequests (files : Files) (o : Options) : List Request → Except UsageError Options
  | [] => .ok o
  | r :: rest =>
    match o.apply files r with
    | .error e => .error e
    | .ok o => o.applyRequests files rest

/-- Arguments are applied request by request. -/
theorem applyAll_eq (files : Files) (o : Options) {arguments : List String}
    {requests : List Request} (h : Request.ofArguments? arguments = some requests) :
    o.applyAll files arguments = o.applyRequests files requests := by
  fun_induction Request.ofArguments? arguments generalizing o requests with
  | case1 =>
    obtain rfl : [] = requests := Option.some.inj h
    rfl
  | case2 => cases h
  | case3 argument s hs value rest ih =>
    obtain ⟨later, hlater, rfl⟩ := Option.map_eq_some_iff.mp h
    simp only [applyAll, hs, applyRequests, apply]
    cases o.set files s argument value with
    | error e => rfl
    | ok o => exact ih o hlater
  | case4 argument rest hs s hswitch ih =>
    obtain ⟨later, hlater, rfl⟩ := Option.map_eq_some_iff.mp h
    simp only [applyAll, hs, hswitch, applyRequests, apply]
    exact ih (o.turnOn s) hlater
  | case5 argument rest hs hswitch ih =>
    obtain ⟨later, hlater, rfl⟩ := Option.map_eq_some_iff.mp h
    simp only [applyAll, hs, hswitch, applyRequests, apply]
    cases o.positional argument with
    | error e => rfl
    | ok o => exact ih o hlater

/-- Arguments that are accepted have been read as requests. -/
theorem exists_requests {files : Files} {o last : Options} {arguments : List String}
    (h : o.applyAll files arguments = .ok last) :
    ∃ requests, Request.ofArguments? arguments = some requests := by
  fun_induction Request.ofArguments? arguments generalizing o with
  | case1 => exact ⟨[], rfl⟩
  | case2 argument s hs => simp [applyAll, hs] at h
  | case3 argument s hs value rest ih =>
    simp only [applyAll, hs] at h
    cases hset : o.set files s argument value with
    | error e => simp [hset] at h
    | ok o =>
      obtain ⟨later, hlater⟩ := ih (hset ▸ h)
      exact ⟨_, Option.map_eq_some_iff.mpr ⟨later, hlater, rfl⟩⟩
  | case4 argument rest hs s hswitch ih =>
    simp only [applyAll, hs, hswitch] at h
    obtain ⟨later, hlater⟩ := ih h
    exact ⟨_, Option.map_eq_some_iff.mpr ⟨later, hlater, rfl⟩⟩
  | case5 argument rest hs hswitch ih =>
    simp only [applyAll, hs, hswitch] at h
    cases hnamed : o.positional argument with
    | error e => simp [hnamed] at h
    | ok o =>
      obtain ⟨later, hlater⟩ := ih (hnamed ▸ h)
      exact ⟨_, Option.map_eq_some_iff.mpr ⟨later, hlater, rfl⟩⟩

/-- Arguments are accepted if they can be read, all that they request is carried out and what
is left at the end has no fault. -/
theorem parse_eq_ok_iff {files : Files} {arguments : List String} {o : Options} :
    parse files arguments = .ok o ↔
      ∃ requests, Request.ofArguments? arguments = some requests ∧
        ({} : Options).applyRequests files requests = .ok o ∧ o.config.fault? = none := by
  constructor
  · intro h
    unfold parse at h
    cases happlied : ({} : Options).applyAll files arguments with
    | error e => simp [happlied] at h
    | ok last =>
      obtain ⟨requests, hrequests⟩ := exists_requests happlied
      rw [applyAll_eq files _ hrequests] at happlied
      cases hfault : last.config.fault? with
      | some fault => simp [applyAll_eq files _ hrequests, happlied, hfault] at h
      | none =>
        simp only [applyAll_eq files _ hrequests, happlied, hfault, Except.ok.injEq] at h
        subst h
        exact ⟨requests, hrequests, happlied, hfault⟩
  · rintro ⟨requests, hrequests, happlied, hfault⟩
    simp only [parse, applyAll_eq files _ hrequests, happlied, hfault]

/-- The first request that is refused decides what the arguments are refused with. -/
theorem parse_eq_error {files : Files} {arguments : List String} {requests : List Request}
    {e : UsageError} (hrequests : Request.ofArguments? arguments = some requests)
    (h : ({} : Options).applyRequests files requests = .error e) :
    parse files arguments = .error e := by
  simp only [parse, applyAll_eq files _ hrequests, h]

/-- Requests in two parts are carried out one part after the other. -/
theorem applyRequests_append (files : Files) (o : Options) (front later : List Request) :
    o.applyRequests files (front ++ later) =
      (o.applyRequests files front).bind (·.applyRequests files later) := by
  induction front generalizing o with
  | nil => rfl
  | cons r front ih =>
    rw [List.cons_append, applyRequests, applyRequests]
    cases o.apply files r with
    | error e => rfl
    | ok next => exact ih next

/-- Requests that are all carried out, as seen from one of them. -/
theorem exists_around {files : Files} {o last : Options} {front later : List Request}
    {r : Request} (h : o.applyRequests files (front ++ r :: later) = .ok last) :
    ∃ before next, o.applyRequests files front = .ok before ∧
      before.apply files r = .ok next ∧ next.applyRequests files later = .ok last := by
  rw [applyRequests_append] at h
  cases hfront : o.applyRequests files front with
  | error e => simp [hfront, Except.bind] at h
  | ok before =>
    simp only [hfront, Except.bind, applyRequests] at h
    cases hr : before.apply files r with
    | error e => simp [hr] at h
    | ok next =>
      simp only [hr] at h
      exact ⟨before, next, rfl, hr, h⟩

/-- A request that is always refused is reached, unless one in front of it is refused. -/
theorem applyRequests_refused {files : Files} {r : Request} {e : UsageError}
    (hr : ∀ before : Options, before.apply files r = .error e) (o : Options)
    (front later : List Request) :
    (∃ first, o.applyRequests files front = .error first ∧
        o.applyRequests files (front ++ r :: later) = .error first) ∨
      o.applyRequests files (front ++ r :: later) = .error e := by
  rw [applyRequests_append]
  cases o.applyRequests files front with
  | error first => exact .inl ⟨first, rfl, rfl⟩
  | ok before =>
    right
    simp only [Except.bind, applyRequests, hr before]

/-- What each request keeps, all of them keep. -/
theorem applyRequests_keeps {files : Files} {later : List Request} {P : Options → Prop}
    (hkeeps : ∀ r ∈ later, ∀ o next : Options, o.apply files r = .ok next → P o → P next)
    {o last : Options} (h : o.applyRequests files later = .ok last) (ho : P o) : P last := by
  induction later generalizing o with
  | nil =>
    obtain rfl : o = last := Except.ok.inj h
    exact ho
  | cons r later ih =>
    rw [applyRequests] at h
    cases hr : o.apply files r with
    | error e => simp [hr] at h
    | ok next =>
      simp only [hr] at h
      have hnext : P next := hkeeps r List.mem_cons_self o next hr ho
      exact ih (fun r' hr' => hkeeps r' (List.mem_cons_of_mem r hr')) h hnext

/-- A request leaves the part of the settings alone that an option is for, unless it is this
option or a settings file. -/
theorem samePart_of_apply {files : Files} {s : Setting} {r : Request} (hr : r.sets s = false)
    {o next : Options} (h : o.apply files r = .ok next) : s.SamePart next.config o.config := by
  cases r with
  | switch t =>
    obtain rfl : o.turnOn t = next := Except.ok.inj h
    cases t with
    | transparency => cases s <;> simp only [Setting.SamePart, turnOn, and_self]
    | format | help => exact .refl s _
  | positional argument =>
    simp only [apply, positional] at h
    split at h
    · obtain rfl := Except.ok.inj h
      exact .refl s _
    · cases h
  | setting t flag value =>
    obtain ⟨hdiffer, hconfig⟩ := Bool.or_eq_false_iff.1 hr
    have hother : t ≠ s := ne_of_beq_false hdiffer
    cases t with
    | config => cases hconfig
    | file =>
      obtain rfl := Except.ok.inj h
      exact .refl s _
    | cols | rows | baud | blink =>
      simp only [apply, set] at h
      split at h
      · cases h
      · obtain rfl := Except.ok.inj h
        cases s <;> first | exact absurd rfl hother | simp only [Setting.SamePart, and_self]

/-- Requests that leave a part of the settings to others do so together. -/
theorem samePart_of_applyRequests {files : Files} {s : Setting} {later : List Request}
    (hlater : ∀ r ∈ later, r.sets s = false) {o last : Options}
    (h : o.applyRequests files later = .ok last) : s.SamePart last.config o.config :=
  applyRequests_keeps (P := fun next => s.SamePart next.config o.config)
    (fun r hr _ _ happly hkept => (samePart_of_apply (hlater r hr) happly).trans hkept) h
    (.refl s _)

end Options

end BaudReel.CommandLine
