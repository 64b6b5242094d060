import BaudReel.CodePage
/-!
# Sources

The bytes to be played are in memory already, or they are still to be
acquired.  An acquisition is run by whoever asks first, and never again: its
outcome is kept and shared by all who hold the source.  A failed acquisition
has bytes too, namely the error's message, so that the failure can be read on
the screen.

An acquisition may also break off without any outcome.  It counts as run all
the same, and the next one to ask is told that it is spent.
-/

namespace BaudReel

/-- Why the bytes could not be had. -/
inductive SourceError where
  /-- Reading failed. -/
  | io (text : String)
  /-- They are not to be had at all. -/
  | unavailable (text : String)
deriving DecidableEq, Inhabited

/-- The message shown for a failure. -/
def SourceError.message : SourceError → String
  | .io text => text
  | .unavailable text => text

/-- What an acquisition does when it is run. -/
inductive Loader where
  | loads (data : List UInt8)
  | fails (error : SourceError)
  /-- It ends without an outcome. -/
  | breaksOff
deriving DecidableEq, Inhabited

/-- The bytes of a source, with the error that they are the message of, if
any. -/
structure Acquired where
  data : List UInt8
  error : Option SourceError
deriving DecidableEq, Inhabited

namespace Acquired

/-- Bytes that were read. -/
def success (data : List UInt8) : Acquired :=
  ⟨data, none⟩

/-- The message of a failure, as bytes. -/
def failure (error : SourceError) : Acquired :=
  ⟨CodePage.encode error.message, some error⟩

/-- What one is told who asks for a spent acquisition. -/
def spent : Acquired :=
  failure (.unavailable "source loader already consumed")

end Acquired

/-- An acquisition shared by all holders of a source. -/
structure Pending where
  /-- What running it will do; none once it has been run. -/
  loader : Option Loader
  /-- The outcome, once there is one. -/
  outcome : Option Acquired := none
  /-- How often it has been run. -/
  runs : Nat := 0
deriving DecidableEq, Inhabited

namespace Pending

/-- An acquisition that nobody has asked for yet. -/
def fresh (loader : Loader) : Pending where
  loader := some loader

/-- Runs the acquisition to an outcome, which is kept. -/
def settle (p : Pending) (acquired : Acquired) : Option Acquired × Pending :=
  (some acquired, { loader := none, outcome := some acquired, runs := p.runs + 1 })

/-- Asks for the outcome; none if the acquisition breaks off. -/
def resolve (p : Pending) : Option Acquired × Pending :=
  match p.outcome, p.loader with
  | some acquired, _ => (some acquired, p)
  | none, some (.loads data) => p.settle (.success data)
  | none, some (.fails error) => p.settle (.failure error)
  | none, some .breaksOff => (none, { p with loader := none, runs := p.runs + 1 })
  | none, none => (some .spent, { p with outcome := some .spent })

/-- A source that has settled gives what it has settled on, and stays as it is. -/
theorem resolve_of_outcome {p : Pending} {acquired : Acquired} (h : p.outcome = some acquired) :
    p.resolve = (some acquired, p) := by
  rw [resolve, h]

/-- Whoever asks is told the outcome that is kept from then on. -/
theorem outcome_resolve {p : Pending} {acquired : Acquired}
    (h : p.resolve.1 = some acquired) : p.resolve.2.outcome = some acquired := by
  rw [resolve] at h ⊢
  split at h
  · next hkept => exact hkept.trans h
  · exact h
  · exact h
  · exact absurd h (by simp)
  · exact h

end Pending

/-- Where the bytes of a session come from. -/
inductive Source where
  | bytes (data : List UInt8)
  | pending (p : Pending)
deriving DecidableEq, Inhabited

namespace Source

/-- A text as the bytes that show it. -/
def ofText (text : String) : Source :=
  .bytes (CodePage.encode text)

/-- A source that is acquired when it is first asked for. -/
def ofLoader (loader : Loader) : Source :=
  .pending (.fresh loader)

/-- Whether the bytes are there. -/
def isReady : Source → Bool
  | .bytes _ => true
  | .pending p => p.outcome.isSome

/-- How often an acquisition has been run. -/
def runs : Source → Nat
  | .bytes _ => 0
  | .pending p => p.runs

/-- Asks for the bytes; none if their acquisition breaks off. -/
def resolve : Source → Option Acquired × Source
  | .bytes data => (some (.success data), .bytes data)
  | .pending p =>
    let (acquired, p) := p.resolve
    (acquired, .pending p)

/-- What the source is and whether its bytes are there, for a log. -/
def describe : Source → String
  | .bytes data => s!"Bytes({data.length})"
  | .pending p =>
    "Pending \x7b resolved: " ++ (if p.outcome.isSome then "true" else "false") ++ " \x7d"

end Source

end BaudReel
