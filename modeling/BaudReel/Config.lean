import BaudReel.Decimal.Shortest
import BaudReel.Segment
import BaudReel.Word
/-!
# Playback settings

How fast a stream is played, how large its screen may be, how its text blinks
and where playback starts.

Derived from the settings are the length of a burst, which is what a modem
delivers between two frames, the number of frames a blink phase lasts, and the
number of bytes that are shown at once where playback starts inside the stream.
Sizes and times are 64-bit words, and the formulas stay within them.
-/

namespace BaudReel

/-- How fast bytes arrive. -/
inductive ModemSpeed where
  /-- Bits each second; a byte takes ten of them. -/
  | bps (bits : Nat)
  /-- All at once. -/
  | unlimited
deriving DecidableEq, Inhabited

/-- Bytes that arrive in `interval` milliseconds, at least one; none if nothing
holds them back. -/
def ModemSpeed.burstLength : ModemSpeed → Nat → Option Nat
  | .bps bits, interval => some (max 1 (min (bits * interval / 10000) Word.max64))
  | .unlimited, _ => none

/-- Where playback starts and whether it goes on from there. -/
structure Seek where
  /-- Fraction of the stream that is shown at once. -/
  position : Float := 0.0
  resume : Bool := true

/-- Number of bytes shown at once, of a stream of `total`. -/
def Seek.lead (s : Seek) (total : Nat) : Nat :=
  min (s.position * total.toUInt64.toFloat).floor.toUInt64.toNat total

/-- The settings of a playback session.  Times are in milliseconds. -/
structure Config where
  modemSpeed : ModemSpeed := .bps 56000
  frameInterval : Nat := 50
  blinkDuration : Nat := 500
  blinkMode : BlinkMode := .off
  transparency : Bool := false
  minWidth : Nat := 79
  minHeight : Nat := 22
  maxWidth : Nat := 80
  maxHeight : Nat := 25
  seek : Seek := {}

/-- What makes settings unusable. -/
inductive ConfigFault where
  | emptyMaximum
  | minimumExceedsMaximum (minWidth minHeight maxWidth maxHeight : Nat)
  | zeroFrameInterval
  | zeroBlinkDuration
  | zeroModemSpeed
  | seekOutside (position : Float)

namespace ConfigFault

/-- What is wrong, in words. -/
def reason : ConfigFault → String
  | .emptyMaximum => "maximum dimensions must be at least 1"
  | .minimumExceedsMaximum minWidth minHeight maxWidth maxHeight =>
    s!"minimum size {minWidth}x{minHeight} exceeds maximum size {maxWidth}x{maxHeight}"
  | .zeroFrameInterval => "frame interval must be positive"
  | .zeroBlinkDuration => "blink duration must be positive"
  | .zeroModemSpeed => "modem speed must be positive"
  | .seekOutside position => "seek position " ++ Decimal.plainText position ++ " outside 0.0-1.0"

/-- The message shown for unusable settings. -/
def message (f : ConfigFault) : String :=
  "Invalid config: " ++ f.reason

end ConfigFault

namespace Config

/-- The first fault of the settings, if they have one. -/
def fault? (c : Config) : Option ConfigFault :=
  if c.maxWidth = 0 ∨ c.maxHeight = 0 then some .emptyMaximum
  else if c.maxWidth < c.minWidth ∨ c.maxHeight < c.minHeight then
    some (.minimumExceedsMaximum c.minWidth c.minHeight c.maxWidth c.maxHeight)
  else if c.frameInterval = 0 then some .zeroFrameInterval
  else if c.blinkDuration = 0 then some .zeroBlinkDuration
  else if c.modemSpeed = .bps 0 then some .zeroModemSpeed
  else if 0.0 ≤ c.seek.position ∧ c.seek.position ≤ 1.0 then none
  else some (.seekOutside c.seek.position)

/-- Settings are usable if they pass each of the checks. -/
theorem fault?_eq_none_iff {c : Config} :
    c.fault? = none ↔
      (0 < c.maxWidth ∧ 0 < c.maxHeight) ∧
        (c.minWidth ≤ c.maxWidth ∧ c.minHeight ≤ c.maxHeight) ∧
        0 < c.frameInterval ∧ 0 < c.blinkDuration ∧ c.modemSpeed ≠ .bps 0 ∧
        0.0 ≤ c.seek.position ∧ c.seek.position ≤ 1.0 := by
  unfold fault?
  grind

/-- Whether the screen may grow, so that the stream has to be measured. -/
def needsSizing (c : Config) : Bool :=
  c.minWidth != c.maxWidth || c.minHeight != c.maxHeight

/-- Frames that a blink phase lasts: the duration in frame intervals, rounded
up, at least one and within 32 bits. -/
def blinkFrames (c : Config) : Nat :=
  let interval := max c.frameInterval 1
  let frames := min (c.blinkDuration + (interval - 1)) Word.max64 / interval
  max 1 (min frames Word.max32)

/-- Bytes between two frames, none if nothing holds them back. -/
def burstLength (c : Config) : Option Nat :=
  c.modemSpeed.burstLength c.frameInterval

/-- How the screen is turned into segments. -/
def view (c : Config) : View where
  blinkMode := c.blinkMode
  transparency := c.transparency

/-- A width from the measured one, kept between the minimum and the maximum.
The minimum wins where the two contradict each other. -/
def fitWidth (c : Config) (cols : Nat) : Nat :=
  min (max cols c.minWidth) (max c.maxWidth c.minWidth)

/-- A height from the measured one, kept between the minimum and the
maximum. -/
def fitHeight (c : Config) (rows : Nat) : Nat :=
  min (max rows c.minHeight) (max c.maxHeight c.minHeight)

end Config

end BaudReel
