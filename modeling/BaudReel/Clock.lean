/-!
# Waiting and cancelling

A session waits between frames, and it can be cancelled from outside.  A
cancellation is final, and every holder of the same *token* sees it: tokens are
numbers into a list of flags.  A wait under a cancelled token ends at once and
reports that it was not completed.

The virtual clock lets no time pass; it completes every wait that is not
cancelled and keeps a record of them.
-/

namespace BaudReel

/-- The flags behind all tokens handed out. -/
structure Tokens where
  flags : Array Bool := #[]
deriving DecidableEq, Inhabited

namespace Tokens

/-- Hands out a new token. -/
def issue (t : Tokens) : Nat × Tokens :=
  (t.flags.size, ⟨t.flags.push false⟩)

/-- Cancels a token. -/
def cancel (t : Tokens) (token : Nat) : Tokens :=
  ⟨t.flags.setIfInBounds token true⟩

/-- Whether a token is cancelled. -/
def isCancelled (t : Tokens) (token : Nat) : Bool :=
  t.flags.getD token false

/-- A cancellation is final: cancelling any token leaves cancelled ones as they
are. -/
theorem isCancelled_cancel_of_isCancelled {t : Tokens} {token : Nat} (other : Nat)
    (h : t.isCancelled token = true) : (t.cancel other).isCancelled token = true := by
  simp only [cancel, isCancelled, Array.getD_eq_getD_getElem?] at h ⊢
  rw [Array.getElem?_setIfInBounds]
  by_cases hsame : other = token
  · rw [if_pos hsame]
    by_cases hsize : other < t.flags.size
    · rw [if_pos hsize, Option.getD_some]
    · rw [Array.getElem?_eq_none (by omega)] at h
      exact absurd h (by simp)
  · rw [if_neg hsame]
    exact h

/-- Whether a wait under a token runs its full time.  Nobody else acts while
one waits here, so that this is known when the wait begins. -/
def completes (t : Tokens) (token _duration : Nat) : Bool :=
  !t.isCancelled token

end Tokens

/-- A clock on which waits take no time. -/
structure VirtualClock where
  /-- The completed waits in milliseconds, in order. -/
  waits : Array Nat := #[]
deriving DecidableEq, Inhabited

namespace VirtualClock

/-- The time that the completed waits add up to. -/
def elapsed (c : VirtualClock) : Nat :=
  c.waits.foldl (· + ·) 0

/-- Waits, unless cancelled; tells whether the wait was completed. -/
def wait (c : VirtualClock) (duration : Nat) (cancelled : Bool) : Bool × VirtualClock :=
  if cancelled then (false, c) else (true, ⟨c.waits.push duration⟩)

end VirtualClock

end BaudReel
