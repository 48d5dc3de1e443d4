/-!
# Panics

Most of what can go wrong is an error that is returned.  A few things cannot be returned: a list for
which memory has no room, a count of tokens that leaves the range of a word, or somebody else's code
that gives up.  They end whatever was being worked out.

* `OrPanic ε` : an error, or a panic;
* `memoryHolds` : whether room for a list can be asked for at all.
-/

namespace Lockstep

/-- Why something has come to nothing: there is an error, or there was a panic. -/
inductive OrPanic (ε : Type) where
  | error (e : ε)
  | panicked
  deriving DecidableEq, Repr

namespace OrPanic

variable {ε ε' : Type}

/-- Passes an error on as another one; a panic stays a panic. -/
def map (f : ε → ε') : OrPanic ε → OrPanic ε'
  | error e => error (f e)
  | panicked => panicked

end OrPanic

/-- Memory may have room for `count` items of `width` bytes each.  Whoever asks for more panics. -/
def memoryHolds (width count : Nat) : Bool := count * width < Nat.pow 2 63

end Lockstep
