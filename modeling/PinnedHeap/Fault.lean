import PinnedHeap.Text.Hex

/-!
# Faults

Everything that can go wrong by a caller's mistake, as causes. A fault ends
the operation in which it arises; what the operation had already changed
stays changed. `Fault.message` is the only place that words them.
-/

namespace PinnedHeap

/-- Why an operation was broken off. -/
inductive Fault where
  /-- A sum left the range of a machine word. -/
  | sumOverflow
  /-- A product left the range of a machine word. -/
  | productOverflow
  /-- A bucket was asked for that is larger than any block of memory. -/
  | bucketTooLarge
  /-- `bytes` bytes of bucket storage were asked for: no whole number of words. -/
  | partialWords (bytes : Nat)
  /-- More bytes were asked of a bucket than it has left. -/
  | bucketOverflow
  /-- A buffer of no bytes was asked for. -/
  | emptyBuffer
  /-- The object table has no object `id`. -/
  | noSuchObject (id : Nat)
  /-- Object `id` has the null address. -/
  | nullAddress (id : Nat)
  /-- No object contains the address that is to be retained. -/
  | nothingToRetain (address : Nat)
  /-- The object that contains the address, if any, is not retained. -/
  | notRetained (address : Nat)
  /-- The range of `len` bytes at `offset` leaves a buffer of `size` bytes. -/
  | outOfBounds (offset len size : Nat)
  /-- Collection was allowed more often than it was inhibited. -/
  | nothingInhibited
  /-- A slot was made of the null pointer. -/
  | nullSlot
  /-- A slot was made of an address that no word can have. -/
  | misalignedSlot (address : Nat)
  /-- A second slot was bound to the guard of `address`. -/
  | alreadyBound (address : Nat)
  /-- The name of a task contains a null character. -/
  | nullInName (name : String)
  /-- A guard holds an address and no task. -/
  | taskMissing (address : Nat)
  /-- A task ended without a fault and without confirming the pin. -/
  | pinUnconfirmed (address : Nat)
  /-- A task ended without a fault and without confirming the release. -/
  | releaseUnconfirmed (address : Nat)
  /-- The threshold of an event is an integer, but none from 0 to 255. -/
  | thresholdOutOfRange (value : Int)
  /-- The threshold of an event is no integer; `shown` is how it is written. -/
  | thresholdNotInteger (shown : String)
  /-- A memory manager gave a reason of its own. -/
  | refused (reason : String)
  deriving DecidableEq, Repr

namespace Fault

/-- The bytes of a name, in decimal, between brackets. -/
def byteList (name : String) : String :=
  "[" ++ ", ".intercalate (name.toUTF8.toList.map fun b => toString b.toNat) ++ "]"

/-- Where the first null byte of a name stands. -/
def firstNull (name : String) : Nat :=
  (name.toUTF8.toList.takeWhile (· != 0)).length

/-- The wording of a fault. -/
def message : Fault → String
  | sumOverflow => "attempt to add with overflow"
  | productOverflow => "attempt to multiply with overflow"
  | bucketTooLarge => "capacity overflow"
  | partialWords bytes =>
      "assertion `left == right` failed: only whole machine words can be allocated\n" ++
        s!"  left: {bytes % 8}\n right: 0"
  | bucketOverflow => "bucket overflow"
  | emptyBuffer => "cannot allocate an empty managed buffer"
  | noSuchObject id => s!"object {id} does not exist"
  | nullAddress id =>
      "internal error: entered unreachable code: " ++
        s!"managed object {id} has a null address"
  | nothingToRetain address =>
      s!"cannot retain {Text.hex address}: no object in this heap contains it"
  | notRetained address =>
      s!"cannot unretain {Text.hex address}: it is not retained"
  | outOfBounds offset len size =>
      s!"range {offset}..{offset}+{len} is out of bounds for a buffer of {size} bytes"
  | nothingInhibited => "collection inhibitor count underflow"
  | nullSlot => "foreign slot pointer is null"
  | misalignedSlot address =>
      s!"foreign slot at {Text.hex address} is not aligned to 8 bytes"
  | alreadyBound address =>
      s!"double call of store on the pin guard for {Text.hex address}"
  | nullInName name =>
      "thread name may not contain interior null bytes: " ++
        s!"NulError({firstNull name}, {byteList name})"
  | taskMissing address =>
      "internal error: entered unreachable code: " ++
        s!"pin guard for {Text.hex address} lost its pinning task"
  | pinUnconfirmed address =>
      s!"pinning task for {Text.hex address} exited before the pin was established"
  | releaseUnconfirmed address =>
      s!"pinning task for {Text.hex address} exited without confirming the unpin"
  | thresholdOutOfRange value => s!"log threshold must be in 0..=255, got {value}"
  | thresholdNotInteger shown => s!"log threshold must be an integer, got {shown}"
  | refused reason => reason

end Fault

end PinnedHeap
