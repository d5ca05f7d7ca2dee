import PinnedHeap.Log.Event
import PinnedHeap.Text.Column
import PinnedHeap.Text.Fixed

/-!
# Notices

Everything that the heap, the pinning tasks and the guards report while they
work, as values, and the event that each of them is in the log.
-/

namespace PinnedHeap

/-- The operating system did not start the task that was to pin an address. -/
structure Refusal where
  address : Nat
  /-- What the operating system says. -/
  reason : String
  deriving DecidableEq, Repr

/-- The wording of a refusal. -/
def Refusal.message (r : Refusal) : String :=
  s!"could not spawn the pinning task for address {Text.hex r.address}: {r.reason}"

/-- What one collection did. -/
structure Report where
  /-- Objects that were copied to new addresses. -/
  moved : Nat
  /-- Objects that were given up. -/
  reclaimed : Nat
  /-- Retained objects that were left where they are. -/
  held : Nat
  /-- Buckets that were kept because they hold a retained object. -/
  pinnedBuckets : Nat
  /-- Storage in use before the collection. -/
  storageBefore : Nat
  /-- Storage in use after the collection. -/
  storageAfter : Nat
  deriving DecidableEq, Repr

/-- The text of a report. -/
def Report.text (r : Report) : String :=
  Text.record "GcReport" [
    ("moved", toString r.moved), ("reclaimed", toString r.reclaimed),
    ("held_in_place", toString r.held), ("pinned_buckets", toString r.pinnedBuckets),
    ("storage_before", toString r.storageBefore), ("storage_after", toString r.storageAfter)]

/-- Something that was done and may be shown. -/
inductive Notice where
  /-- A bucket was created. -/
  | bucketCreated (capacity : Nat)
  /-- A collection was put off, with so many inhibitors. -/
  | collectionDeferred (inhibitors : Nat)
  /-- The head of the table of a collection. -/
  | reportHead
  /-- The row of the table of a collection. -/
  | reportRow (buckets owned : Nat) (report : Report)
  /-- The head of a listing of the heap. -/
  | listingHead
  /-- A counter in a listing of the heap. -/
  | listingCount (label : String) (count : Nat)
  /-- An object in a listing of the heap. -/
  | listingObject (id address len : Nat) (flags : String) (retains : Nat)
  /-- An object was retained; so many retains are now outstanding. -/
  | retained (address id retains : Nat)
  /-- A retain was given back; so many are still outstanding. -/
  | unretained (address id retains : Nat)
  /-- A task holds a retain. -/
  | taskRetained (manager : String) (address : Nat)
  /-- A task found its guard gone. -/
  | guardVanished (address : Nat)
  /-- A task has given its retain back. -/
  | taskUnretained (manager : String) (address : Nat)
  /-- A guard was made. -/
  | pinned (address : Nat)
  /-- No task was started. -/
  | notPinned (refusal : Refusal)
  /-- An address was written to a cell. -/
  | published (address cell : Nat)
  /-- A guard was released. -/
  | released (address : Nat)
  /-- A task failed after it had confirmed that the pin is given back. -/
  | failedAfterRelease (address : Nat)
  /-- A task failed to give the pin back, and its owner is failing already. -/
  | failedDuringUnwind (address : Nat)
  deriving DecidableEq, Repr

namespace Notice

/-- Bytes in a megabyte. -/
def megabyte : Nat := 1024 * 1024

/-- The width of the columns of the table of a collection. -/
def columnWidth : Nat := 10

/-- The cells of the row of the table of a collection. -/
def reportCells (buckets owned : Nat) (r : Report) : List String :=
  [toString buckets, toString r.pinnedBuckets, Text.hundredths owned megabyte,
    toString r.moved, toString r.reclaimed, toString r.storageBefore,
    toString r.storageAfter]

/-- The event of a notice. -/
def event : Notice → Log.Event
  | bucketCreated capacity => .plain .debug 3 s!"new bucket of {capacity} bytes"
  | collectionDeferred inhibitors =>
      .plain .debug 3 s!"collection deferred: {inhibitors} pin(s) being established"
  | reportHead =>
      .plain .info 1 (Text.row columnWidth
        ["Buckets", "Pinned", "Size (MB)", "Moved", "Reclaimed", "Before", "After"])
  | reportRow buckets owned report =>
      .plain .info 1 (Text.row columnWidth (reportCells buckets owned report))
  | listingHead => .plain .debug 0 "--- ManagedHeap ---"
  | listingCount label count =>
      .plain .debug 0 ("  " ++ Text.padRight 20 label ++ " " ++ toString count)
  | listingObject id address len flags retains =>
      .plain .debug 0 (s!"  {Text.padLeft 6 (toString id)} {Text.hex address} " ++
        s!"len {len} flags {flags} retains {retains}")
  | retained address id retains =>
      .plain .trace 6 s!"retain {Text.hex address} (object {id}, count {retains})"
  | unretained address id retains =>
      .plain .trace 6 s!"unretain {Text.hex address} (object {id}, count {retains})"
  | taskRetained manager address =>
      .plain .trace 5 s!"{manager} retained {Text.hex address}"
  | guardVanished address =>
      .plain .warn 2
        s!"pin guard for {Text.hex address} vanished without releasing; unpinning"
  | taskUnretained manager address =>
      .plain .debug 4 s!"{manager} unretained {Text.hex address}"
  | pinned address => .plain .trace 5 s!"pinned {Text.hex address}"
  | notPinned refusal => .critical 1 refusal.message
  | published address cell =>
      .plain .trace 5 s!"published {Text.hex address} at {Text.hex cell}"
  | released address => .plain .trace 5 s!"released {Text.hex address}"
  | failedAfterRelease address =>
      .critical 1 s!"pinning task for {Text.hex address} panicked after unwinding"
  | failedDuringUnwind address =>
      .critical 0
        s!"pinning task for {Text.hex address} panicked while unpinning during an unwind"

end Notice

/-- A notice and the name of the thread that gave it. -/
structure Entry where
  thread : String
  notice : Notice
  deriving DecidableEq, Repr

end PinnedHeap
