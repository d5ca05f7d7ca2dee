import PinnedHeap.Heap.Basic

/-!
# Storage

How bytes of bucket storage are found: in the first bucket in use that has
room, else in the first spare bucket that has room, else in a new bucket.
-/

namespace PinnedHeap.Heap

/-- A new bucket has room for so many requests of the size that made it necessary. -/
def bucketFactor : Nat := 8

/-- Counts bytes as in use, and asks for a collection if they pass the target. -/
def charge (bytes : Nat) : HeapAction Unit := do
  let h ← Action.read
  let storage ← Action.ofExcept (Word.add h.storage bytes)
  Action.update fun h => { h with
    storage
    wantsCollection := h.wantsCollection || decide (h.target < storage) }

/-- Creates a bucket for a request of `bytes` bytes. -/
def createBucket (bytes : Nat) : HeapAction Bucket := do
  let h ← Action.read
  let wanted ← Action.ofExcept (Word.mul bucketFactor bytes)
  let b ← Action.ofExcept
    (Bucket.create h.created (h.placement h.created) (max wanted h.config.smallestBucket))
  let owned ← Action.ofExcept (Word.add h.owned b.capacity)
  Action.update fun h => { h with created := h.created + 1, owned }
  Action.note (.bucketCreated b.capacity)
  return b

/-- A bucket that is not in use and has room for `bytes` bytes: a spare one if there
is any, else a new one. -/
def obtainBucket (bytes : Nat) : HeapAction Bucket := do
  let h ← Action.read
  match Buckets.firstFit bytes h.spare with
  | some (before, b, behind) =>
    Action.update fun h => { h with spare := Buckets.closeGap before behind }
    return b
  | none => createBucket bytes

/-- Bytes from a bucket that is not in use, and is from now on. -/
def reserveOutside (bytes : Nat) : HeapAction Nat := do
  let b ← obtainBucket bytes
  let (address, b) ← Action.ofExcept (b.allocate bytes)
  Action.update fun h => { h with buckets := h.buckets ++ [b] }
  return address

/-- The address of `bytes` bytes of storage that nothing else uses. -/
def reserve (bytes : Nat) : HeapAction Nat := do
  -- counted before a bucket is looked for: the count stays if none can be had
  charge bytes
  let h ← Action.read
  match Buckets.firstFit bytes h.buckets with
  | some (before, b, behind) =>
    let (address, b) ← Action.ofExcept (b.allocate bytes)
    Action.update fun h => { h with buckets := before ++ b :: behind }
    return address
  | none => reserveOutside bytes

end PinnedHeap.Heap
