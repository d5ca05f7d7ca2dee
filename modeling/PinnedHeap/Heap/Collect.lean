import PinnedHeap.Heap.Storage

/-!
# Collection

A collection marks what is alive, keeps the buckets that hold a retained
object, and goes through the object table: what is not marked is given up,
what is retained stays, and everything else is copied into other storage. Then
the buckets that were not kept become spare.

The bytes of a bucket that is not kept stay what they are until the bucket is
used again, so objects may be copied out of it in any order.
-/

namespace PinnedHeap.Heap

/-- What happened to the objects so far. -/
structure Tally where
  moved : Nat := 0
  reclaimed : Nat := 0
  held : Nat := 0
  deriving DecidableEq, Repr

/-- The heap with everything marked that is alive. -/
def mark (h : Heap) : Heap := { h with objects := h.objects.map (·.map Object.markIfLive) }

/-- Does the bucket hold a retained object? -/
def pins (h : Heap) (b : Bucket) : Bool :=
  h.existing.any fun o => o.isRetained && b.contains o.address

/-- The buckets in use that hold a retained object. -/
def pinnedBuckets (h : Heap) : List Bucket := h.buckets.filter h.pins

/-- The buckets in use that hold none. -/
def unpinnedBuckets (h : Heap) : List Bucket := h.buckets.filter fun b => !h.pins b

/-- The heap at the start of the copying: marked, only pinned buckets in use, and
nothing counted yet. -/
def prepare (h : Heap) : Heap :=
  { h.mark with buckets := h.pinnedBuckets, storage := 0, wantsCollection := false }

/-- Gives an object up. -/
def reclaim (h : Heap) (id : Nat) (o : Object) : Heap :=
  { h with
    objects := h.objects.set id none
    vacant := id :: h.vacant
    index := h.index.erase o.address }

/-- Copies an object to another address. -/
def relocate (h : Heap) (id : Nat) (o : Object) (address : Nat) : Heap :=
  { h.setObject id { o with address } with
    memory := h.memory.copy o.address address o.footprint
    index := (h.index.erase o.address).insert address id }

/-- Leaves a retained object where it is and counts its storage. -/
def hold (id : Nat) (o : Object) : HeapAction Unit := do
  Action.update fun h => h.setObject id o
  let h ← Action.read
  let storage ← Action.ofExcept (Word.add h.storage o.footprint)
  Action.update fun h => { h with storage }

/-- Moves an object into fresh storage. -/
def evacuate (id : Nat) (o : Object) : HeapAction Unit := do
  Action.update fun h => h.setObject id o
  let address ← reserve o.footprint
  Action.update fun h => h.relocate id o address

/-- Decides about the object at one position of the table. -/
def settle (id : Nat) (t : Tally) : HeapAction Tally := do
  let h ← Action.read
  match h.object? id with
  | none => return t
  | some o =>
    if !o.marked then
      Action.update fun h => h.reclaim id o
      return { t with reclaimed := t.reclaimed + 1 }
    else if o.isRetained then
      hold id { o with marked := false }
      return { t with held := t.held + 1 }
    else
      evacuate id { o with marked := false }
      return { t with moved := t.moved + 1 }

/-- Decides about the objects at positions of the table, one after the other. -/
def settleAll : List Nat → Tally → HeapAction Tally
  | [], t => return t
  | id :: ids, t => do
    let t ← settle id t
    settleAll ids t

/-- Makes buckets spare. -/
def retire (h : Heap) (buckets : List Bucket) : Heap :=
  { h with spare := h.spare ++ buckets.map Bucket.reset, wantsCollection := false }

/-- Raises the target to what is in use now, and counts the collection. The count is not
formed with `Word.add`: it grows by one with each collection that comes to its end, so it
would leave the range of a word only with collection number `Word.limit`. -/
def raiseTarget : HeapAction Unit := do
  let h ← Action.read
  let wanted ← Action.ofExcept (Word.mul h.config.targetFactor h.storage)
  Action.update fun h => { h with
    target := max h.target wanted, collections := h.collections + 1 }

/-- Logs the table of a collection, if the heap is to. -/
def tabulate (report : Report) : HeapAction Unit := do
  let h ← Action.read
  if h.config.reportsCollections then
    Action.note .reportHead
    Action.note (.reportRow (h.buckets.length + h.spare.length) h.owned report)

/-- Collects, whether or not collections are put off. -/
def collectNow : HeapAction Report := do
  let start ← Action.read
  Action.update prepare
  let tally ← settleAll (List.range start.objects.length) {}
  -- by now nothing lives in the buckets that were in use and not pinned at the start
  Action.update fun h => h.retire start.unpinnedBuckets
  raiseTarget
  let h ← Action.read
  let report := {
    moved := tally.moved
    reclaimed := tally.reclaimed
    held := tally.held
    pinnedBuckets := start.pinnedBuckets.length
    storageBefore := start.storage
    storageAfter := h.storage }
  tabulate report
  return report

/-- Collects, unless collections are put off: then the heap only asks for one. -/
def collect : HeapAction (Option Report) := do
  let h ← Action.read
  if 0 < h.inhibitors then
    Action.update fun h => { h with wantsCollection := true }
    Action.note (.collectionDeferred h.inhibitors)
    return none
  else
    let report ← collectNow
    return some report

/-- Collects if the heap asks for it. -/
def collectIfWanted : HeapAction (Option Report) := do
  let h ← Action.read
  if h.wantsCollection then collect else return none

end PinnedHeap.Heap
