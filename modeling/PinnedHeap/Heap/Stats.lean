import PinnedHeap.Heap.Basic

/-!
# Counters of the heap

A snapshot of the heap's counters, and a listing of counters and objects in
the log.
-/

namespace PinnedHeap

/-- The counters of a heap. -/
structure Stats where
  buckets : Nat := 0
  spareBuckets : Nat := 0
  owned : Nat := 0
  storage : Nat := 0
  target : Nat := 0
  objects : Nat := 0
  retainedObjects : Nat := 0
  collections : Nat := 0
  deriving DecidableEq, Repr

/-- The text of counters. -/
def Stats.text (s : Stats) : String :=
  Text.record "HeapStats" [
    ("bucket_count", toString s.buckets),
    ("unused_bucket_count", toString s.spareBuckets),
    ("total_bytes_allocated", toString s.owned),
    ("storage_in_use", toString s.storage),
    ("target", toString s.target),
    ("object_count", toString s.objects),
    ("retained_objects", toString s.retainedObjects),
    ("collections", toString s.collections)]

namespace Heap

/-- The counters of the heap, its objects counted in the table. -/
def stats (h : Heap) : Stats where
  buckets := h.buckets.length
  spareBuckets := h.spare.length
  owned := h.owned
  storage := h.storage
  target := h.target
  objects := h.existing.length
  retainedObjects := (h.existing.filter Object.isRetained).length
  collections := h.collections

/-- The text of a heap. -/
def text (h : Heap) : String := Text.record "ManagedHeap" [("stats", h.stats.text)]

/-- Lists the objects of index entries. -/
def listEntries : List (Nat × Nat) → HeapAction Unit
  | [] => return ()
  | (address, id) :: rest => do
    let o ← get id
    Action.note (.listingObject id address o.len o.flagsText o.retains)
    listEntries rest

/-- Lists counters, objects counted in the index, and then the objects by address. -/
def list : HeapAction Unit := do
  let h ← Action.read
  Action.note .listingHead
  Action.note (.listingCount "buckets in use" h.buckets.length)
  Action.note (.listingCount "unused buckets" h.spare.length)
  Action.note (.listingCount "storage in use" h.storage)
  Action.note (.listingCount "total bytes" h.owned)
  Action.note (.listingCount "target" h.target)
  Action.note (.listingCount "objects" h.index.size)
  Action.note (.listingCount "inhibitors" h.inhibitors)
  listEntries h.index.entries

end Heap

end PinnedHeap
