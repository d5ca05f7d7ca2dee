import PinnedHeap.Action
import PinnedHeap.AddressIndex
import PinnedHeap.Bucket
import PinnedHeap.Memory
import PinnedHeap.Notice
import PinnedHeap.Object

/-!
# The heap

A heap owns buckets and cuts objects from them. Objects are known by their
ids, positions in the object table, because a collection may move them; the
address index finds an object by an address inside it.

Where a new bucket lies is not for the heap to choose: it is the heap's
`placement`, an answer for every bucket that may ever be created.
-/

namespace PinnedHeap

/-- Sizes, and whether collections are reported. -/
structure Heap.Config where
  /-- The least size of a bucket, in bytes. -/
  smallestBucket : Nat := 256 * 1024 - 8
  /-- How much storage may be in use before the heap first asks for a collection. -/
  initialTarget : Nat := 220 * 1024
  /-- A collection raises the target to at least so many times what is in use. -/
  targetFactor : Nat := 8
  /-- Is a table logged after every collection? -/
  reportsCollections : Bool := false
  deriving DecidableEq, Repr

/-- A heap of objects that a collection may move or give up. -/
structure Heap where
  config : Heap.Config
  /-- The address at which the bucket with a given number starts. -/
  placement : Nat → Nat
  /-- The content of memory. -/
  memory : Memory
  /-- How many buckets have been created. -/
  created : Nat
  /-- The buckets in use. -/
  buckets : List Bucket
  /-- The buckets that hold nothing. -/
  spare : List Bucket
  /-- Bytes in all buckets. -/
  owned : Nat
  /-- Bytes counted as in use. -/
  storage : Nat
  /-- More bytes in use than this are a reason to collect. -/
  target : Nat
  /-- Does the heap ask for a collection? -/
  wantsCollection : Bool
  /-- How many pins are being established. -/
  inhibitors : Nat
  /-- The object table: an object's id is its position. -/
  objects : List (Option Object)
  /-- The empty positions of the table, the next one to be filled first. -/
  vacant : List Nat
  /-- The ids of the objects by their addresses. -/
  index : AddressIndex
  /-- Collections that were completed. -/
  collections : Nat

/-- An action on a heap. -/
abbrev HeapAction (α : Type) : Type := Action Notice Heap α

namespace Heap

/-- A heap without buckets and objects. -/
def create (placement : Nat → Nat) (config : Config) : Heap where
  config
  placement
  memory := .blank
  created := 0
  buckets := []
  spare := []
  owned := 0
  storage := 0
  target := config.initialTarget
  wantsCollection := false
  inhibitors := 0
  objects := []
  vacant := []
  index := .empty
  collections := 0

/-- The object at a position of the table. -/
def object? (h : Heap) (id : Nat) : Option Object := h.objects[id]?.join

/-- The object with an id that is taken to exist. -/
def object (h : Heap) (id : Nat) : Except Fault Object :=
  match h.object? id with
  | some o => .ok o
  | none => .error (.noSuchObject id)

/-- The heap with another object under `id`. -/
def setObject (h : Heap) (id : Nat) (o : Object) : Heap :=
  { h with objects := h.objects.set id (some o) }

/-- The objects that exist, by id. -/
def existing (h : Heap) : List Object := h.objects.filterMap id

/-- The id of the object that has the address among its bytes: no other than the
last one that starts at or before the address is looked at. -/
def find? (h : Heap) (address : Nat) : Except Fault (Option Nat) :=
  match h.index.floor? address with
  | none => .ok none
  | some (_, id) => do
    let o ← h.object id
    let inside ← o.contains address
    return if inside then some id else none

/-- The object with an id that is taken to exist. -/
def get (id : Nat) : HeapAction Object := do
  let h ← Action.read
  Action.ofExcept (h.object id)

end Heap

/-- The text of the configuration of a heap. -/
def Heap.Config.text (c : Heap.Config) : String :=
  Text.record "HeapConfig" [
    ("min_bucket_size", toString c.smallestBucket),
    ("initial_target", toString c.initialTarget),
    ("target_multiplier", toString c.targetFactor),
    ("show_gc_statistics", Text.truth c.reportsCollections)]

end PinnedHeap
