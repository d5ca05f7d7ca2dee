import PinnedHeap.Guard.Pin
import PinnedHeap.Guard.Session
import PinnedHeap.Heap.Placement
import PinnedHeap.Heap.Stats
import PinnedHeap.Log.Logger
import PinnedHeap.Proofs.Bumping
import PinnedHeap.Proofs.Guard.Blocks
import PinnedHeap.Proofs.Guard.LifeCycle
import PinnedHeap.Proofs.Guard.LiveTasks
import PinnedHeap.Proofs.Guard.Scheduling
import PinnedHeap.Proofs.Heap.Accounts
import PinnedHeap.Proofs.Heap.Admission
import PinnedHeap.Proofs.Heap.Atomicity
import PinnedHeap.Proofs.Heap.Balance
import PinnedHeap.Proofs.Heap.Buffers
import PinnedHeap.Proofs.Heap.Evacuation
import PinnedHeap.Proofs.Heap.Halfway
import PinnedHeap.Proofs.Heap.Layout
import PinnedHeap.Proofs.Heap.Repetition
import PinnedHeap.Proofs.Heap.Search
import PinnedHeap.Proofs.Heap.Storage
import PinnedHeap.Proofs.Heap.Wish
import PinnedHeap.Proofs.Log.InForce
import PinnedHeap.Proofs.Log.Numerals
import PinnedHeap.Proofs.Log.Passing
import PinnedHeap.Proofs.Log.Rendering
import PinnedHeap.Proofs.Placement.Errands
import PinnedHeap.Proofs.Session.Establish
import PinnedHeap.Proofs.Session.Flights
import PinnedHeap.Proofs.Session.Pinned
import PinnedHeap.Proofs.Session.Refinement
import PinnedHeap.Proofs.Session.Runs
import PinnedHeap.Proofs.Session.Wiring
import PinnedHeap.Proofs.Log.Numerals
