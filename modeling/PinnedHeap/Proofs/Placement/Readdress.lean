import PinnedHeap.Guard.Command
import PinnedHeap.Heap.Call

/-!
# Other addresses in the same data

Data in which every address of the heap's memory is replaced by another one,
and everything else is as it was: ids, sizes, counts, flags, names and texts.
Cells and slots are not in the heap's memory, and keep their addresses.
-/

namespace PinnedHeap

variable (f : Nat → Nat)

/-- The fault about other addresses. -/
def Fault.readdress : Fault → Fault
  | nothingToRetain a => nothingToRetain (f a)
  | notRetained a => notRetained (f a)
  | alreadyBound a => alreadyBound (f a)
  | taskMissing a => taskMissing (f a)
  | pinUnconfirmed a => pinUnconfirmed (f a)
  | releaseUnconfirmed a => releaseUnconfirmed (f a)
  | e => e

/-- The refusal to pin another address. -/
def Refusal.readdress (r : Refusal) : Refusal := { r with address := f r.address }

/-- The notice about other addresses. -/
def Notice.readdress : Notice → Notice
  | listingObject id a len flags retains => listingObject id (f a) len flags retains
  | retained a id retains => retained (f a) id retains
  | unretained a id retains => unretained (f a) id retains
  | taskRetained manager a => taskRetained manager (f a)
  | guardVanished a => guardVanished (f a)
  | taskUnretained manager a => taskUnretained manager (f a)
  | pinned a => pinned (f a)
  | notPinned refusal => notPinned (refusal.readdress f)
  | published a cell => published (f a) cell
  | released a => released (f a)
  | failedAfterRelease a => failedAfterRelease (f a)
  | failedDuringUnwind a => failedDuringUnwind (f a)
  | n => n

/-- The same thread's notice about other addresses. -/
def Entry.readdress (e : Entry) : Entry := { e with notice := e.notice.readdress f }

/-- The size of the bucket that a notice says was created. -/
def Notice.created? : Notice → Option Nat
  | bucketCreated capacity => some capacity
  | _ => none

/-- Is the notice about an object in a listing? -/
def Notice.isRow : Notice → Bool
  | listingObject .. => true
  | _ => false

/-- Is the notice about an object in a listing? -/
def Entry.isRow (e : Entry) : Bool := e.notice.isRow

/-- The bucket at another place. -/
def Bucket.readdress (b : Bucket) : Bucket := { b with start := f b.start }

/-- The object at another place. -/
def Object.readdress (o : Object) : Object := { o with address := f o.address }

/-- The call about other addresses. -/
def Heap.Call.readdress : Heap.Call → Heap.Call
  | retain a => retain (f a)
  | unretain a => unretain (f a)
  | isRetained a => isRetained (f a)
  | poke a bytes => poke (f a) bytes
  | c => c

/-- The answer with other addresses. -/
def Heap.Answer.readdress : Heap.Answer → Heap.Answer
  | address a => address (f a)
  | x => x

/-- The guard of another address. -/
def Guard.readdress (g : Guard) : Guard := { g with address := f g.address }

/-- The result with other addresses. -/
def Result.readdress : Result Heap.Answer → Result Heap.Answer
  | answer x => answer (x.readdress f)
  | refused r => refused (r.readdress f)
  | fault e => fault (e.readdress f)
  | x => x

variable {f}

theorem Notice.created?_of_isRow {n : Notice} (h : n.isRow = true) : n.created? = none := by
  cases n <;> first | rfl | cases h

@[simp] theorem Bucket.number_readdress (b : Bucket) : (b.readdress f).number = b.number := rfl

@[simp] theorem Bucket.start_readdress (b : Bucket) : (b.readdress f).start = f b.start := rfl

@[simp] theorem Bucket.capacity_readdress (b : Bucket) :
    (b.readdress f).capacity = b.capacity := rfl

@[simp] theorem Bucket.free_readdress (b : Bucket) : (b.readdress f).free = b.free := rfl

@[simp] theorem Object.address_readdress (o : Object) :
    (o.readdress f).address = f o.address := rfl

@[simp] theorem Object.len_readdress (o : Object) : (o.readdress f).len = o.len := rfl

@[simp] theorem Object.isRetained_readdress (o : Object) :
    (o.readdress f).isRetained = o.isRetained := rfl

@[simp] theorem Object.isLive_readdress (o : Object) : (o.readdress f).isLive = o.isLive := rfl

theorem Object.markIfLive_readdress (o : Object) :
    (o.readdress f).markIfLive = o.markIfLive.readdress f := by
  cases h : o.isLive <;> simp only [markIfLive, isLive_readdress, h] <;> rfl

end PinnedHeap
