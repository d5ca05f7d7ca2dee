import PinnedHeap.Fault
import PinnedHeap.Text.Quoted
import PinnedHeap.Text.Decimal
import PinnedHeap.Text.Layout
import PinnedHeap.Log.Threshold

/-!
# Events

An event has a level and a list of named fields. Three names are special:
`message` is the text of the event, `threshold` says how chatty it is and is
not shown, and a true `critical` is shown as a mark. What is written for an
event is what is written for its fields, one after the other.

`Event.passes` decides whether an event is shown at all.
-/

namespace PinnedHeap.Log

/-- What kind of message an event is. -/
inductive Level where
  | error
  | warn
  | info
  | debug
  | trace
  deriving DecidableEq, Repr

/-- The name of a level. -/
def Level.name : Level → String
  | error => "ERROR"
  | warn => "WARN"
  | info => "INFO"
  | debug => "DEBUG"
  | trace => "TRACE"

/-- What a field holds. -/
inductive Value where
  /-- An integer of at most 64 bits, with sign. -/
  | signed (n : Int)
  /-- An integer of at most 64 bits, without sign. -/
  | unsigned (n : Nat)
  /-- An integer of more than 64 bits. -/
  | wide (n : Int)
  /-- A truth value. -/
  | flag (b : Bool)
  /-- A double. -/
  | double (x : Float)
  /-- Text that is written between quotes. -/
  | text (s : String)
  /-- Text that is written as it is. -/
  | shown (s : String)

namespace Value

/-- What is written for a value. -/
def render : Value → String
  | signed n => toString n
  | unsigned n => toString n
  | wide n => toString n
  | flag b => Text.truth b
  | double x => Text.double x
  | text s => Text.quoted s
  | shown s => s

/-- The value as the threshold of an event: an integer of at most 64 bits, from 0
to 255. -/
def asThreshold : Value → Except Fault Nat
  | signed n =>
    if 0 ≤ n ∧ n ≤ Threshold.greatest then .ok n.toNat else .error (.thresholdOutOfRange n)
  | unsigned n =>
    if n ≤ Threshold.greatest then .ok n else .error (.thresholdOutOfRange n)
  | v => .error (.thresholdNotInteger v.render)

end Value

/-- A named value. -/
structure Field where
  name : String
  value : Value

namespace Field

/-- What is written for a field that is not a critical flag: nothing for the
threshold, the bare value for the message, name and value for any other. -/
def renderNamed (f : Field) : String :=
  if f.name = "threshold" then ""
  else if f.name = "message" then f.value.render
  else " " ++ f.name ++ "=" ++ f.value.render

/-- What is written for a field where it stands. -/
def render (f : Field) : String :=
  match f.value with
  | .flag b =>
    if f.name = "critical" then (if b then "[CRITICAL] " else "") else f.renderNamed
  | _ => f.renderNamed

end Field

/-- Something that happened and may be shown. -/
structure Event where
  level : Level
  fields : List Field

namespace Event

/-- A message with a threshold. -/
def plain (level : Level) (threshold : Nat) (message : String) : Event :=
  ⟨level, [⟨"threshold", .signed threshold⟩, ⟨"message", .shown message⟩]⟩

/-- A message with a threshold that is marked as critical. -/
def critical (threshold : Nat) (message : String) : Event :=
  ⟨.error, [⟨"critical", .flag true⟩, ⟨"threshold", .signed threshold⟩,
    ⟨"message", .shown message⟩]⟩

/-- What is written for an event. -/
def render (e : Event) : String := String.join (e.fields.map Field.render)

/-- The threshold among fields, if there is one, with the fields looked at one after
the other; `found` is the one found so far. -/
def thresholdAmong (found : Option Nat) : List Field → Except Fault (Option Nat)
  | [] => .ok found
  | f :: fs =>
    if f.name = "threshold" then
      match f.value.asThreshold with
      | .error e => .error e
      | .ok t => thresholdAmong (some t) fs
    else thresholdAmong found fs

/-- The threshold of an event, if it has one. -/
def threshold? (e : Event) : Except Fault (Option Nat) := thresholdAmong none e.fields

/-- Is the event shown while `limit` is the threshold in force? One without
threshold always is. -/
def passes (e : Event) (limit : Nat) : Except Fault Bool :=
  e.threshold?.map fun found =>
    match found with
    | none => true
    | some t => t ≤ limit

end Event

end PinnedHeap.Log
