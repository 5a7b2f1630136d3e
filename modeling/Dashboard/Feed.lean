import Dashboard.Feed.Sizing
import Dashboard.Log

/-!
# Feeds

The widget of a table or a plot first loads pages of archived entries and then keeps
receiving realtime entries. A feed merges both into one view, newest first. Under the
policy `byId` the entries with one key are one entry: the last realtime entry of the key,
or the last archived one if there is none.

Entries with equal order keys are told apart by the number that their slot got when it was
entered; a slot whose entry is replaced keeps its number. Numbers are never reused, not
even after a reset.

A feed holds at most its capacity of realtime entries and drops the others. When its
watermark is reached it asks its handler, once until it is reset or compacted. What a feed
has to tell is returned as a list of signals.

## Main results

* `archive_addRealtime` — a realtime entry leaves the archived ones alone.
-/

namespace Dashboard

/-- Entries that a feed can merge: a key tells which entries are the same, and an order key
which of two is the newer one. -/
class Entry (α : Type) (κ ω : outParam Type) where
  key : α → κ
  order : α → ω

/-- An entry and the number it was entered with. -/
structure Slot (α : Type) where
  number : Nat
  entry : α
  deriving DecidableEq, Repr

/-- The archived and the realtime entries of a widget; handlers of the watermark are of
type `η`. -/
structure Feed (α η : Type) where
  sizing : Sizing
  archive : List (Slot α)
  /-- In the order of arrival. -/
  realtime : List (Slot α)
  /-- The number of the next entry. -/
  nextNumber : Nat
  watermarkReached : Bool
  handler : Option η
  /-- Whether something has changed since the view was last polled. -/
  dirty : Bool
  /-- How many realtime entries did not fit. -/
  dropped : Nat
  overflowTold : Bool
  compactLimit : Nat

/-- What a feed has to tell. -/
inductive Signal (η : Type) where
  /-- The watermark has been reached, and this handler has to be called. -/
  | watermark (handler : η)
  /-- The first entry since the last reset did not fit. -/
  | overflow (capacity : Nat)
  deriving DecidableEq, Repr

/-- The notice of a signal that is logged. -/
def Signal.notice? {η : Type} : Signal η → Option Notice
  | .watermark _ => none
  | .overflow capacity => some (.warning ("Realtime buffer full (" ++ toString capacity ++
      " entries), dropping updates until compacted"))

/-- How many entries compaction keeps unless another number is asked for. -/
def defaultCompactLimit : Nat := 100

namespace Feed

variable {α η κ ω : Type}

/-! ### Construction -/

/-- A feed without entries. -/
def ofSizing (sizing : Sizing) : Except Failure (Feed α η) := do
  sizing.validate
  return {
    sizing
    archive := []
    realtime := []
    nextNumber := 0
    watermarkReached := false
    handler := none
    dirty := false
    dropped := 0
    overflowTold := false
    compactLimit := defaultCompactLimit }

/-- The same feed with another limit of compaction. -/
def withCompactLimit (f : Feed α η) (limit : Nat) : Feed α η :=
  { f with compactLimit := limit }

/-- The same feed with another policy. -/
def withPolicy (f : Feed α η) (policy : Policy) : Feed α η :=
  { f with sizing := { f.sizing with policy } }

/-- The same feed with a handler of the watermark. -/
def withHandler (f : Feed α η) (handler : η) : Feed α η :=
  { f with handler := some handler }

/-! ### Entering -/

/-- Adds a page of archived entries. -/
def addArchive (f : Feed α η) (entries : List α) : Feed α η :=
  { f with
    archive := f.archive ++ entries.mapIdx fun i entry => ⟨f.nextNumber + i, entry⟩
    nextNumber := f.nextNumber + entries.length
    dirty := true }

/-- Whether no more realtime entries fit. -/
def isFull (f : Feed α η) : Bool :=
  f.sizing.capacity ≤ f.realtime.length

/-- Does without a realtime entry. -/
def drop (f : Feed α η) : Feed α η × List (Signal η) :=
  ({ f with dropped := f.dropped + 1, overflowTold := true },
    if f.overflowTold then [] else [.overflow f.sizing.capacity])

/-- Takes note if the watermark has been reached. -/
def checkWatermark (f : Feed α η) : Feed α η × List (Signal η) :=
  if !f.watermarkReached && f.sizing.watermark ≤ f.realtime.length then
    ({ f with watermarkReached := true }, f.handler.toList.map .watermark)
  else (f, [])

/-- Adds a realtime entry if it fits. -/
def addRealtime (f : Feed α η) (entry : α) : Feed α η × List (Signal η) :=
  if f.isFull then f.drop
  else checkWatermark { f with
    realtime := f.realtime ++ [⟨f.nextNumber, entry⟩]
    nextNumber := f.nextNumber + 1
    dirty := true }

/-- Empties the feed; the next realtime entries count towards the watermark anew. -/
def reset (f : Feed α η) : Feed α η :=
  { f with
    archive := []
    realtime := []
    watermarkReached := false
    overflowTold := false
    dropped := 0
    dirty := true }

/-! ### The view -/

section View

variable [Entry α κ ω] [DecidableEq κ] [Ord ω]

/-- Puts an entry in the slot of its key, or at the end if its key has none. -/
def place (slots : List (Slot α)) (s : Slot α) : List (Slot α) :=
  match slots with
  | [] => [s]
  | t :: rest =>
    if Entry.key t.entry = Entry.key s.entry then ⟨t.number, s.entry⟩ :: rest
    else t :: place rest s

/-- One slot for each key, in the order in which the keys were first entered. -/
def merged (slots : List (Slot α)) : List (Slot α) :=
  slots.foldl place []

/-- The slots of the view, in the order of entering. -/
def slots (f : Feed α η) : List (Slot α) :=
  match f.sizing.policy with
  | .append => f.archive ++ f.realtime
  | .byId => merged (f.archive ++ f.realtime)

/-- Whether a slot comes no later than another one in the view: it has the greater order
key, or the same and the greater number. -/
def newerFirst (s t : Slot α) : Bool :=
  match compare (Entry.order s.entry) (Entry.order t.entry) with
  | .gt => true
  | .lt => false
  | .eq => t.number ≤ s.number

/-- The merged entries, newest first. -/
def snapshot (f : Feed α η) : List α :=
  (f.slots.mergeSort newerFirst).map Slot.entry

/-- The merged entries if something has changed since they were last polled. -/
def poll (f : Feed α η) : Option (List α) × Feed α η :=
  if f.dirty then (some f.snapshot, { f with dirty := false }) else (none, f)

/-- Keeps the newest entries, at most a limit, as archived entries. -/
def compact (f : Feed α η) (limit : Nat) : Feed α η :=
  f.reset.addArchive (f.snapshot.take limit).reverse

/-- Keeps the newest entries, as many as the feed is set to keep. -/
def compactToLimit (f : Feed α η) : Feed α η :=
  f.compact f.compactLimit

end View

/-- A description of the feed for diagnosis. -/
def describe (f : Feed α η) : String :=
  "RealtimeArchiveBuffer \x7b config: BufferConfig \x7b capacity: " ++ toString f.sizing.capacity ++
    ", watermark: " ++ toString f.sizing.watermark ++ ", dedup: " ++
    (match f.sizing.policy with
      | .byId => "ById"
      | .append => "Append") ++
    " \x7d, archive_len: " ++ toString f.archive.length ++
    ", realtime_len: " ++ toString f.realtime.length ++
    ", watermark_fired: " ++ toString f.watermarkReached ++
    ", dirty: " ++ toString f.dirty ++
    ", dropped: " ++ toString f.dropped ++
    ", compact_limit: " ++ toString f.compactLimit ++ " \x7d"

/-! ### What an operation leaves alone -/

/-- Looking at the watermark leaves the realtime entries alone. -/
@[simp] theorem realtime_checkWatermark (f : Feed α η) :
    f.checkWatermark.1.realtime = f.realtime := by
  unfold checkWatermark; split <;> rfl

/-- Looking at the watermark leaves the archived entries alone. -/
@[simp] theorem archive_checkWatermark (f : Feed α η) :
    f.checkWatermark.1.archive = f.archive := by
  unfold checkWatermark; split <;> rfl

/-- A realtime entry leaves the archived ones alone, whether there is room for it or not. -/
theorem archive_addRealtime (f : Feed α η) (entry : α) :
    (f.addRealtime entry).1.archive = f.archive := by
  unfold addRealtime
  split
  · rfl
  · rw [archive_checkWatermark]

end Feed

end Dashboard
