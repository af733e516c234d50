import PrefixScan.Partition.Survey
import PrefixScan.Scan

/-!
# Sessions

A session is a device with named buffers and named cascades. Commands read, write and scan them.
A command that fails leaves the session as it was.

A command names buffers and cascades that must be there. A scan that checks its own preconditions
looks them up first, since the checks concern the cascade. The scans that trust their caller take
the kernel settings from the configuration first, and a configuration that does not fit the device
is refused before any name is looked up.

Buffers and the levels of cascades are apart: no buffer is a level of a cascade. The levels of a
cascade take no memory before the first scan that uses them.

No scan compares its length with the size of its buffer. Whoever keeps the buffers can: a command
that would go past the end of one is then not carried out at all.

## Main definitions

* `Session` — the state.
* `Command`, `Answer`, `Failure` — what is asked, what is answered, and why there is no answer.
* `Session.perform` — the effect of a command.
* `Session.HasRoom` — the buffers are as long as a command takes for granted.
* `Session.serve` — the effect of a command if there is room for it.
-/

namespace PrefixScan

/-- A cascade of a session. -/
structure Slot (α : Type) where
  layout : Cascade.Layout
  /-- Contents of the levels, none before the first scan. -/
  levels : Option (Array (Array α))

/-- A device with named buffers and cascades. -/
structure Session (α : Type) where
  device : Device
  /-- Size of an element in bytes. -/
  elementSize : Size
  /-- What fresh memory holds. -/
  fill : α
  buffers : List (String × Array α) := []
  cascades : List (String × Slot α) := []

/-- What is asked of a session. -/
inductive Command (α : Type)
  /-- A new buffer, which hides an earlier one of its name. -/
  | buffer (name : String) (data : Array α)
  /-- Every `stride`-th element of a buffer from `start` on. -/
  | read (buffer : String) (start stride : Nat)
  /-- The kernel settings of a configuration. -/
  | settings (config : Config)
  /-- A new cascade for a length and a configuration. -/
  | cascade (name : String) (length : Size) (config : Config)
  /-- A new cascade for a length and a granularity, unchecked. -/
  | rawCascade (name : String) (length granularity : Size)
  /-- Sizes in bytes of levels of a cascade. -/
  | handleSizes (cascade : String) (levels : List Nat)
  /-- Per level of a cascade, the totals that an expansion uses: all but the last. -/
  | carries (cascade : String)
  /-- Whether a cascade belongs to a length and a granularity. -/
  | validate (cascade : String) (length : Size) (granularity : Index)
  /-- Hierarchical scan of a buffer. -/
  | scan (buffer : String) (length : Size) (cascade : String) (op : Operator α) (config : Config)
  /-- The passes of a cascade over a buffer, unchecked. -/
  | launch (buffer cascade : String) (op : Operator α) (config : Config) (profiling : Bool)
  /-- Scan of the start of a buffer by one cube. -/
  | blockScan (buffer : String) (length : Size) (op : Operator α) (config : Config)
  /-- Scan of a range of a buffer by one cube. -/
  | directScan (buffer : String) (scope : Scan.Scope) (start range : Index) (op : Operator α)
      (config : Config)
  /-- Combination of two lists of elements, pair by pair. -/
  | combine (op : Operator α) (prefixes values : List α)
  /-- Profiled submission of work that counts its runs. -/
  | submit (label : String) (profiling : Bool)
  /-- Sweep of one cube over a partition. -/
  | survey (partition : Partition) (counting : Partition.Counting)
  /-- One iteration of a cube over a partition. -/
  | probe (partition : Partition) (units : Nat) (iteration : Index)

/-- What is answered. -/
inductive Answer (α : Type)
  | done
  | length (length : Nat)
  | elements (elements : List α)
  | settings (settings : Settings)
  | layout (layout : Cascade.Layout)
  | sizes (sizes : List (Except Fault Size))
  | carries (carries : List (List α))
  | combined (identity : α) (elements : List α)
  | submitted (enabled : Bool) (runs : Nat)
  | survey (survey : Partition.Survey)
  | probe (probe : Partition.Probe)

/-- Why there is no answer. -/
inductive Failure
  | scan (error : ScanError)
  | fault (fault : Fault)
  | noBuffer (name : String)
  | noCascade (name : String)
deriving DecidableEq, Repr

/-- A buffer that a scan goes over. -/
structure Extent where
  /-- Number of elements in the buffer. -/
  size : Nat
  /-- Number of elements that the scan goes over. -/
  count : Nat

/-- The trail of a command, and its answer. -/
structure Reply (α : Type) where
  events : List Event
  outcome : Except Failure (Answer α)

namespace Session

variable {α : Type} [Inhabited α] (session : Session α)

/-! ## Names -/

/-- The entries with `value` under `name`. -/
def bind {β : Type} (name : String) (value : β) (entries : List (String × β)) :
    List (String × β) :=
  (name, value) :: entries.filter (·.1 ≠ name)

/-- The content of a buffer. -/
def findBuffer (name : String) : Except Failure (Array α) :=
  match session.buffers.lookup name with
  | some data => .ok data
  | none => .error (.noBuffer name)

/-- A cascade by its name. -/
def findCascade (name : String) : Except Failure (Slot α) :=
  match session.cascades.lookup name with
  | some slot => .ok slot
  | none => .error (.noCascade name)

/-- The session with another content of a buffer. -/
def setBuffer (name : String) (data : Array α) : Session α :=
  { session with buffers := bind name data session.buffers }

/-- The session with another cascade under a name. -/
def setCascade (name : String) (slot : Slot α) : Session α :=
  { session with cascades := bind name slot session.cascades }

/-- Contents of the levels of a cascade. -/
def levelsOf (slot : Slot α) : Array (Array α) :=
  slot.levels.getD (slot.layout.fresh session.fill)

/-! ## Commands -/

/-- The result of a check as the result of a command. -/
def checked {β : Type} (result : Except ScanError β) : Except Failure β :=
  result.mapError .scan

/-- The result of host work as the result of a command. -/
def unfaulted {β : Type} (result : Except Fault β) : Except Failure β :=
  result.mapError .fault

/-- The effect of a submission: on success the new session and the answer, otherwise the old
session and the fault. The trail stays in both cases. -/
def finish {β : Type} (submission : Submission β) (next : β → Session α × Answer α) :
    Session α × Reply α :=
  match submission.result with
  | .ok result =>
    let (after, answer) := next result
    (after, ⟨submission.events, .ok answer⟩)
  | .error fault => (session, ⟨submission.events, .error (.fault fault)⟩)

/-- A refused command: no effect and no trail. -/
def refuse (failure : Failure) : Session α × Reply α := (session, ⟨[], .error failure⟩)

/-- The effect of work that is submitted only if its preconditions hold. -/
def attempt {β : Type} (submission : Except Failure (Submission β))
    (next : β → Session α × Answer α) : Session α × Reply α :=
  match submission with
  | .ok submission => session.finish submission next
  | .error failure => session.refuse failure

/-- A command that changes nothing. -/
def query (answer : Except Failure (Answer α)) : Session α × Reply α := (session, ⟨[], answer⟩)

/-- Every `stride`-th element from `start` on. -/
def everyNth (data : Array α) (start stride : Nat) : List α :=
  (List.range ((data.size - start + stride - 1) / stride)).map fun k =>
    data.getD (start + k * stride) default

/-- The totals of each level that an expansion uses. -/
def carriesOf (slot : Slot α) : List (List α) :=
  slot.layout.levels.zipIdx.map fun (level, k) =>
    (((session.levelsOf slot).getD k #[]).toList).take (level.numElems.toNat - 1)

/-- Allocates the cascade of a layout under a name. -/
def allocate (name : String) (layout : Submission Cascade.Layout) : Session α × Reply α :=
  session.finish
    (do
      let layout ← layout
      let _ ← (layout.byteSizes session.elementSize : Submission (List Size))
      return layout)
    fun layout => (session.setCascade name ⟨layout, none⟩, .layout layout)

/-- The session after a scan of a buffer with a cascade. -/
def store (buffer cascade : String) (slot : Slot α) (after : Scan.Store α) : Session α :=
  (session.setBuffer buffer after.data).setCascade cascade ⟨slot.layout, some after.levels⟩

/-- The session and the reply after a command. -/
def perform : Command α → Session α × Reply α
  | .buffer name data => (session.setBuffer name data, ⟨[], .ok (.length data.size)⟩)
  | .read buffer start stride => session.query do
    let data ← session.findBuffer buffer
    let elements ← unfaulted (readBack session.elementSize data.toList)
    return .elements (everyNth elements.toArray start stride)
  | .settings config => session.query do
    let settings ← checked (session.device.settings config)
    return .settings settings
  | .cascade name length config =>
    match Cascade.Layout.ofConfig length config with
    | .error error => session.refuse (.scan error)
    | .ok layout => session.allocate name layout
  | .rawCascade name length granularity =>
    session.allocate name (Submission.ofResult (Cascade.Layout.ofLength length granularity))
  | .handleSizes cascade levels => session.query do
    let slot ← session.findCascade cascade
    return .sizes <| levels.map fun k => do
      let level ← slot.layout.level k
      Word.mul level.length session.elementSize
  | .carries cascade => session.query do
    let slot ← session.findCascade cascade
    return .carries (session.carriesOf slot)
  | .validate cascade length granularity => session.query do
    let slot ← session.findCascade cascade
    checked (slot.layout.validate length granularity)
    return .done
  | .scan buffer length cascade op config =>
    session.attempt
      (do
        let data ← session.findBuffer buffer
        let slot ← session.findCascade cascade
        let settings ← checked (Scan.accept session.device config length slot.layout)
        return do
          let after ← Scan.launch op session.fill session.device ⟨config.profiling⟩ settings length
            slot.layout ⟨data, session.levelsOf slot⟩
          return (slot, after))
      fun (slot, after) => (session.store buffer cascade slot after, .done)
  | .launch buffer cascade op config profiling =>
    session.attempt
      (do
        let settings ← checked (session.device.settings config)
        let data ← session.findBuffer buffer
        let slot ← session.findCascade cascade
        return do
          let after ← Scan.launch op session.fill session.device ⟨profiling⟩ settings
            slot.layout.inputLength slot.layout ⟨data, session.levelsOf slot⟩
          return (slot, after))
      fun (slot, after) => (session.store buffer cascade slot after, .done)
  | .blockScan buffer length op config =>
    session.attempt
      (do
        let settings ← checked (session.device.settings config)
        let data ← session.findBuffer buffer
        return Scan.block op session.fill settings length data)
      fun data => (session.setBuffer buffer data, .done)
  | .directScan buffer scope start range op config =>
    session.attempt
      (do
        let settings ← checked (session.device.settings config)
        let data ← session.findBuffer buffer
        return Scan.direct op session.fill settings scope start range data)
      fun data => (session.setBuffer buffer data, .done)
  | .combine op prefixes values => session.query do
    let elements ← unfaulted (readBack session.elementSize (prefixes.zipWith op.combine values))
    return .combined op.identity elements
  | .survey partition counting => session.query do
    let survey ← unfaulted (partition.survey counting)
    return .survey survey
  | .probe partition units iteration => session.query do
    let probe ← unfaulted (partition.probe units iteration)
    return .probe probe
  | .submit label profiling =>
    let profiler : Profiler := ⟨profiling⟩
    session.finish (profiler.submit session.device label (fun runs => pure (runs + 1)) 0)
      fun runs => (session, .submitted profiler.enabled runs)

/-! ## Room -/

/-- What the passes of a layout go over: of the source of each level as many blocks of `granularity`
elements as the level has totals. The source of the first level has `size` elements. -/
def passExtents (layout : Cascade.Layout) (size : Nat) (granularity : Index) : List Extent :=
  (size :: layout.levels.map (·.length.toNat)).zipWith
    (fun size level => ⟨size, level.numElems.toNat * granularity.toNat⟩) layout.levels

/-- What a command goes over. A command that is refused goes over nothing. -/
def extents : Command α → Except Failure (List Extent)
  | .scan buffer length cascade _ config => do
    let data ← session.findBuffer buffer
    let slot ← session.findCascade cascade
    let settings ← checked (Scan.accept session.device config length slot.layout)
    return passExtents slot.layout data.size settings.granularity
  | .launch buffer cascade _ config _ => do
    let settings ← checked (session.device.settings config)
    let data ← session.findBuffer buffer
    let slot ← session.findCascade cascade
    return passExtents slot.layout data.size settings.granularity
  | .blockScan buffer length _ config => do
    let _ ← checked (session.device.settings config)
    let data ← session.findBuffer buffer
    return [⟨data.size, length.toNat⟩]
  | .directScan buffer _ start range _ config => do
    let _ ← checked (session.device.settings config)
    let data ← session.findBuffer buffer
    return [⟨data.size, start.toNat + range.toNat⟩]
  | _ => return []

/-- All buffers that a command goes over are long enough. -/
def HasRoom (command : Command α) : Prop :=
  ∀ extents, session.extents command = .ok extents → ∀ extent ∈ extents, extent.count ≤ extent.size

instance (command : Command α) : Decidable (session.HasRoom command) :=
  match h : session.extents command with
  | .ok extents =>
    decidable_of_iff (∀ extent ∈ extents, extent.count ≤ extent.size)
      ⟨fun hall _ hextents => Except.ok.inj (h.symm.trans hextents) ▸ hall, fun hroom => hroom extents h⟩
  | .error _ => isTrue fun _ hextents => nomatch h.symm.trans hextents

/-- The session and the reply after a command that there is room for. Others are not carried out. -/
def serve (command : Command α) : Option (Session α × Reply α) :=
  if session.HasRoom command then some (session.perform command) else none

end Session

end PrefixScan
