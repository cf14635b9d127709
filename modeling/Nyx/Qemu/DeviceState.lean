import Mathlib.Data.List.Perm.Basic
import Nyx.Lib.Exec
import Nyx.Qemu.StateReallocation

/-!
# Loading the state of the devices and recording how to restore it

`fdl_vmstate_load_state` loads a tree of descriptions from a migration stream and records what
`fdl_fast_reload` has to do later. QEMU's functions and the callbacks of the devices are parameters
on a state `ω`; a log of the recorded actions runs along.
-/

namespace Nyx

open Exec (Maintains)

namespace DeviceState

open StateReallocation

/-! ## The descriptions -/

inductive InfoName
  | bool | int8 | int16 | int32 | int32Equal | int32Le | int64
  | uint8 | uint16 | uint32 | uint32Equal | uint64 | int64Equal | uint8Equal | uint16Equal
  | float64 | cpuDoubleU | buffer | unusedBuffer | tmp | bitmap | qtailq | timer | fpreg
  | pciConfig | pciIrqState | other
  deriving DecidableEq

/-- A `VMStateField` without its `VMS_STRUCT` flag and the description that goes with it. What
only QEMU's functions look at stands behind `layout`. -/
structure VMStateField where
  offset : ℕ
  fieldExists : Option ℕ
  versionId : ℤ
  info : InfoName
  pointer : Bool
  arrayOfPointer : Bool
  mustExist : Bool
  layout : ℕ

/-- A `VMStateDescription` without its fields and subsections. -/
structure Header where
  name : List Char
  versionId : ℤ
  minimumVersionId : ℤ
  minimumVersionIdOld : ℤ
  loadStateOld : Bool
  preLoad : Option ℕ
  postLoad : Option ℕ
  needed : Bool

mutual

inductive VMStateDescription
  | mk (header : Header) (fields : FieldList) (subsections : SubsectionList)

inductive FieldList
  | nil
  | plain (field : VMStateField) (rest : FieldList)
  | struct (field : VMStateField) (vmsd : VMStateDescription) (rest : FieldList)

inductive SubsectionList
  | nil
  | cons (sub : VMStateDescription) (rest : SubsectionList)

end

def VMStateDescription.header : VMStateDescription → Header
  | .mk header _ _ => header

/-! ## The environment and the log -/

/-- What QEMU and the devices decide. -/
structure Qemu (ω : Type) where
  mem : ω → ℕ → Option UInt8
  deref : ω → ℕ → Option ℕ
  fieldExists : ℕ → ω → ℕ → ℤ → Bool
  vmstateNElems : ω → ℕ → VMStateField → ℕ
  vmstateSize : ω → ℕ → VMStateField → ℕ
  vmstateHandleAlloc : ω → ℕ → VMStateField → ℕ → ω
  infoGet : VMStateField → ω → ℕ → ℕ → ℤ × ω
  nullptrGet : ω → ℕ → ℕ → ℤ × ω
  postLoad : ℕ → ω → ℕ → ℤ → ℤ × ω
  fileGetError : ω → ℤ
  fileSkip : ω → ℤ → ω
  peekByte : ω → ℕ → ℕ × ω
  peekBuffer : ω → ℕ → ℕ → List Char × ω
  getBe32 : ω → ℕ × ω
  getBe64 : ω → ℕ × ω
  getBuffer : ω → ℕ → List UInt8 × ω
  sectionHeader : ω → ω
  sectionFooter : ω → ω
  vmstateLoad : ω → ℤ × ω

inductive Action
  | mblock (capture : Capture)
  | preLoad (fptr opaquePtr : ℕ)
  | postLoad (fptr opaquePtr : ℕ) (version : ℤ)
  | get (entry : GetFptr)

/-- The recorder, and what was recorded. -/
structure Traversal (ω : Type) where
  recorder : StateReallocation
  recorded : List Action
  world : ω

inductive Abort
  | assertion
  | segfault
  /-- A copy past the end of the pre-allocated region. -/
  | region
  | fuel
  deriving DecidableEq

abbrev Load (ω α : Type) := Exec Abort (Traversal ω) α

variable {ω : Type}

def call {α : Type} (f : ω → α × ω) : Load ω α := fun s =>
  (.ok (f s.world).1, { s with world := (f s.world).2 })

def update (f : ω → ω) : Load ω Unit := call fun w => ((), f w)

/-! ## Recording -/

/-- The tag of a `pre_load` function in the table of callbacks. -/
def PRE_LOAD_VERSION : ℤ := 1337

def addMblock (env : Qemu ω) (start size : ℕ) : Load ω Unit := fun s =>
  if (List.range size).all fun i => (env.mem s.world (start + i)).isSome then
    let mem := fun addr => (env.mem s.world addr).getD 0
    match s.recorder.addMblock mem start size with
    | some recorder => (.ok (), { s with
        recorder := recorder
        recorded := s.recorded ++ [.mblock ⟨start, size, mem⟩] })
    | none => (.error .region, s)
  else
    (.error .segfault, s)

def pushFptr (entry : PostFptr) (action : Action) (s : Traversal ω) : Traversal ω :=
  { s with
    recorder := { s.recorder with fastStateFptr := s.recorder.fastStateFptr.push entry }
    recorded := s.recorded ++ [action] }

def addPostFptr (fptr : ℕ) (version : ℤ) (opaquePtr : ℕ) (name : List Char) (action : Action) :
    Load ω Unit :=
  if name = "I440FX".toList then pure ()
  else Exec.modify (pushFptr ⟨fptr, opaquePtr, version⟩ action)

def pushGet (entry : GetFptr) (s : Traversal ω) : Traversal ω :=
  { s with
    recorder := { s.recorder with fastStateGetFptr := s.recorder.fastStateGetFptr.push entry }
    recorded := s.recorded ++ [.get entry] }

/-- The data of a field handler is read a second time from the stream. -/
def addGet (env : Qemu ω) (info : InfoName) (opaquePtr size : ℕ) : Load ω Unit :=
  match info with
  | .timer => do
    update fun w => env.fileSkip w (-(size : ℤ))
    let expire ← call env.getBe64
    Exec.modify (pushGet ⟨.timer expire, opaquePtr, size⟩)
  | .pciIrqState => do
    update fun w => env.fileSkip w (-(size : ℤ))
    let irq0 ← call env.getBe32
    let irq1 ← call env.getBe32
    let irq2 ← call env.getBe32
    let irq3 ← call env.getBe32
    Exec.modify (pushGet ⟨.pciIrqState [irq0, irq1, irq2, irq3], opaquePtr, size⟩)
  | .pciConfig => do
    update fun w => env.fileSkip w (-(size : ℤ))
    let config ← call fun w => env.getBuffer w size
    Exec.modify (pushGet ⟨.pciConfigDevice config, opaquePtr, size⟩)
  | _ => pure ()

/-- What a branch of `get_handler` does after the field is loaded. -/
inductive Handling
  /-- Assert the size of the field, then record a block of the given length. -/
  | block (expected length : ℕ)
  | wholeBlock
  | nothing
  | get
  | unsupported
  deriving DecidableEq

def handling : InfoName → Handling
  | .bool | .int8 | .uint8 | .uint8Equal => .block 1 1
  | .int16 | .uint16 => .block 2 2
  | .int32 | .int32Equal | .int32Le | .uint32 | .uint32Equal => .block 4 4
  | .int64 | .uint64 | .int64Equal => .block 8 8
  -- these two compare a size in bytes with a width in bits
  | .uint16Equal => .block 16 2
  | .float64 => .block 64 8
  | .buffer | .tmp => .wholeBlock
  | .unusedBuffer => .nothing
  | .timer | .pciConfig | .pciIrqState => .get
  | .cpuDoubleU | .bitmap | .qtailq | .fpreg | .other => .unsupported

def record (env : Qemu ω) (field : VMStateField) (currElem size : ℕ) : Load ω Unit :=
  match handling field.info with
  | .block expected length =>
    if size = expected then addMblock env currElem length else Exec.panic .assertion
  | .wholeBlock => addMblock env currElem size
  | .nothing => pure ()
  | .get => addGet env field.info currElem size
  | .unsupported => Exec.panic .assertion

def getHandler (env : Qemu ω) (field : VMStateField) (currElem size : ℕ) : Load ω ℤ := do
  let ret ← call fun w => env.infoGet field w currElem size
  record env field currElem size
  pure ret

/-! ## The traversal -/

def EINVAL : ℤ := 22

def ENOENT : ℤ := 2

def QEMU_VM_SUBSECTION : ℕ := 5

def readPointer (env : Qemu ω) (p : ℕ) : Load ω ℕ := do
  let target ← Exec.gets fun s => env.deref s.world p
  Exec.unwrap .segfault target

/-- The branches on a null pointer of the loop body. `load` is `get_handler` or the recursive
call. -/
def loadAt (env : Qemu ω) (field : VMStateField) (load : ℕ → ℕ → Load ω ℤ) (size currElem : ℕ) :
    Load ω ℤ :=
  if currElem = 0 ∧ size ≠ 0 then
    if field.arrayOfPointer then do
      let ret ← call fun w => env.nullptrGet w currElem size
      addMblock env currElem size
      pure ret
    else
      Exec.panic .assertion
  else
    load currElem size

def loadElement (env : Qemu ω) (field : VMStateField) (load : ℕ → ℕ → Load ω ℤ)
    (size currElem : ℕ) : Load ω ℤ :=
  if field.arrayOfPointer then do
    let target ← readPointer env currElem
    addMblock env target size
    loadAt env field load size target
  else
    loadAt env field load size currElem

/-- The loop over the elements that are left, from `currElem` on. A result ends the function. -/
def loadElements (env : Qemu ω) (field : VMStateField) (load : ℕ → ℕ → Load ω ℤ) (size : ℕ) :
    ℕ → ℕ → Load ω (Option ℤ)
  | 0, _ => pure none
  | n + 1, currElem => do
    let ret ← loadElement env field load size currElem
    let error ← Exec.gets fun s => env.fileGetError s.world
    let ret := if ret ≥ 0 then error else ret
    if ret < 0 then pure (some ret)
    else loadElements env field load size n (currElem + size)

def VMStateField.present (field : VMStateField) (env : Qemu ω) (opaquePtr : ℕ) (version : ℤ)
    (w : ω) : Bool :=
  match field.fieldExists with
  | some fptr => env.fieldExists fptr w opaquePtr version
  | none => field.versionId ≤ version

def firstElem (env : Qemu ω) (field : VMStateField) (opaquePtr nElems size : ℕ) : Load ω ℕ :=
  if field.pointer then do
    let target ← readPointer env (opaquePtr + field.offset)
    if target ≠ 0 ∨ nElems = 0 ∨ size = 0 then pure target else Exec.panic .assertion
  else
    pure (opaquePtr + field.offset)

def loadField (env : Qemu ω) (field : VMStateField) (load : ℕ → ℕ → Load ω ℤ) (opaquePtr : ℕ)
    (version : ℤ) : Load ω (Option ℤ) := do
  let present ← Exec.gets fun s => field.present env opaquePtr version s.world
  if present then do
    let nElems ← Exec.gets fun s => env.vmstateNElems s.world opaquePtr field
    let size ← Exec.gets fun s => env.vmstateSize s.world opaquePtr field
    update fun w => env.vmstateHandleAlloc w (opaquePtr + field.offset) field opaquePtr
    let first ← firstElem env field opaquePtr nElems size
    loadElements env field load size nElems first
  else if field.mustExist then pure (some (-1))
  else pure none

/-- The subsection that comes next in the stream: `none` if the loop over them ends here. -/
def peekSubsection (env : Qemu ω) (name : List Char) : Load ω (Option (ℕ × List Char)) := do
  let type ← call fun w => env.peekByte w 0
  if type = QEMU_VM_SUBSECTION then do
    let len ← call fun w => env.peekByte w 1
    let len := len % 256
    if len < name.length + 1 then pure none
    else do
      let buffer ← call fun w => env.peekBuffer w len 2
      let idstr := buffer.takeWhile (· ≠ '\x00')
      if buffer.length % 256 = len ∧ name.isPrefixOf idstr then pure (some (len, idstr))
      else pure none
  else pure none

/-- `fdl_vmstate_subsection_load`. `find` is `fdl_vmstate_get_subsection`, with the recursive call
for the subsection it finds. The version is kept in eight bits. -/
def subsectionLoad (env : Qemu ω) (name : List Char) (find : List Char → Option (ℕ → Load ω ℤ)) :
    ℕ → Load ω ℤ
  | 0 => Exec.panic .fuel
  | fuel + 1 => do
    let next ← peekSubsection env name
    match next with
    | none => pure 0
    | some (len, idstr) =>
      match find idstr with
      | none => pure (-ENOENT)
      | some load => do
        update fun w => env.fileSkip w 1
        update fun w => env.fileSkip w 1
        update fun w => env.fileSkip w len
        let version ← call env.getBe32
        let ret ← load (version % 256)
        if ret ≠ 0 then pure ret else subsectionLoad env name find fuel

def recordPreLoad (header : Header) (opaquePtr : ℕ) : Load ω Unit :=
  match header.preLoad with
  | some fptr =>
    addPostFptr fptr PRE_LOAD_VERSION opaquePtr header.name (.preLoad fptr opaquePtr)
  | none => pure ()

def runPostLoad (env : Qemu ω) (header : Header) (opaquePtr : ℕ) (version : ℤ) : Load ω ℤ :=
  match header.postLoad with
  | some fptr => do
    addPostFptr fptr version opaquePtr header.name (.postLoad fptr opaquePtr version)
    call fun w => env.postLoad fptr w opaquePtr version
  | none => pure 0

mutual

/-- `fdl_vmstate_load_state`. The fuel bounds the loops over the subsections in the stream. -/
def loadState (env : Qemu ω) (fuel : ℕ) : VMStateDescription → ℕ → ℤ → Load ω ℤ
  | .mk header fields subsections, opaquePtr, version =>
    if version > header.versionId then pure (-EINVAL)
    else if version < header.minimumVersionId then
      if header.loadStateOld ∧ version ≥ header.minimumVersionIdOld then Exec.panic .assertion
      else pure (-EINVAL)
    else do
      recordPreLoad header opaquePtr
      let early ← loadFields env fuel fields opaquePtr version
      match early with
      | some ret => pure ret
      | none => do
        let ret ← subsectionLoad env header.name
          (fun idstr => getSubsection env fuel subsections idstr opaquePtr) fuel
        if ret ≠ 0 then pure ret else runPostLoad env header opaquePtr version

def loadFields (env : Qemu ω) (fuel : ℕ) : FieldList → ℕ → ℤ → Load ω (Option ℤ)
  | .nil, _, _ => pure none
  | .plain field rest, opaquePtr, version => do
    let early ← loadField env field (getHandler env field) opaquePtr version
    match early with
    | some ret => pure (some ret)
    | none => loadFields env fuel rest opaquePtr version
  | .struct field vmsd rest, opaquePtr, version => do
    let early ← loadField env field
      (fun currElem _ => loadState env fuel vmsd currElem vmsd.header.versionId) opaquePtr version
    match early with
    | some ret => pure (some ret)
    | none => loadFields env fuel rest opaquePtr version

/-- `fdl_vmstate_get_subsection` stops at the first subsection without a `needed` function. -/
def getSubsection (env : Qemu ω) (fuel : ℕ) :
    SubsectionList → List Char → ℕ → Option (ℕ → Load ω ℤ)
  | .nil, _, _ => none
  | .cons sub rest, idstr, opaquePtr =>
    if sub.header.needed then
      if idstr = sub.header.name then some fun version => loadState env fuel sub opaquePtr version
      else getSubsection env fuel rest idstr opaquePtr
    else none

end

/-- A section of the stream, with the entry that `fdl_find_se` finds for it. -/
structure Section where
  vmsd : Option VMStateDescription
  opaquePtr : ℕ
  version : ℤ

/-- Sections without a description and the one of the clock are left to QEMU. -/
def loadSection (env : Qemu ω) (fuel : ℕ) (sec : Section) : Load ω ℤ :=
  match sec.vmsd with
  | some vmsd =>
    if vmsd.header.name = "tiMer".toList then call env.vmstateLoad
    else loadState env fuel vmsd sec.opaquePtr sec.version
  | none => call env.vmstateLoad

def enumerateSection (env : Qemu ω) (fuel : ℕ) (sec : Section) : Load ω Unit := do
  update env.sectionHeader
  let ret ← loadSection env fuel sec
  if ret < 0 then pure () else update env.sectionFooter

def enumerateGlobalStates (env : Qemu ω) (fuel : ℕ) (secs : List Section) : Load ω Unit :=
  Exec.forEach secs (enumerateSection env fuel)

/-! ## The reload -/

inductive Effect
  | preLoad (fptr opaquePtr : ℕ)
  | store (addr : ℕ) (byte : UInt8)
  | postLoad (fptr opaquePtr : ℕ) (version : ℤ)
  | get (entry : GetFptr)
  deriving DecidableEq

def fdlFastReload (self : StateReallocation) : List Effect :=
  (self.fastStateFptr.entries.filter fun e => e.version = PRE_LOAD_VERSION).map
      (fun e => .preLoad e.fptr e.opaquePtr) ++
    (self.fastState.entries.flatMap self.blockStores).map (fun s => .store s.1 s.2) ++
    (self.fastStateFptr.entries.filter fun e => e.version ≠ PRE_LOAD_VERSION).map
      (fun e => .postLoad e.fptr e.opaquePtr e.version)

/-- What has to happen for an action to be carried out once. -/
def Action.effects : Action → List Effect
  | .mblock capture => capture.stores.map fun s => .store s.1 s.2
  | .preLoad fptr opaquePtr => [.preLoad fptr opaquePtr]
  | .postLoad fptr opaquePtr version => [.postLoad fptr opaquePtr version]
  | .get entry => [.get entry]

/-- A reload carries out every recorded action exactly once and does nothing else. -/
def Replays (s : Traversal ω) : Prop :=
  (fdlFastReload s.recorder).Perm (s.recorded.flatMap Action.effects)

instance (s : Traversal ω) : Decidable (Replays s) :=
  inferInstanceAs (Decidable (List.Perm _ _))

/-! ## What a traversal can record -/

def Header.RecordsPostLoad (header : Header) : Prop :=
  header.postLoad.isSome ∧ header.name ≠ "I440FX".toList

instance (header : Header) : Decidable header.RecordsPostLoad :=
  inferInstanceAs (Decidable (_ ∧ _))

section Within

variable (okField : VMStateField → Prop) (okCall : Header → ℤ → Prop)

mutual

/-- Every field that is loaded by a handler meets `okField`; every description meets `okCall` at
the versions it can be called with from inside the tree. -/
def VMStateDescription.Within : VMStateDescription → Prop
  | .mk _ fields subsections => fields.Within ∧ subsections.Within

def FieldList.Within : FieldList → Prop
  | .nil => True
  | .plain field rest => okField field ∧ rest.Within
  | .struct _ vmsd rest =>
    okCall vmsd.header vmsd.header.versionId ∧ vmsd.Within ∧ rest.Within

def SubsectionList.Within : SubsectionList → Prop
  | .nil => True
  | .cons sub rest =>
    (∀ version : ℕ, version < 256 → okCall sub.header version) ∧ sub.Within ∧ rest.Within

end

end Within

/-- A property of the recorder that its functions keep: those for field handlers when the field is
`okField`, those for `post_load` functions when the call is `okCall`. -/
structure Kept (I : Traversal ω → Prop) (okField : VMStateField → Prop)
    (okCall : Header → ℤ → Prop) : Prop where
  world : ∀ s w, I s → I { s with world := w }
  mblock : ∀ (s : Traversal ω) (c : Capture) recorder, I s →
    s.recorder.addMblock c.mem c.start c.size = some recorder →
      I { s with recorder := recorder, recorded := s.recorded ++ [.mblock c] }
  preLoad : ∀ s fptr opaquePtr, I s →
    I (pushFptr ⟨fptr, opaquePtr, PRE_LOAD_VERSION⟩ (.preLoad fptr opaquePtr) s)
  postLoad : ∀ s fptr opaquePtr header version, header.RecordsPostLoad → okCall header version →
    I s → I (pushFptr ⟨fptr, opaquePtr, version⟩ (.postLoad fptr opaquePtr version) s)
  get : ∀ s entry field, handling field.info = .get → okField field → I s → I (pushGet entry s)

lemma run_addMblock_cases (env : Qemu ω) (start size : ℕ) (s : Traversal ω) :
    (∃ (c : Capture) (recorder : StateReallocation),
      s.recorder.addMblock c.mem c.start c.size = some recorder ∧
      (addMblock env start size).run s =
        (.ok (), { s with recorder := recorder, recorded := s.recorded ++ [.mblock c] })) ∨
    ∃ e, (addMblock env start size).run s = (.error e, s) := by
  unfold addMblock Exec.run
  dsimp only
  split
  · split
    · exact .inl ⟨⟨start, size, _⟩, _, ‹_›, rfl⟩
    · exact .inr ⟨_, rfl⟩
  · exact .inr ⟨_, rfl⟩

lemma maintains_readPointer {I : Traversal ω → Prop} (env : Qemu ω) (p : ℕ) :
    Maintains I (readPointer env p) :=
  (Maintains.gets _).bind fun target => Maintains.unwrap _ target

namespace Kept

variable {I : Traversal ω → Prop} {okField : VMStateField → Prop} {okCall : Header → ℤ → Prop}

section

variable (h : Kept I okField okCall) (env : Qemu ω)

include h

lemma call {α : Type} (f : ω → α × ω) : Maintains I (call f) := fun s hs =>
  h.world s (f s.world).2 hs

lemma update (f : ω → ω) : Maintains I (update f) := h.call _

lemma addMblock (start size : ℕ) : Maintains I (addMblock env start size) := by
  apply Maintains.of_final
  intro s hs
  obtain ⟨c, recorder, hadd, hrun⟩ | ⟨e, hrun⟩ := run_addMblock_cases env start size s
  · rw [hrun]
    exact h.mblock s c recorder hs hadd
  · rw [hrun]
    exact hs

lemma addGet {field : VMStateField} (hget : handling field.info = .get) (hfield : okField field)
    (opaquePtr size : ℕ) : Maintains I (addGet env field.info opaquePtr size) := by
  have hpush : ∀ entry, Maintains I (Exec.modify (pushGet entry) : Load ω Unit) :=
    fun entry s hs => h.get s entry field hget hfield hs
  unfold DeviceState.addGet
  split
  · refine (h.update _).bind fun _ => (h.call _).bind fun expire => hpush _
  · refine (h.update _).bind fun _ => (h.call _).bind fun irq0 => (h.call _).bind fun irq1 =>
      (h.call _).bind fun irq2 => (h.call _).bind fun irq3 => hpush _
  · refine (h.update _).bind fun _ => (h.call _).bind fun config => hpush _
  · exact Maintains.pure ()

lemma record {field : VMStateField} (hfield : okField field) (currElem size : ℕ) :
    Maintains I (record env field currElem size) := by
  unfold DeviceState.record
  split
  · exact Maintains.ite (fun _ => h.addMblock env currElem _) fun _ => Maintains.panic _
  · exact h.addMblock env currElem size
  · exact Maintains.pure ()
  · exact h.addGet env ‹_› hfield currElem size
  · exact Maintains.panic _

lemma getHandler {field : VMStateField} (hfield : okField field) (currElem size : ℕ) :
    Maintains I (getHandler env field currElem size) :=
  (h.call _).bind fun ret => (h.record env hfield currElem size).bind fun _ =>
    Maintains.pure ret

section Fields

variable {field : VMStateField} {load : ℕ → ℕ → Load ω ℤ}
  (hload : ∀ currElem size, Maintains I (load currElem size))

include hload

lemma loadAt (size currElem : ℕ) : Maintains I (loadAt env field load size currElem) := by
  apply Maintains.ite
  · intro _
    apply Maintains.ite
    · intro _
      exact (h.call _).bind fun ret => (h.addMblock env currElem size).bind fun _ =>
        Maintains.pure ret
    · intro _
      exact Maintains.panic _
  · intro _
    exact hload currElem size

lemma loadElement (size currElem : ℕ) : Maintains I (loadElement env field load size currElem) := by
  apply Maintains.ite
  · intro _
    exact (maintains_readPointer env currElem).bind fun target => (h.addMblock env target size).bind
      fun _ => h.loadAt env hload size target
  · intro _
    exact h.loadAt env hload size currElem

lemma loadElements (size n currElem : ℕ) :
    Maintains I (loadElements env field load size n currElem) := by
  induction n generalizing currElem with
  | zero => exact Maintains.pure none
  | succ n ih =>
    refine (h.loadElement env hload size currElem).bind fun ret => ?_
    refine (Maintains.gets _).bind fun error => ?_
    exact Maintains.ite (fun _ => Maintains.pure _) fun _ => ih _

lemma loadField (opaquePtr : ℕ) (version : ℤ) :
    Maintains I (loadField env field load opaquePtr version) := by
  have hfirst : ∀ nElems size, Maintains I (firstElem env field opaquePtr nElems size) := by
    intro nElems size
    apply Maintains.ite
    · intro _
      exact (maintains_readPointer env _).bind fun target =>
        Maintains.ite (fun _ => Maintains.pure target) fun _ => Maintains.panic _
    · intro _
      exact Maintains.pure _
  refine (Maintains.gets _).bind fun present => ?_
  apply Maintains.ite
  · intro _
    exact (Maintains.gets _).bind fun nElems => (Maintains.gets _).bind fun size =>
      (h.update _).bind fun _ => (hfirst nElems size).bind fun first =>
        h.loadElements env hload size nElems first
  · intro _
    exact Maintains.ite (fun _ => Maintains.pure _) fun _ => Maintains.pure none

end Fields

lemma peekSubsection (name : List Char) : Maintains I (peekSubsection env name) := by
  refine (h.call _).bind fun type => ?_
  apply Maintains.ite
  · intro _
    refine (h.call _).bind fun len => ?_
    apply Maintains.ite
    · intro _
      exact Maintains.pure none
    · intro _
      exact (h.call _).bind fun buffer =>
        Maintains.ite (fun _ => Maintains.pure _) fun _ => Maintains.pure none
  · intro _
    exact Maintains.pure none

lemma subsectionLoad (name : List Char) {find : List Char → Option (ℕ → Load ω ℤ)}
    (hfind : ∀ idstr load, find idstr = some load →
      ∀ version, version < 256 → Maintains I (load version)) (fuel : ℕ) :
    Maintains I (subsectionLoad env name find fuel) := by
  induction fuel with
  | zero => exact Maintains.panic _
  | succ fuel ih =>
    refine (h.peekSubsection env name).bind fun next => ?_
    cases next with
    | none => exact Maintains.pure 0
    | some next =>
      obtain ⟨len, idstr⟩ := next
      dsimp only
      split
      · exact Maintains.pure _
      · rename_i load heq
        refine (h.update _).bind fun _ => (h.update _).bind fun _ => (h.update _).bind fun _ => ?_
        refine (h.call _).bind fun version => ?_
        refine (hfind idstr load heq _ (Nat.mod_lt _ (by decide))).bind fun ret => ?_
        exact Maintains.ite (fun _ => Maintains.pure ret) fun _ => ih

lemma recordPreLoad (header : Header) (opaquePtr : ℕ) :
    Maintains I (recordPreLoad header opaquePtr) := by
  unfold DeviceState.recordPreLoad
  split
  · rename_i fptr _
    apply Maintains.ite
    · intro _
      exact Maintains.pure ()
    · intro _ s hs
      exact h.preLoad s fptr opaquePtr hs
  · exact Maintains.pure ()

lemma runPostLoad {header : Header} {version : ℤ} (hcall : okCall header version)
    (opaquePtr : ℕ) : Maintains I (runPostLoad env header opaquePtr version) := by
  unfold DeviceState.runPostLoad
  split
  · rename_i fptr hfptr
    have hadd : Maintains I (addPostFptr fptr version opaquePtr header.name
        (.postLoad fptr opaquePtr version)) := by
      apply Maintains.ite
      · intro _
        exact Maintains.pure ()
      · intro hname s hs
        have hrecords : header.RecordsPostLoad := ⟨by rw [hfptr]; rfl, hname⟩
        exact h.postLoad s fptr opaquePtr header version hrecords hcall hs
    exact hadd.bind fun _ => h.call _
  · exact Maintains.pure 0

lemma loadState_of {header : Header} {fields : FieldList} {subsections : SubsectionList}
    {fuel opaquePtr : ℕ} {version : ℤ} (hcall : okCall header version)
    (hfields : Maintains I (loadFields env fuel fields opaquePtr version))
    (hsubs : ∀ idstr load, getSubsection env fuel subsections idstr opaquePtr = some load →
      ∀ version, version < 256 → Maintains I (load version)) :
    Maintains I (loadState env fuel (.mk header fields subsections) opaquePtr version) := by
  apply Maintains.ite
  · intro _
    exact Maintains.pure _
  · intro _
    apply Maintains.ite
    · intro _
      exact Maintains.ite (fun _ => Maintains.panic _) fun _ => Maintains.pure _
    · intro _
      refine (h.recordPreLoad header opaquePtr).bind fun _ => hfields.bind fun early => ?_
      cases early with
      | some ret => exact Maintains.pure ret
      | none =>
        refine (h.subsectionLoad env header.name hsubs fuel).bind fun ret => ?_
        exact Maintains.ite (fun _ => Maintains.pure ret) fun _ =>
          h.runPostLoad env hcall opaquePtr

end

mutual

lemma loadState (h : Kept I okField okCall) (env : Qemu ω) (fuel : ℕ) :
    ∀ (vmsd : VMStateDescription) (opaquePtr : ℕ) (version : ℤ),
    okCall vmsd.header version → vmsd.Within okField okCall →
      Maintains I (loadState env fuel vmsd opaquePtr version)
  | .mk _ fields subsections, opaquePtr, version, hcall, hin =>
    h.loadState_of env hcall (h.loadFields env fuel fields opaquePtr version hin.1)
      (h.getSubsection env fuel subsections opaquePtr hin.2)

lemma loadFields (h : Kept I okField okCall) (env : Qemu ω) (fuel : ℕ) :
    ∀ (fields : FieldList) (opaquePtr : ℕ) (version : ℤ),
    fields.Within okField okCall →
      Maintains I (loadFields env fuel fields opaquePtr version)
  | .nil, _, _, _ => Maintains.pure none
  | .plain field rest, opaquePtr, version, hin => by
    have hload := h.getHandler env hin.1
    refine (h.loadField env hload opaquePtr version).bind fun early => ?_
    cases early with
    | some ret => exact Maintains.pure _
    | none => exact h.loadFields env fuel rest opaquePtr version hin.2
  | .struct field vmsd rest, opaquePtr, version, hin => by
    have hload : ∀ currElem size : ℕ, Maintains I
        (DeviceState.loadState env fuel vmsd currElem vmsd.header.versionId) := fun currElem _ =>
      h.loadState env fuel vmsd currElem _ hin.1 hin.2.1
    refine (h.loadField env hload opaquePtr version).bind fun early => ?_
    cases early with
    | some ret => exact Maintains.pure _
    | none => exact h.loadFields env fuel rest opaquePtr version hin.2.2

lemma getSubsection (h : Kept I okField okCall) (env : Qemu ω) (fuel : ℕ) :
    ∀ (subsections : SubsectionList) (opaquePtr : ℕ),
    subsections.Within okField okCall → ∀ idstr load,
      getSubsection env fuel subsections idstr opaquePtr = some load →
        ∀ version, version < 256 → Maintains I (load version)
  | .nil, _, _, _, _, heq => by cases heq
  | .cons sub rest, opaquePtr, hin, idstr, load, heq => by
    intro version hversion
    unfold DeviceState.getSubsection at heq
    split at heq
    · split at heq
      · obtain rfl := Option.some.inj heq
        exact h.loadState env fuel sub opaquePtr version (hin.1 version hversion) hin.2.1
      · exact h.getSubsection env fuel rest opaquePtr hin.2.2 idstr load heq version hversion
    · cases heq

end

end Kept

/-! ## The tables against the log -/

def Action.capture : Action → Option Capture
  | .mblock capture => some capture
  | _ => none

def Action.callback : Action → Option PostFptr
  | .preLoad fptr opaquePtr => some ⟨fptr, opaquePtr, PRE_LOAD_VERSION⟩
  | .postLoad fptr opaquePtr version => some ⟨fptr, opaquePtr, version⟩
  | _ => none

/-- The tables hold what was recorded. -/
structure Faithful (s : Traversal ω) : Prop where
  blocks : s.recorder.Records (s.recorded.filterMap Action.capture)
  callbacks : s.recorder.fastStateFptr.entries = s.recorded.filterMap Action.callback

lemma faithful_new (w : ω) : Faithful ⟨StateReallocation.new, [], w⟩ where
  blocks := records_new
  callbacks := rfl

variable {action : Action}

lemma filterMap_concat_none {β : Type} {f : Action → Option β} (h : f action = none)
    (log : List Action) : (log ++ [action]).filterMap f = log.filterMap f := by
  simp [h]

lemma filterMap_concat_some {β : Type} {f : Action → Option β} {b : β} (h : f action = some b)
    (log : List Action) : (log ++ [action]).filterMap f = log.filterMap f ++ [b] := by
  simp [h]

variable {s : Traversal ω}

lemma Faithful.blocks_concat (h : Faithful s) (hcapture : action.capture = none) :
    s.recorder.Records ((s.recorded ++ [action]).filterMap Action.capture) := by
  rw [filterMap_concat_none hcapture]
  exact h.blocks

lemma Faithful.pushFptr (h : Faithful s) {entry : PostFptr} (hcapture : action.capture = none)
    (hcallback : action.callback = some entry) : Faithful (pushFptr entry action s) := by
  have hblocks := h.blocks_concat hcapture
  refine ⟨⟨hblocks.offset, hblocks.last, hblocks.inside, hblocks.replay⟩, ?_⟩
  exact (congrArg (· ++ [entry]) h.callbacks).trans (filterMap_concat_some hcallback _).symm

lemma Faithful.pushGet (h : Faithful s) (entry : GetFptr) : Faithful (pushGet entry s) := by
  have hblocks := h.blocks_concat (show (Action.get entry).capture = none from rfl)
  refine ⟨⟨hblocks.offset, hblocks.last, hblocks.inside, hblocks.replay⟩, ?_⟩
  exact h.callbacks.trans
    (filterMap_concat_none (show (Action.get entry).callback = none from rfl) _).symm

lemma Faithful.mblock (h : Faithful s) {c : Capture} {recorder : StateReallocation}
    (hadd : s.recorder.addMblock c.mem c.start c.size = some recorder) :
    Faithful { s with recorder := recorder, recorded := s.recorded ++ [.mblock c] } := by
  have hfptr : recorder.fastStateFptr = s.recorder.fastStateFptr := by
    obtain ⟨init, last, -, -, rfl⟩ | rfl := addMblock_cases hadd
    · rfl
    · rfl
  constructor
  · rw [filterMap_concat_some (show Action.capture (.mblock c) = some c from rfl)]
    exact h.blocks.addMblock c hadd
  · rw [filterMap_concat_none (show Action.callback (.mblock c) = none from rfl), ← h.callbacks,
      ← hfptr]

lemma kept_faithful : Kept (Faithful : Traversal ω → Prop) (fun _ => True) (fun _ _ => True) where
  world := fun _ _ h => ⟨h.blocks, h.callbacks⟩
  mblock := fun _ _ _ h hadd => h.mblock hadd
  preLoad := fun _ _ _ h => h.pushFptr rfl rfl
  postLoad := fun _ _ _ _ _ _ _ h => h.pushFptr rfl rfl
  get := fun _ entry _ _ _ h => h.pushGet entry

/-! ## What a reload leaves out -/

/-- The handlers of fields are not run by a reload, and a `post_load` function whose version is
the tag of the `pre_load` functions is run as one of them. -/
def Action.Replayable : Action → Prop
  | .mblock _ => True
  | .preLoad _ _ => True
  | .postLoad _ _ version => version ≠ PRE_LOAD_VERSION
  | .get _ => False

def reloadOf (log : List Action) : List Effect :=
  ((log.filterMap Action.callback).filter fun e => e.version = PRE_LOAD_VERSION).map
      (fun e => .preLoad e.fptr e.opaquePtr) ++
    ((log.filterMap Action.capture).flatMap Capture.stores).map (fun s => .store s.1 s.2) ++
    ((log.filterMap Action.callback).filter fun e => e.version ≠ PRE_LOAD_VERSION).map
      (fun e => .postLoad e.fptr e.opaquePtr e.version)

lemma Faithful.fdlFastReload_eq (h : Faithful s) :
    fdlFastReload s.recorder = reloadOf s.recorded := by
  unfold fdlFastReload reloadOf
  rw [h.callbacks, h.blocks.replay]

lemma reloadOf_perm {log : List Action} (h : ∀ action ∈ log, action.Replayable) :
    (reloadOf log).Perm (log.flatMap Action.effects) := by
  induction log with
  | nil => exact List.Perm.nil
  | cons action log ih =>
    have ih := ih fun a ha => h a (List.mem_cons_of_mem action ha)
    have haction := h action List.mem_cons_self
    rw [List.perm_iff_count] at ih ⊢
    intro e
    have hcount := ih e
    rw [List.flatMap_cons, List.count_append, ← hcount]
    cases action with
    | mblock capture =>
      simp only [reloadOf, Action.effects, Action.callback, Action.capture, List.filterMap_cons,
        List.flatMap_cons, List.map_append, List.count_append]
      omega
    | preLoad fptr opaquePtr =>
      simp only [reloadOf, Action.callback, decide_true,
        List.filter_cons_of_pos, List.map_cons, Action.capture, List.filterMap_cons,
        List.cons_append, ne_eq, decide_not, Bool.not_true, Bool.false_eq_true,
        not_false_eq_true, List.filter_cons_of_neg, List.count_cons, List.count_append,
        Action.effects, List.count_nil]
      omega
    | postLoad fptr opaquePtr version =>
      have hversion : version ≠ PRE_LOAD_VERSION := haction
      simp only [reloadOf, Action.callback, hversion, decide_false,
        Bool.false_eq_true, not_false_eq_true, List.filter_cons_of_neg, Action.capture,
        List.filterMap_cons, ne_eq, decide_not, Bool.not_false, List.filter_cons_of_pos,
        List.map_cons, List.count_append, List.count_cons, Action.effects, List.count_nil]
      omega
    | get entry => exact haction.elim

lemma replayable_of_mem_reloadOf {log : List Action}
    (h : ∀ e ∈ action.effects, e ∈ reloadOf log) : action.Replayable := by
  cases action with
  | mblock capture => trivial
  | preLoad fptr opaquePtr => trivial
  | postLoad fptr opaquePtr version =>
    have hmem := h (.postLoad fptr opaquePtr version) List.mem_cons_self
    simp only [reloadOf, List.mem_append, List.mem_map, List.mem_filter] at hmem
    rcases hmem with (⟨e, -, he⟩ | ⟨e, -, he⟩) | ⟨e, ⟨-, hversion⟩, he⟩
    · cases he
    · cases he
    · cases he
      have hne : e.version ≠ PRE_LOAD_VERSION := of_decide_eq_true hversion
      exact hne
  | get entry =>
    have hmem := h (.get entry) List.mem_cons_self
    simp [reloadOf] at hmem

lemma Faithful.replays_iff (h : Faithful s) :
    Replays s ↔ ∀ action ∈ s.recorded, action.Replayable := by
  unfold Replays
  rw [h.fdlFastReload_eq]
  constructor
  · intro hperm action haction
    apply replayable_of_mem_reloadOf
    intro e he
    exact hperm.mem_iff.mpr (List.mem_flatMap.mpr ⟨action, haction, he⟩)
  · exact reloadOf_perm

/-! ## Whole enumerations -/

def Section.Within (okField : VMStateField → Prop) (okCall : Header → ℤ → Prop) (sec : Section) :
    Prop :=
  ∀ vmsd, sec.vmsd = some vmsd → okCall vmsd.header sec.version ∧ vmsd.Within okField okCall

lemma Kept.enumerateGlobalStates {I : Traversal ω → Prop} {okField : VMStateField → Prop}
    {okCall : Header → ℤ → Prop} (h : Kept I okField okCall) (env : Qemu ω) (fuel : ℕ)
    {secs : List Section} (hsecs : ∀ sec ∈ secs, sec.Within okField okCall) :
    Maintains I (enumerateGlobalStates env fuel secs) := by
  apply Exec.Triple.forEach_const
  intro sec hsec
  have hload : Maintains I (loadSection env fuel sec) := by
    unfold loadSection
    split
    · rename_i vmsd hvmsd
      obtain ⟨hcall, hin⟩ := hsecs sec hsec vmsd hvmsd
      exact Maintains.ite (fun _ => h.call _) fun _ =>
        h.loadState env fuel vmsd sec.opaquePtr sec.version hcall hin
    · exact h.call _
  refine (h.update _).bind fun _ => hload.bind fun ret => ?_
  exact Maintains.ite (fun _ => Maintains.pure ()) fun _ => h.update _

mutual

lemma VMStateDescription.within_true : ∀ vmsd : VMStateDescription,
    vmsd.Within (fun _ => True) (fun _ _ => True)
  | .mk _ fields subsections => ⟨fields.within_true, subsections.within_true⟩

lemma FieldList.within_true : ∀ fields : FieldList,
    fields.Within (fun _ => True) (fun _ _ => True)
  | .nil => trivial
  | .plain _ rest => ⟨trivial, rest.within_true⟩
  | .struct _ vmsd rest => ⟨trivial, vmsd.within_true, rest.within_true⟩

lemma SubsectionList.within_true : ∀ subsections : SubsectionList,
    subsections.Within (fun _ => True) (fun _ _ => True)
  | .nil => trivial
  | .cons sub rest => ⟨fun _ _ => trivial, sub.within_true, rest.within_true⟩

end

/-- The field is no timer, PCI configuration or PCI interrupt state. -/
def PlainField (field : VMStateField) : Prop := handling field.info ≠ .get

/-- The `post_load` function is not entered with the tag of the `pre_load` functions. -/
def PlainCall (header : Header) (version : ℤ) : Prop :=
  header.RecordsPostLoad → version ≠ PRE_LOAD_VERSION

lemma kept_replayable :
    Kept (fun s : Traversal ω => ∀ action ∈ s.recorded, action.Replayable) PlainField PlainCall := by
  have hconcat : ∀ (log : List Action) (new : Action), (∀ action ∈ log, action.Replayable) →
      new.Replayable → ∀ action ∈ log ++ [new], action.Replayable := by
    intro log new hlog hnew action haction
    rcases List.mem_append.mp haction with hmem | hmem
    · exact hlog action hmem
    · rw [List.mem_singleton.mp hmem]
      exact hnew
  constructor
  · exact fun _ _ h => h
  · intro s c recorder h hadd
    exact hconcat _ _ h trivial
  · intro s fptr opaquePtr h
    exact hconcat _ _ h trivial
  · intro s fptr opaquePtr header version hrecords hplain h
    exact hconcat _ _ h (hplain hrecords)
  · intro s entry field hget hplain
    exact absurd hget hplain

/-- After an enumeration that returns, a reload carries out what was recorded if and only if no
recorded action is one it leaves out. Trees without field handlers record no such action. -/
theorem replays_enumerateGlobalStates (env : Qemu ω) (fuel : ℕ) (secs : List Section) (w : ω)
    {s : Traversal ω} (hrun : (enumerateGlobalStates env fuel secs).run
      ⟨StateReallocation.new, [], w⟩ = (.ok (), s)) :
    (Replays s ↔ ∀ action ∈ s.recorded, action.Replayable) ∧
      ((∀ sec ∈ secs, sec.Within PlainField PlainCall) → Replays s) := by
  have hall : ∀ sec ∈ secs, sec.Within (fun _ => True) (fun _ _ => True) :=
    fun _ _ vmsd _ => ⟨trivial, vmsd.within_true⟩
  have hfaithful : Faithful s :=
    (kept_faithful.enumerateGlobalStates env fuel hall).ok (faithful_new w) hrun
  refine ⟨hfaithful.replays_iff, fun hplain => hfaithful.replays_iff.mpr ?_⟩
  have hnil : ∀ action ∈ ([] : List Action), action.Replayable := by simp
  exact (kept_replayable.enumerateGlobalStates env fuel hplain).ok hnil hrun

def quietQemu : Qemu Unit where
  mem := fun _ _ => some 7
  deref := fun _ _ => none
  fieldExists := fun _ _ _ _ => false
  vmstateNElems := fun _ _ _ => 1
  vmstateSize := fun _ _ _ => 4
  vmstateHandleAlloc := fun _ _ _ _ => ()
  infoGet := fun _ _ _ _ => (0, ())
  nullptrGet := fun _ _ _ => (0, ())
  postLoad := fun _ _ _ _ => (0, ())
  fileGetError := fun _ => 0
  fileSkip := fun _ _ => ()
  peekByte := fun _ _ => (0, ())
  peekBuffer := fun _ _ _ => ([], ())
  getBe32 := fun _ => (0, ())
  getBe64 := fun _ => (9, ())
  getBuffer := fun _ _ => ([], ())
  sectionHeader := fun _ => ()
  sectionFooter := fun _ => ()
  vmstateLoad := fun _ => (0, ())

def oneField (info : InfoName) : Section where
  vmsd := some (.mk ⟨"dev".toList, 1, 1, 1, false, some 10, some 11, false⟩
    (.plain ⟨0, none, 1, info, false, false, false, 0⟩ .nil) .nil)
  opaquePtr := 1000
  version := 1

lemma within_oneField : ∀ sec ∈ [oneField .uint32], sec.Within PlainField PlainCall := by
  intro sec hsec vmsd hvmsd
  rw [List.mem_singleton] at hsec
  subst hsec
  obtain rfl := Option.some.inj hvmsd
  have hfield : PlainField ⟨0, none, 1, .uint32, false, false, false, 0⟩ := by
    unfold PlainField
    decide
  exact ⟨fun _ => (by decide : (1 : ℤ) ≠ PRE_LOAD_VERSION), ⟨hfield, trivial⟩, trivial⟩

theorem replays_oneField :
    ∃ s, (enumerateGlobalStates quietQemu 1 [oneField .uint32]).run
        ⟨StateReallocation.new, [], ()⟩ = (.ok (), s) ∧ Replays s :=
  ⟨_, rfl, (replays_enumerateGlobalStates quietQemu 1 [oneField .uint32] () rfl).2
    within_oneField⟩

theorem not_replays_timer :
    ∃ s, (enumerateGlobalStates quietQemu 1 [oneField .timer]).run
        ⟨StateReallocation.new, [], ()⟩ = (.ok (), s) ∧ ¬Replays s :=
  ⟨((enumerateGlobalStates quietQemu 1 [oneField .timer]).run
    ⟨StateReallocation.new, [], ()⟩).2, rfl, by decide +kernel⟩

end DeviceState

end Nyx
