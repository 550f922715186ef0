import CapsuleOS.Task.ProcessNames

/-!
# The list of processes

`PROC_MGMT_LIST`, the calls that launch a process under a name, and whatever happens in between. The list
is right as long as no name in use is overwritten: in its slot, by the eighth name after it, or on the
kernel stack, when the call that launched the service is over.
-/
namespace CapsuleOS

open Lib Rootfs

/-! ## What a call reads first -/

namespace Sys

/-- `current_process_l0_pa`. -/
def currentL0 (s : Sys) : Nat :=
  match s.os.sched.getCurrentThread with
  | some t => s.callerRoot t.processId
  | none => 0

def checkUtf8 (bytes : List UInt8) : SysM String :=
  match fromUtf8 bytes with
  | some s => pure s
  | none => Prog.throw .invalidArgs

/-- The file is there. -/
def lookupFile (image : List UInt8) (path : String) : SysM Unit :=
  match getFile image path with
  | some (some _) => pure ()
  | some none => Prog.throw .notFound
  | none => Prog.fault

/-- A name without a slash is looked up in `system/bin`, by way of a string of at most 160 bytes. -/
def findProgram (image : List UInt8) (programName : String) : SysM Unit :=
  if 47 ∈ utf8 programName then lookupFile image programName
  else if 160 < (utf8 ("system/bin/" ++ programName)).length then Prog.throw .invalidArgs
  else lookupFile image ("system/bin/" ++ programName)

/-- The caller of `sys_execve` or `sys_spawn`, and the program; `argvError` is the error of reading the
arguments. -/
def readProgram (image : List UInt8) (pathPtr pathLen : Nat) (argvError : Option Status) :
    SysM (Nat × String) :=
  if pathPtr = 0 ∨ pathLen = 0 then Prog.throw .invalidArgs
  else do
    let caller ← onOs Os.currentProcessId
    let _ ← onOs (Os.lookupProcess caller)
    let s ← Prog.get
    let callerL0 := (s.space caller).tree.l0Pa
    if callerL0 = 0 then Prog.throw .invalidArgs
    else
      let pathBuf ← onMm (safeCopyFromUser callerL0 pathPtr (min pathLen 256))
      let programName ← checkUtf8 pathBuf
      match argvError with
      | some e => Prog.throw e
      | none =>
        findProgram image programName
        return (caller, programName)

end Sys

/-- The strings of a `ServiceDescriptor`, as pointers of the caller. -/
structure ServiceDescriptor where
  namePtr : Nat
  nameLen : Nat
  pathPtr : Nat
  pathLen : Nat

namespace Sys

/-- The name of the service; `desc` is what the copy of the descriptor gives. -/
def readService (image : List UInt8) (descPtr : Nat) (desc : Except Status ServiceDescriptor) :
    SysM String :=
  if descPtr = 0 then Prog.throw .invalidArgs
  else do
    let procId ← onOs Os.currentProcessId
    let s ← Prog.get
    match s.os.findProcess procId with
    | none => Prog.throw .processNotFound
    | some _ =>
      let l0Pa := (s.space procId).tree.l0Pa
      match desc with
      | .error e => Prog.throw e
      | .ok desc =>
        let nameBuf ← onMm (safeCopyFromUser l0Pa desc.namePtr (min desc.nameLen 63))
        let name ← checkUtf8 nameBuf
        let pathBuf ← onMm (safeCopyFromUser l0Pa desc.pathPtr (min desc.pathLen 127))
        let path ← checkUtf8 pathBuf
        lookupFile image path
        return name

/-- The name for `PROC_MGMT_CREATE`, up to the first zero byte. -/
def readName (namePtr : Nat) : SysM String :=
  if namePtr = 0 then Prog.throw .invalidArgs
  else do
    let s ← Prog.get
    let buf ← onMm (safeCopyFromUser s.currentL0 namePtr 63)
    checkUtf8 (buf.takeWhile (· ≠ 0))

/-! ### Reading changes nothing -/

theorem still_onOs {α : Type} {m : OsM α} (still : Prog.Within Eq m) : Prog.Within Eq (onOs m) :=
  still.zoom fun s t same => by rw [← same]

theorem still_copy (l0Pa src len : Nat) : Prog.Within Eq (onMm (safeCopyFromUser l0Pa src len)) := by
  refine Prog.Within.zoom (S := Eq) (fun mm => ?_) fun s t same => by rw [← same]
  rcases safeCopyFromUser_cases l0Pa src len mm with ⟨bytes, run, -⟩ | run
  · rw [run]
    rfl
  · rw [run]
    rfl

theorem still_checkUtf8 (bytes : List UInt8) : Prog.Within Eq (checkUtf8 bytes) := by
  unfold checkUtf8
  split
  · exact .pure _
  · exact .throw _

theorem still_lookupFile (image : List UInt8) (path : String) : Prog.Within Eq (lookupFile image path) := by
  unfold lookupFile
  split
  · exact .pure ()
  · exact .throw _
  · exact .fault

theorem still_findProgram (image : List UInt8) (programName : String) :
    Prog.Within Eq (findProgram image programName) := by
  unfold findProgram
  split_ifs
  · exact still_lookupFile image _
  · exact .throw _
  · exact still_lookupFile image _

theorem still_readProgram (image : List UInt8) (pathPtr pathLen : Nat) (argvError : Option Status) :
    Prog.Within Eq (readProgram image pathPtr pathLen argvError) := by
  unfold readProgram
  split_ifs
  · exact .throw _
  refine (still_onOs Os.within_currentProcessId).bind fun caller =>
    (still_onOs (Os.within_lookupProcess caller)).bind fun _ => Prog.Within.get.bind fun s => ?_
  dsimp only
  split_ifs
  · exact .throw _
  refine (still_copy _ _ _).bind fun pathBuf => (still_checkUtf8 pathBuf).bind fun programName => ?_
  cases argvError with
  | some e => exact .throw e
  | none => exact (still_findProgram image programName).bind fun _ => .pure _

theorem still_readService (image : List UInt8) (descPtr : Nat) (desc : Except Status ServiceDescriptor) :
    Prog.Within Eq (readService image descPtr desc) := by
  unfold readService
  split_ifs
  · exact .throw _
  refine (still_onOs Os.within_currentProcessId).bind fun procId => Prog.Within.get.bind fun s => ?_
  dsimp only
  cases s.os.findProcess procId with
  | none => exact .throw _
  | some p =>
    cases desc with
    | error e => exact .throw e
    | ok desc =>
      exact (still_copy _ _ _).bind fun nameBuf => (still_checkUtf8 nameBuf).bind fun name =>
        (still_copy _ _ _).bind fun pathBuf => (still_checkUtf8 pathBuf).bind fun path =>
          (still_lookupFile image path).bind fun _ => .pure _

theorem still_readName (namePtr : Nat) : Prog.Within Eq (readName namePtr) := by
  unfold readName
  split_ifs
  · exact .throw _
  · exact Prog.Within.get.bind fun s => (still_copy _ _ _).bind fun buf => still_checkUtf8 _

end Sys

/-! ## Launching under a name -/

/-- The processes with their memory and their names: `name` is what a process with a given id has for its
name, and `launched` the name that it was launched under, which is not in the source. -/
structure NamedSys where
  sys : Sys
  names : Names
  name : Nat → NameRef
  launched : Nat → List UInt8

abbrev NamedM := Prog NamedSys Status

namespace NamedSys

def onSys {α : Type} (m : SysM α) : NamedM α := Prog.zoom NamedSys.sys (fun sys s => { s with sys }) m

def onNames {α : Type} (m : NamesM α) : NamedM α :=
  Prog.zoom NamedSys.names (fun names s => { s with names }) m

/-- The process that gets the next id gets this name. -/
def christen (ref : NameRef) (name : String) (s : NamedSys) : NamedSys where
  sys := s.sys
  names := s.names
  name := Function.update s.name s.sys.os.processIdCounter ref
  launched := Function.update s.launched s.sys.os.processIdCounter (utf8 name)

end NamedSys

/-- A call that may launch a process: what it reads, how it keeps the name, and what it does with its
parent. `init` is how the initialisation of the process goes, if it gets so far. -/
structure Creation where
  front : SysM (Nat × String)
  keep : String → NamesM NameRef
  make : Nat → OsM Unit
  init : Option (Option Status)
  looks : Prog.Within Eq front
  keeps : Names.Keeps keep
  admits : ∀ parentPid, Prog.Within (Os.Admits init) (make parentPid)

namespace Creation

def run (c : Creation) : NamedM Unit := do
  let (parentPid, name) ← NamedSys.onSys c.front
  let ref ← NamedSys.onNames (c.keep name)
  Prog.modify (NamedSys.christen ref name)
  NamedSys.onSys (Sys.onOs (c.make parentPid))

/-- A launch that the caller survives. -/
def launches (last : LaunchEnd) (parentPid : Nat) : OsM Unit := do
  let _ ← Os.launch parentPid last

/-- A launch that the caller does not survive. -/
def replaces (last : LaunchEnd) (parentPid : Nat) : OsM Unit := do
  let _ ← Os.launch parentPid last
  Os.onSched Scheduler.die

/-- A launch, and then the hand-off of the image. -/
def handsOff (last : LaunchEnd) (handoff : Option Status) (parentPid : Nat) : OsM Unit := do
  let _ ← Os.launch parentPid last
  match handoff with
  | some e => Prog.throw e
  | none => pure ()

theorem launches_admits (last : LaunchEnd) (parentPid : Nat) :
    Prog.Within (Os.Admits last.initEnd) (launches last parentPid) :=
  Os.Admits.bind (Os.launch_admits parentPid last) fun _ => .pure ()

theorem replaces_admits (last : LaunchEnd) (parentPid : Nat) :
    Prog.Within (Os.Admits last.initEnd) (replaces last parentPid) :=
  Os.Admits.bind (Os.launch_admits parentPid last) fun _ => Os.enrols_threadFree.onTasks _

theorem handsOff_admits (last : LaunchEnd) (handoff : Option Status) (parentPid : Nat) :
    Prog.Within (Os.Admits last.initEnd) (handsOff last handoff parentPid) := by
  refine Os.Admits.bind (Os.launch_admits parentPid last) fun _ => ?_
  cases handoff with
  | some e => exact .throw e
  | none => exact .pure ()

/-! ### The calls -/

def sysExec (image : List UInt8) (programName : String) (last : LaunchEnd) : Creation where
  front := do
    Sys.findProgram image programName
    return (0, programName)
  keep := Names.internName
  make := replaces last
  init := last.initEnd
  looks := (Sys.still_findProgram image programName).bind fun _ => .pure _
  keeps := Names.keeps_internName
  admits := replaces_admits last

def sysExecve (image : List UInt8) (pathPtr pathLen : Nat) (argvError : Option Status) (last : LaunchEnd) :
    Creation where
  front := Sys.readProgram image pathPtr pathLen argvError
  keep := Names.internName
  make := replaces last
  init := last.initEnd
  looks := Sys.still_readProgram image pathPtr pathLen argvError
  keeps := Names.keeps_internName
  admits := replaces_admits last

def sysSpawn (image : List UInt8) (pathPtr pathLen : Nat) (argvError : Option Status) (last : LaunchEnd) :
    Creation where
  front := Sys.readProgram image pathPtr pathLen argvError
  keep := Names.internName
  make := launches last
  init := last.initEnd
  looks := Sys.still_readProgram image pathPtr pathLen argvError
  keeps := Names.keeps_internName
  admits := launches_admits last

/-- `frame` is the address of `name_buf`, and `handoff` the error of making the object for the image. -/
def sysServiceSpawn (image : List UInt8) (descPtr : Nat) (desc : Except Status ServiceDescriptor)
    (frame : Nat) (last : LaunchEnd) (handoff : Option Status) : Creation where
  front := do
    let name ← Sys.readService image descPtr desc
    return (0, name)
  keep := Names.nameBuf frame
  make := handsOff last handoff
  init := last.initEnd
  looks := (Sys.still_readService image descPtr desc).bind fun _ => .pure _
  keeps := Names.keeps_nameBuf frame
  admits := handsOff_admits last handoff

/-- The root is checked when the name has its slot. -/
def procMgmtCreate (parentPid namePtr l0Pa : Nat) (initError : Option Status) : Creation where
  front := do
    let name ← Sys.readName namePtr
    return (parentPid, name)
  keep := Names.internName
  make parentPid :=
    if l0Pa = 0 ∨ l0Pa % 4096 ≠ 0 then Prog.throw .invalidArgs
    else do let _ ← Os.allocateProcess parentPid initError
  init := if l0Pa = 0 ∨ l0Pa % 4096 ≠ 0 then none else some initError
  looks := (Sys.still_readName namePtr).bind fun _ => .pure _
  keeps := Names.keeps_internName
  admits parentPid := by
    split_ifs
    · exact Os.admits_nothing fun _ => rfl
    · exact Os.Admits.bind (Os.allocateProcess_admits parentPid initError) fun _ => .pure ()

def sysProcessCreate (initError : Option Status) : Creation where
  front := return (0, "user-proc")
  keep := Names.literal
  make parentPid := do let _ ← Os.allocateProcess parentPid initError
  init := some initError
  looks := .pure _
  keeps := Names.keeps_literal
  admits parentPid := Os.Admits.bind (Os.allocateProcess_admits parentPid initError) fun _ => .pure ()

/-- `vmoError` is the error of reading the object. -/
def sysLoadBinary (vmoError : Option Status) (last : LaunchEnd) : Creation where
  front := match vmoError with
    | some e => Prog.throw e
    | none => return (0, "user-prog")
  keep := Names.literal
  make := launches last
  init := last.initEnd
  looks := by
    cases vmoError with
    | some e => exact .throw e
    | none => exact .pure _
  keeps := Names.keeps_literal
  admits := launches_admits last

def launchLoader (image : List UInt8) (last : LaunchEnd) (handoff : Option Status) : Creation where
  front := do
    Sys.lookupFile image "system/bin/loader"
    return (0, "loader")
  keep := Names.literal
  make := handsOff last handoff
  init := last.initEnd
  looks := (Sys.still_lookupFile image _).bind fun _ => .pure _
  keeps := Names.keeps_literal
  admits := handsOff_admits last handoff

end Creation

/-! ## The list -/

namespace NamedSys

variable {s s' : NamedSys}

def onMm {α : Type} (m : MmM α) : NamedM α := onSys (Sys.onMm m)

def setMm (mm : Mm) (s : NamedSys) : NamedSys := { s with sys.mm := mm }

/-- The entry for a process, with the bytes that its name has now. -/
def entry (s : NamedSys) (p : Process) : ProcListEntry where
  pid := p.id
  parentPid := p.parentPid
  state := p.state.toU32
  name := s.names.read (s.name p.id)

/-- An error of the copy is dropped. -/
def listEntry (callerL0 bufPtr count : Nat) (p : Process) : NamedM Unit := do
  let s ← Prog.get
  match (s.entry p).serialize with
  | .error () => Prog.fault
  | .ok entryBytes =>
    let copyLen := min entryBytes.length 128
    let _ ← Prog.attempt (onMm
      (safeCopyToUser callerL0 (entryBytes.take copyLen) (wadd bufPtr (count * 128))))

/-- The rest of the loop over the table. -/
def listLoop (callerL0 bufPtr max : Nat) : List Process → Nat → NamedM Nat
  | [], count => return count
  | p :: ps, count =>
    if max ≤ count then return count
    else do
      listEntry callerL0 bufPtr count p
      listLoop callerL0 bufPtr max ps (count + 1)

def procMgmtList (bufPtr max : Nat) : NamedM Nat :=
  if bufPtr = 0 ∨ max = 0 then Prog.throw .invalidArgs
  else do
    let s ← Prog.get
    listLoop s.sys.currentL0 bufPtr max s.sys.os.processes.occupants 0

/-- The entry that a process should have. -/
def trueEntry (s : NamedSys) (p : Process) : ProcListEntry :=
  { s.entry p with name := (s.launched p.id).take entryNameRoom }

/-- Memory when these entries have been copied to the buffer, as far as there is memory for them. -/
def delivered (callerL0 bufPtr : Nat) : List ProcListEntry → Nat → Mm → Mm
  | [], _, mm => mm
  | e :: es, count, mm => delivered callerL0 bufPtr es (count + 1)
      (safeCopyToUser callerL0 e.image (wadd bufPtr (count * 128)) mm).state

/-- The list does not panic, has one entry for each process while there is room, and shows for each its
numbers and the name it was launched under. -/
structure Faithful (s : NamedSys) : Prop where
  entries : ∀ p ∈ s.sys.os.processes.occupants, (s.entry p).serialize = .ok (s.trueEntry p).image
  completes : ∀ bufPtr max, bufPtr ≠ 0 → max ≠ 0 → procMgmtList bufPtr max s =
    .ok (min max s.sys.os.processes.occupants.length)
      (s.setMm (delivered s.sys.currentL0 bufPtr
        ((s.sys.os.processes.occupants.take max).map s.trueEntry) 0 s.sys.mm))

/-- The name of the process is what it was launched under, and there is room for it in an entry. -/
def Shown (s : NamedSys) (id : Nat) : Prop :=
  s.names.read (s.name id) = s.launched id ∧ (s.launched id).length ≤ entryNameRoom

instance (s : NamedSys) : DecidablePred s.Shown := fun _ => inferInstanceAs (Decidable (_ ∧ _))

def Legible (s : NamedSys) : Prop := ∀ id ∈ s.sys.os.ids, s.Shown id

instance : DecidablePred Legible := fun s => inferInstanceAs (Decidable (∀ id ∈ s.sys.os.ids, s.Shown id))

theorem onMm_ok {α : Type} {m : MmM α} {a : α} {mm : Mm} (run : m s.sys.mm = .ok a mm) :
    onMm m s = .ok a (s.setMm mm) := by
  simp only [onMm, onSys, Sys.onMm, Prog.zoom, run]
  rfl

theorem onMm_err {α : Type} {m : MmM α} {e : Status} {mm : Mm} (run : m s.sys.mm = .err e mm) :
    onMm m s = .err e (s.setMm mm) := by
  simp only [onMm, onSys, Sys.onMm, Prog.zoom, run]
  rfl

/-- Memory after the copy of one entry, or of as much of it as there is memory for. -/
def afterEntry (s : NamedSys) (callerL0 bufPtr count : Nat) (e : ProcListEntry) : Mm :=
  (safeCopyToUser callerL0 e.image (wadd bufPtr (count * 128)) s.sys.mm).state

theorem listEntry_copies {callerL0 bufPtr count : Nat} {p : Process}
    (shows : (s.entry p).serialize = .ok (s.trueEntry p).image) :
    listEntry callerL0 bufPtr count p s =
      .ok () (s.setMm (s.afterEntry callerL0 bufPtr count (s.trueEntry p))) := by
  have whole : min (s.trueEntry p).image.length 128 = (s.trueEntry p).image.length := by
    rw [ProcListEntry.image_length, Nat.min_self]
  unfold listEntry afterEntry
  simp only [Prog.bind_apply, Prog.get, shows, whole, List.take_length]
  rcases safeCopyToUser_cases callerL0 (s.trueEntry p).image (wadd bufPtr (count * 128)) s.sys.mm with
    ⟨mm, run⟩ | ⟨mm, run⟩
  · simp only [Prog.attempt_ok (onMm_ok run), run]
    rfl
  · simp only [Prog.attempt_err (onMm_err run), run]
    rfl

theorem listLoop_copies {callerL0 bufPtr max : Nat} {ps : List Process} {count : Nat}
    (shows : ∀ p ∈ ps, (s.entry p).serialize = .ok (s.trueEntry p).image) (le : count ≤ max) :
    listLoop callerL0 bufPtr max ps count s = .ok (min max (count + ps.length))
      (s.setMm (delivered callerL0 bufPtr ((ps.take (max - count)).map s.trueEntry) count s.sys.mm)) := by
  induction ps generalizing count s with
  | nil =>
    rw [List.length_nil, Nat.add_zero, Nat.min_eq_right le, List.take_nil, List.map_nil, delivered, listLoop]
    rfl
  | cons p ps ih =>
    by_cases full : max ≤ count
    · obtain rfl : count = max := Nat.le_antisymm le full
      rw [listLoop, if_pos le_rfl, Nat.sub_self, List.take_zero, Nat.min_eq_left (Nat.le_add_right _ _),
        List.map_nil, delivered]
      rfl
    · have take : (p :: ps).take (max - count) = p :: ps.take (max - (count + 1)) := by
        rw [show max - count = max - (count + 1) + 1 by omega, List.take_succ_cons]
      have length : count + (p :: ps).length = count + 1 + ps.length := by
        rw [List.length_cons]
        omega
      let u : NamedSys := s.setMm (s.afterEntry callerL0 bufPtr count (s.trueEntry p))
      have rest : listLoop callerL0 bufPtr max ps (count + 1) u = _ :=
        ih (fun q mem => shows q (List.mem_cons_of_mem _ mem)) (by omega)
      rw [listLoop, if_neg full, take, length,
        Prog.bind_ok (listEntry_copies (shows p (List.mem_cons_self ..))), List.map_cons, delivered]
      exact rest

theorem Faithful.of_entries
    (entries : ∀ p ∈ s.sys.os.processes.occupants, (s.entry p).serialize = .ok (s.trueEntry p).image) :
    s.Faithful := by
  refine ⟨entries, fun bufPtr max ptr pos => ?_⟩
  have loop : listLoop s.sys.currentL0 bufPtr max _ 0 s = _ := listLoop_copies entries (Nat.zero_le max)
  rw [Nat.zero_add, Nat.sub_zero] at loop
  rw [procMgmtList, if_neg (not_or.mpr ⟨ptr, pos⟩)]
  exact loop

/-- The ids are in order, a placeholder has no name, and a reference has the length of the name. -/
structure Labelled (s : NamedSys) : Prop where
  numbered : s.sys.os.Numbered
  zero : s.name 0 = .text [] ∧ s.launched 0 = []
  measured : ∀ id, (s.name id).len = (s.launched id).length

theorem Shown.serialize {p : Process} (shown : s.Shown p.id) :
    (s.entry p).serialize = .ok (s.trueEntry p).image := by
  obtain ⟨same, fits⟩ := shown
  have true_entry : s.trueEntry p = s.entry p := by
    unfold trueEntry entry
    rw [List.take_of_length_le fits, same]
  rw [true_entry]
  exact ProcListEntry.serialize_ok (by rwa [show (s.entry p).name = s.launched p.id from same])

/-- What an entry shows is the name of the process, if the lengths agree. -/
theorem Labelled.shown (h : s.Labelled) {p : Process}
    (serialized : (s.entry p).serialize = .ok (s.trueEntry p).image) : s.Shown p.id := by
  have length : (s.entry p).name.length = (s.launched p.id).length :=
    (Names.read_length _ _).trans (h.measured p.id)
  have fits : (s.entry p).name.length ≤ entryNameRoom := by
    by_contra long
    cases (ProcListEntry.serialize_panics (not_le.mp long)).symm.trans serialized
  have image := Except.ok.inj ((ProcListEntry.serialize_ok fits).symm.trans serialized)
  have fits' : (s.launched p.id).length ≤ entryNameRoom := length ▸ fits
  refine ⟨?_, fits'⟩
  unfold ProcListEntry.image at image
  rw [List.append_assoc, List.append_assoc, List.take_of_length_le fits] at image
  have names := List.append_cancel_left (show (s.entry p).numbers ++ _ = (s.entry p).numbers ++ _ from image)
  have take : (s.trueEntry p).name.take entryNameRoom = s.launched p.id := by
    rw [show (s.trueEntry p).name = (s.launched p.id).take entryNameRoom from rfl,
      List.take_of_length_le fits', List.take_of_length_le fits']
  rw [take] at names
  exact (List.append_inj names length).1

theorem mem_ids {id : Nat} : id ∈ s.sys.os.ids ↔ ∃ p ∈ s.sys.os.processes.occupants, p.id = id :=
  List.mem_map

/-- The list is faithful exactly if all names are legible. -/
theorem Labelled.faithful_iff (h : s.Labelled) : s.Faithful ↔ s.Legible := by
  constructor
  · intro faithful id mem
    obtain ⟨p, occupies, rfl⟩ := mem_ids.mp mem
    exact h.shown (faithful.entries p occupies)
  · intro legible
    exact .of_entries fun p mem => (legible p.id (mem_ids.mpr ⟨p, mem, rfl⟩)).serialize

/-- No name of a process in the table changes if the slots and the stacks change to `names`. -/
def Undisturbed (s : NamedSys) (names : Names) : Prop :=
  ∀ id ∈ s.sys.os.ids, names.read (s.name id) = s.names.read (s.name id)

instance (s : NamedSys) : DecidablePred s.Undisturbed :=
  fun _ => inferInstanceAs (Decidable (∀ id ∈ s.sys.os.ids, _ = _))

end NamedSys

namespace Creation

open NamedSys

variable {c : Creation} {s s' : NamedSys}

/-- The name that the call is about to launch a process under, and the names once this one is kept. -/
def keeping (c : Creation) (s : NamedSys) : Option (String × Names) :=
  match c.front s.sys with
  | .ok (_, name) _ =>
    match c.keep name s.names with
    | .ok _ names => some (name, names)
    | _ => none
  | _ => none

/-- The call overwrites no name in use, and if it puts a process into the table, there is room for its name
in an entry. -/
def Careful (c : Creation) (s : NamedSys) : Prop := ∀ q ∈ c.keeping s, s.Undisturbed q.2 ∧
  (s.sys.os.processIdCounter ∈ s.sys.os.newIds c.init → (utf8 q.1).length ≤ entryNameRoom)

instance (s : NamedSys) : Decidable (c.Careful s) :=
  inferInstanceAs (Decidable (∀ q ∈ c.keeping s, _ ∧ (_ → _)))

/-- The state of the call when its name is kept and it has been done with the processes. -/
structure Kept (c : Creation) (s : NamedSys) (name : String) (ref : NameRef) (s' : NamedSys) : Prop where
  keeping : c.keeping s = some (name, s'.names)
  reads : s'.names.read ref = utf8 name
  admits : s.sys.os.Admits c.init s'.sys.os
  name_eq : s'.name = Function.update s.name s.sys.os.processIdCounter ref
  launched_eq : s'.launched = Function.update s.launched s.sys.os.processIdCounter (utf8 name)

/-- A call does nothing but fail, or it has kept a name. -/
theorem run_cases (ran : (c.run s).Ends s') :
    (c.keeping s = none ∧ s' = s) ∨ ∃ name ref, c.Kept s name ref s' := by
  have still : (c.front s.sys).state = s.sys := (c.looks s.sys).symm
  cases front : c.front s.sys with
  | err e sys =>
    obtain rfl : sys = s.sys := by rwa [front] at still
    simp only [run, Prog.bind_apply, onSys, Prog.zoom, front] at ran
    cases ran
    exact .inl ⟨by simp only [keeping, front], rfl⟩
  | fault sys =>
    simp only [run, Prog.bind_apply, onSys, Prog.zoom, front] at ran
    cases ran
  | ok out sys =>
    obtain rfl : sys = s.sys := by rwa [front] at still
    simp only [run, Prog.bind_apply, onSys, onNames, Prog.zoom, front] at ran
    cases kept : c.keep out.2 s.names with
    | err e names =>
      obtain rfl := c.keeps.err kept
      simp only [kept] at ran
      cases ran
      exact .inl ⟨by simp only [keeping, front, kept], rfl⟩
    | fault names =>
      simp only [kept] at ran
      cases ran
    | ok ref names =>
      simp only [kept] at ran
      have made : (onSys (Sys.onOs (c.make out.1)) (christen ref out.2 { s with names })).Ends s' := ran
      obtain ⟨sys, ends, rfl⟩ := Prog.zoom_ends made
      obtain ⟨os, made', rfl⟩ := Prog.zoom_ends ends
      have admits := c.admits out.1 s.sys.os
      rw [show (c.make out.1 s.sys.os).state = os from made'.state_eq] at admits
      exact .inr ⟨out.2, ref, by simp only [keeping, front, kept]; rfl, c.keeps.ok kept, admits, rfl, rfl⟩

theorem Kept.ref_len {name : String} {ref : NameRef} (h : c.Kept s name ref s') :
    ref.len = (utf8 name).length := by
  rw [← h.reads, Names.read_length]

theorem Kept.labelled {name : String} {ref : NameRef} (h : c.Kept s name ref s') (start : s.Labelled) :
    s'.Labelled where
  numbered := h.admits.enrols.numbered start.numbered
  zero := by
    have other : 0 ≠ s.sys.os.processIdCounter := start.numbered.pos.ne
    rw [h.name_eq, h.launched_eq, Function.update_of_ne other, Function.update_of_ne other]
    exact start.zero
  measured id := by
    rw [h.name_eq, h.launched_eq]
    by_cases own : id = s.sys.os.processIdCounter
    · rw [own, Function.update_self, Function.update_self, h.ref_len]
    · rw [Function.update_of_ne own, Function.update_of_ne own]
      exact start.measured id

/-- A process that was in the table keeps its name exactly if nobody writes over it. -/
theorem Kept.shown_old {name : String} {ref : NameRef} (h : c.Kept s name ref s') (start : s.Labelled)
    {id : Nat} (mem : id ∈ s.sys.os.ids) (shown : s.Shown id) :
    s'.Shown id ↔ s'.names.read (s.name id) = s.names.read (s.name id) := by
  have other : id ≠ s.sys.os.processIdCounter :=
    (start.numbered.below id (List.mem_append_right _ mem)).ne
  unfold Shown
  rw [h.name_eq, h.launched_eq, Function.update_of_ne other, Function.update_of_ne other, shown.1]
  exact and_iff_left shown.2

theorem Kept.shown_new {name : String} {ref : NameRef} (h : c.Kept s name ref s') :
    s'.Shown s.sys.os.processIdCounter ↔ (utf8 name).length ≤ entryNameRoom := by
  unfold Shown
  rw [h.name_eq, h.launched_eq, Function.update_self, Function.update_self]
  exact and_iff_right h.reads

theorem Kept.shown_zero {name : String} {ref : NameRef} (h : c.Kept s name ref s') (start : s.Labelled) :
    s'.Shown 0 := by
  obtain ⟨text, launched⟩ := (h.labelled start).zero
  unfold Shown
  rw [text, launched]
  exact ⟨rfl, Nat.zero_le _⟩

theorem legible_iff (ran : (c.run s).Ends s') (start : s.Labelled) (legible : s.Legible) :
    s'.Legible ↔ c.Careful s := by
  rcases run_cases ran with ⟨nothing, rfl⟩ | ⟨name, ref, kept⟩
  · refine iff_of_true legible fun q mem => ?_
    cases nothing.symm.trans mem
  constructor
  · intro legible' q mem
    obtain rfl : (name, s'.names) = q := Option.some.inj (kept.keeping.symm.trans mem)
    refine ⟨fun id mem => ?_, fun created => ?_⟩
    · exact (kept.shown_old start mem (legible id mem)).mp
        (legible' id ((kept.admits.ids id).mpr (.inr mem)))
    · exact kept.shown_new.mp (legible' _ ((kept.admits.ids _).mpr (.inl created)))
  · intro careful id mem
    obtain ⟨undisturbed, room⟩ := careful (name, s'.names) kept.keeping
    rcases (kept.admits.ids id).mp mem with new | old
    · rcases Os.mem_newIds new with rfl | rfl
      · exact kept.shown_zero start
      · exact kept.shown_new.mpr (room new)
    · exact (kept.shown_old start old (legible id old)).mpr (undisturbed id old)

theorem labelled_run (ran : (c.run s).Ends s') (start : s.Labelled) : s'.Labelled := by
  rcases run_cases ran with ⟨-, rfl⟩ | ⟨name, ref, kept⟩
  · exact start
  · exact kept.labelled start

end Creation

/-! ## Runs -/

/-- The calls that may launch a process. -/
inductive NameCall where
  | exec (programName : String) (last : LaunchEnd)
  | execve (pathPtr pathLen : Nat) (argvError : Option Status) (last : LaunchEnd)
  | spawn (pathPtr pathLen : Nat) (argvError : Option Status) (last : LaunchEnd)
  | serviceSpawn (descPtr : Nat) (desc : Except Status ServiceDescriptor) (frame : Nat) (last : LaunchEnd)
      (handoff : Option Status)
  | procMgmtCreate (parentPid namePtr l0Pa : Nat) (initError : Option Status)
  | processCreate (initError : Option Status)
  | loadBinary (vmoError : Option Status) (last : LaunchEnd)
  | loader (last : LaunchEnd) (handoff : Option Status)

def NameCall.creation (image : List UInt8) : NameCall → Creation
  | .exec programName last => .sysExec image programName last
  | .execve pathPtr pathLen argvError last => .sysExecve image pathPtr pathLen argvError last
  | .spawn pathPtr pathLen argvError last => .sysSpawn image pathPtr pathLen argvError last
  | .serviceSpawn descPtr desc frame last handoff => .sysServiceSpawn image descPtr desc frame last handoff
  | .procMgmtCreate parentPid namePtr l0Pa initError => .procMgmtCreate parentPid namePtr l0Pa initError
  | .processCreate initError => .sysProcessCreate initError
  | .loadBinary vmoError last => .sysLoadBinary vmoError last
  | .loader last handoff => .launchLoader image last handoff

/-- One of these calls, any other call, or other bytes on the kernel stacks. -/
inductive NameOp where
  | launch (call : NameCall)
  | other (op : WaitOp)
  | stack (mem : Mem)

namespace NameOp

open NamedSys

def perform (image : List UInt8) : NameOp → NamedM Unit
  | .launch call => (call.creation image).run
  | .other op => onSys op.perform
  | .stack mem => Prog.modify fun s => { s with names.stack := mem }

def Enabled (s : NamedSys) : NameOp → Prop
  | .other op => ¬ op.Creates ∧ op.Enabled s.sys
  | _ => True

instance (s : NamedSys) : DecidablePred (Enabled s) := fun op =>
  match op with
  | .launch _ | .stack _ => .isTrue trivial
  | .other op => inferInstanceAs (Decidable (¬ op.Creates ∧ op.Enabled s.sys))

/-- The calls over a given image of the root file system. -/
def system (image : List UInt8) : Stepper NamedSys Status NameOp := ⟨perform image, Enabled⟩

instance (image : List UInt8) (s : NamedSys) (op : NameOp) : Decidable ((system image).Enabled s op) :=
  inferInstanceAs (Decidable (Enabled s op))

/-- No name in use is overwritten, and no process is launched under a name that its entry has no room for. -/
def Careful (image : List UInt8) (s : NamedSys) : NameOp → Prop
  | .launch call => (call.creation image).Careful s
  | .other _ => True
  | .stack mem => s.Undisturbed { s.names with stack := mem }

instance (image : List UInt8) (s : NamedSys) : DecidablePred (Careful image s) := fun op =>
  match op with
  | .launch call => inferInstanceAs (Decidable ((call.creation image).Careful s))
  | .other _ => .isTrue trivial
  | .stack mem => inferInstanceAs (Decidable (s.Undisturbed { s.names with stack := mem }))

variable {image : List UInt8} {s₀ s s' : NamedSys} {op : NameOp}

/-- The names are as before, and the table has no id that it did not have. -/
structure Ignores (s s' : NamedSys) : Prop where
  numbered : s.sys.os.Numbered → s'.sys.os.Numbered
  ids : s'.sys.os.ids ⊆ s.sys.os.ids
  names : s'.names = s.names
  name : s'.name = s.name
  launched : s'.launched = s.launched

theorem other_ignores {op : WaitOp} (step : (system image).Steps (.other op) s s') : Ignores s s' := by
  have ran : (onSys op.perform s).Ends s' := step.ran
  obtain ⟨sys, ended, rfl⟩ := Prog.zoom_ends ran
  have inner : WaitOp.system.Steps op s.sys sys := ⟨step.enabled.2, ended⟩
  refine ⟨WaitOp.numbered_step inner, fun id mem => ?_, rfl, rfl, rfl⟩
  rcases WaitOp.step_cases inner with ⟨z, took⟩ | enrols
  · exact (took.perm.map (·.id)).mem_iff.mpr (List.mem_cons_of_mem _ mem)
  · exact (enrols.fresh id mem).resolve_right step.enabled.1

theorem labelled_step (step : (system image).Steps op s s') (start : s.Labelled) : s'.Labelled := by
  cases op with
  | launch call => exact Creation.labelled_run step.ran start
  | other op =>
    have ignores := other_ignores step
    refine ⟨ignores.numbered start.numbered, ?_, ?_⟩
    · rw [ignores.name, ignores.launched]
      exact start.zero
    · rw [ignores.name, ignores.launched]
      exact start.measured
  | stack mem =>
    cases step.ran
    exact ⟨start.numbered, start.zero, start.measured⟩

theorem legible_step (step : (system image).Steps op s s') (start : s.Labelled) (legible : s.Legible) :
    s'.Legible ↔ Careful image s op := by
  cases op with
  | launch call => exact Creation.legible_iff step.ran start legible
  | other op =>
    have ignores := other_ignores step
    refine iff_of_true (fun id mem => ?_) trivial
    have shown := legible id (ignores.ids mem)
    unfold Shown at shown ⊢
    rwa [ignores.names, ignores.name, ignores.launched]
  | stack mem =>
    cases step.ran
    refine forall_congr' fun id => forall_congr' fun mem => ?_
    have shown := legible id mem
    unfold Shown at shown ⊢
    rw [shown.1]
    exact and_iff_left shown.2

/-- Before the first process is launched, over any memory. -/
def boot (mm : Mm) (space : Nat → Space) (stack : Mem) : NamedSys where
  sys := ⟨Os.boot, mm, space⟩
  names := ⟨fun _ _ => 0, fun _ => 0, 0, stack⟩
  name _ := .text []
  launched _ := []

theorem boot_labelled (mm : Mm) (space : Nat → Space) (stack : Mem) : (boot mm space stack).Labelled :=
  ⟨Os.boot_numbered, ⟨rfl, rfl⟩, fun _ => rfl⟩

theorem boot_legible (mm : Mm) (space : Nat → Space) (stack : Mem) : (boot mm space stack).Legible :=
  fun _ mem => nomatch mem

theorem labelled_run {cond : NamedSys → NameOp → Prop} {mm : Mm} {space : Nat → Space} {stack : Mem}
    (run : (system image).Run cond (boot mm space stack) s) : s.Labelled :=
  run.invariant (boot_labelled mm space stack) fun _ _ _ labelled _ step => labelled_step step labelled

theorem legible_run {mm : Mm} {space : Nat → Space} {stack : Mem}
    (run : (system image).Run (Careful image) (boot mm space stack) s) : s.Legible := by
  have both : s.Labelled ∧ s.Legible := by
    refine run.invariant (I := fun s => s.Labelled ∧ s.Legible)
      ⟨boot_labelled mm space stack, boot_legible mm space stack⟩ ?_
    rintro op u u' ⟨labelled, legible⟩ careful step
    exact ⟨labelled_step step labelled, (legible_step step labelled legible).mpr careful⟩
  exact both.2

/-- In every run of careful steps the list is faithful, and it stays so exactly with another such step. -/
theorem listing_iff {mm : Mm} {space : Nat → Space} {stack : Mem}
    (run : (system image).Run (Careful image) (boot mm space stack) s) :
    s.Faithful ∧ ∀ op s', (system image).Steps op s s' → (s'.Faithful ↔ Careful image s op) := by
  have labelled : s.Labelled := labelled_run run
  have legible : s.Legible := legible_run run
  refine ⟨labelled.faithful_iff.mpr legible, fun op s' step => ?_⟩
  exact (labelled_step step labelled).faithful_iff.trans (legible_step step labelled legible)

/-- A root file system with one file. -/
def loaderImage : List UInt8 := packRootfs [⟨"system/bin/loader", []⟩]

/-- Two strings in a page at 0, and tables that map it. -/
def strings : Mem := fun x =>
  if x = 4096 then 3 else if x = 0 then 1 else if x = 8 then 97 else if x = 16 then 98 else 0

def stringsMm : Mm := ⟨strings, 0, 0, 0, fun _ => .free, [], ⟨Slots.empty, 0⟩, 0, []⟩

def stringsSpace (_ : Nat) : Space := { Space.newDummy with tree := ⟨4096, [], 0, true⟩ }

def first : NamedSys := boot stringsMm stringsSpace fun _ => 0

/-- The loader creates a process under the name "a". -/
def created : List NameOp := [.launch (.loader .done none),
  .other (.elsewhere (.task .run) stringsMm stringsSpace), .launch (.procMgmtCreate 1 8 8192 none)]

/-- A call of `PROC_MGMT_CREATE` with the name "b" and no root. -/
def failing : NameOp := .launch (.procMgmtCreate 1 16 0 none)

theorem listing_iff_created : ∃ s s', (system loaderImage).Run (Careful loaderImage) first s ∧
    s.sys.os.ids = [1, 2] ∧ s.Faithful ∧ (system loaderImage).Steps failing s s' ∧ ¬ s'.Faithful := by
  let ops : List NameOp := created ++ List.replicate 7 failing
  have run : (system loaderImage).Run (Careful loaderImage) first ((system loaderImage).after first ops) :=
    Stepper.Run.start.follow (by decide +kernel)
  have step : (system loaderImage).Steps failing ((system loaderImage).after first ops) _ :=
    ⟨trivial, Outcome.ends_state (by decide +kernel)⟩
  obtain ⟨faithful, exact_step⟩ := listing_iff run
  refine ⟨_, _, run, by decide +kernel, faithful, step, fun still => ?_⟩
  exact absurd ((exact_step _ _ step).mp still) (by decide +kernel)

/-- Eight failing calls later, the process "a" is listed as "b". -/
theorem name_overwritten : ∃ s, (system loaderImage).Run (fun _ _ => True) first s ∧
    s.launched 2 = utf8 "a" ∧ s.names.read (s.name 2) = utf8 "b" ∧ ¬ s.Faithful := by
  let ops : List NameOp := created ++ List.replicate 8 failing
  have run : (system loaderImage).Run (fun _ _ => True) first ((system loaderImage).after first ops) :=
    Stepper.Run.start.follow (by decide +kernel)
  refine ⟨_, run, by decide +kernel, by decide +kernel, fun faithful => ?_⟩
  exact absurd ((labelled_run run).faithful_iff.mp faithful) (by decide +kernel)

end NameOp

end CapsuleOS
