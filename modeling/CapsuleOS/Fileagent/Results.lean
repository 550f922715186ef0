import CapsuleOS.Fileagent.Serving

/-!
# Results of the calls

The numbers and the data that the calls of the server can return, and that no file ever gets longer than its
array. The second needs no tree: it holds after any requests.
-/
namespace CapsuleOS.Fileagent

open Lib

/-! ## What the calls can return -/

section Returned

variable {k : Fin maxSessions} {s : Vfs} {fd : Nat}

/-- What a call returns is in `P`. -/
def Returns {α : Type} (m : VfsM (Option α)) (s : Vfs) (P : α → Prop) : Prop :=
  Prog.Post m s (fun r _ => ∀ a ∈ r, P a) fun _ => True

theorem Returns.of_ok {α : Type} {m : VfsM (Option α)} {P : α → Prop} (h : Returns m s P) {a : α} {t : Vfs}
    (run : Prog.attempt m s = .ok (.ok (some a)) t) : P a := by
  cases ran : m s with
  | ok r u =>
    rw [Prog.attempt_ok ran] at run
    cases run
    exact h.ok _ _ ran a rfl
  | err e u =>
    rw [Prog.attempt_err ran] at run
    cases run
  | fault u =>
    rw [Prog.attempt_fault ran] at run
    cases run

theorem through_returns {α : Type} {size : α → Nat} {act : OpenFile → FsM (Option α)} {P : α → Prop}
    (acts : ∀ f fs, Prog.Post (act f) fs (fun r _ => ∀ a ∈ r, P a) fun _ => True) :
    Returns (Vfs.through size act k fd) s P := by
  have nothing : ∀ {a : α}, a ∈ (none : Option α) → P a := by simp
  refine .get_bind ?_
  split
  · exact .pure fun _ => nothing
  · split_ifs with inside
    · split
      · exact .pure fun _ => nothing
      · rename_i sess here f found
        refine (Vfs.onFs_post (Q := fun r _ => ∀ a ∈ r, P a) (acts f s.fs)).bind fun r u holds => ?_
        cases r with
        | none => exact .pure fun _ => nothing
        | some a =>
          dsimp only
          split_ifs
          · exact .modify_bind (.pure holds)
          · exact .pure holds
    · exact .of_fault rfl trivial

theorem doOpen_returns {path : List UInt8} {flags : Nat} : Returns (Vfs.doOpen k path flags) s (· < 2 ^ 31) := by
  have nothing : ∀ {a : Nat}, a ∈ (none : Option Nat) → a < 2 ^ 31 := by simp
  refine .get_bind ?_
  split
  · exact .pure fun _ => nothing
  · split_ifs
    · exact .pure (by simp [ttyFd])
    · refine (Prog.Post.any _ _).bind fun r u _ => ?_
      cases r with
      | none => exact .throw trivial
      | some idx =>
        dsimp only
        split
        · exact .throw trivial
        · rename_i fd _
          refine .modify_bind (.pure ?_)
          have lt := fd.isLt
          unfold maxFds at lt
          simpa using lt.trans (by norm_num)

theorem doWrite_returns {data : List UInt8} : Returns (Vfs.doWrite k fd data) s (· ≤ data.length) := by
  unfold Vfs.doWrite
  split_ifs
  · exact .pure (by simp)
  · refine through_returns fun f fs => ?_
    cases run : Fs.write f.nodeIdx.val data f.offset fs with
    | ok r fs' =>
      refine .of_ok ⟨r, fs', run, fun n mem => ?_⟩
      obtain rfl : r = some n := mem
      exact (write_ok run).1.trans_le (min_le_left _ _)
    | err e fs' => exact .of_err run trivial
    | fault fs' => exact .of_fault run trivial

theorem removeAt_returns {path : List UInt8} {refused : VfsM (Option Nat)}
    (quiet : ∀ s, Returns refused s (· = 0)) : Returns (Vfs.removeAt path refused) s (· = 0) := by
  refine (Prog.Post.any _ _).bind fun r u _ => ?_
  cases r with
  | none => exact .throw trivial
  | some idx =>
    refine .get_bind ?_
    cases u.fs.parentOf idx with
    | none => exact .throw trivial
    | some parent =>
      refine (Prog.Post.any _ _).bind fun removed v _ => ?_
      cases removed with
      | true => exact .pure (by simp)
      | false => exact quiet v

theorem doRead_returns {cap : Nat} : Returns (Vfs.doRead k fd cap) s (·.length ≤ cap) := by
  unfold Vfs.doRead
  split_ifs
  · exact .pure (by simp)
  · refine through_returns fun f fs => ?_
    refine look_post trivial fun r found bytes mem => ?_
    obtain rfl : fs.read f.nodeIdx cap f.offset = r := Option.some.inj found
    simp only [Fs.read, index?_val, Option.bind_eq_bind, Option.bind_some] at mem
    split_ifs at mem
    · cases mem
    · cases mem
      exact Nat.zero_le _
    · cases mem
      rw [Mem.load_length]
      exact min_le_left _ _

theorem listLoop_length {fs : Fs} {cap rounds : Nat} {first : Bool} {l : Option Idx} {written names : List UInt8}
    (listed : fs.listLoop cap rounds first l written = some names) (fits : written.length ≤ cap) :
    names.length ≤ cap := by
  induction rounds generalizing l first written with
  | zero =>
    cases l with
    | none =>
      cases listed
      exact fits
    | some x => cases listed
  | succ rounds ih =>
    cases l with
    | none =>
      cases listed
      exact fits
    | some x =>
      rw [Fs.listLoop] at listed
      by_cases full : !first ∧ written.length ≥ cap
      · rw [if_pos full] at listed
        cases listed
        exact fits
      · rw [if_neg full] at listed
        have room : (if first then written else written ++ [10]).length ≤ cap := by
          cases first with
          | true => exact fits
          | false =>
            have lt : written.length < cap := by simpa using full
            simpa using lt
        refine ih listed ?_
        rw [List.length_append, List.length_take]
        omega

theorem doReaddir_returns {cap : Nat} : Returns (Vfs.doReaddir k fd cap) s (·.length ≤ cap) := by
  refine through_returns fun f fs => ?_
  refine look_post trivial fun r found names mem => ?_
  obtain rfl : r = some names := mem
  simp only [Fs.readdirNames, index?_val] at found
  split_ifs at found
  · cases found
  · obtain ⟨listed, looped, same⟩ := Option.map_eq_some_iff.mp found
    cases same
    exact listLoop_length looped (Nat.zero_le _)

theorem through_noErr {α : Type} {size : α → Nat} {act : OpenFile → FsM (Option α)} (acts : ∀ f, Prog.NoErr (act f)) :
    Prog.NoErr (Vfs.through size act k fd) := by
  refine Prog.NoErr.get.bind fun s => ?_
  split
  · exact .pure _
  · split_ifs
    · split
      · exact .pure _
      · refine (Prog.NoErr.zoom (acts _)).bind fun r => ?_
        cases r with
        | none => exact .pure _
        | some a =>
          dsimp only
          split_ifs
          · exact (Prog.NoErr.modify _).bind fun _ => .pure _
          · exact .pure _
    · exact fun _ _ _ h => by cases h

theorem look_noErr {α : Type} (f : Fs → Option α) : Prog.NoErr (look f) := by
  intro s e t h
  unfold look at h
  split at h <;> cases h

theorem doRead_noErr {cap : Nat} : Prog.NoErr (Vfs.doRead k fd cap) := by
  unfold Vfs.doRead
  split_ifs
  · exact .pure _
  · exact through_noErr fun _ => look_noErr _

theorem doReaddir_noErr {cap : Nat} : Prog.NoErr (Vfs.doReaddir k fd cap) := through_noErr fun _ => look_noErr _

theorem NoErr.attempt_ne {α : Type} {m : VfsM α} (quiet : Prog.NoErr m) {r : Except Status α} {t : Vfs}
    (run : Prog.attempt m s = .ok r t) : ∀ e, r ≠ .error e := by
  rintro e rfl
  cases ran : m s with
  | ok a u =>
    rw [Prog.attempt_ok ran] at run
    cases run
  | err e' u => exact quiet s e' u ran
  | fault u =>
    rw [Prog.attempt_fault ran] at run
    cases run

/-- No file is longer than its array. -/
def Bounded (fs : Fs) : Prop := ∀ i, fs.sizes i ≤ fileSize

theorem doStat_size (bounded : Bounded s.fs) {path : List UInt8} {r : Except Status (Option (Option (Nat × NodeType)))}
    {t : Vfs} (run : Prog.attempt (Vfs.doStat path) s = .ok r t) :
    ∀ size ntype, r = .ok (some (some (size, ntype))) → size < 2 ^ 63 := by
  have post : Prog.Post (Vfs.doStat path) s (fun r _ => ∀ size ntype, r = some (some (size, ntype)) → size ≤ fileSize)
      fun _ => True := by
    refine (Vfs.onFs_post (Q := fun _ s' => s'.fs = s.fs) (look_post trivial fun _ _ => rfl)).bind fun r u same => ?_
    cases r with
    | none => exact .pure fun _ _ eq => by cases eq
    | some idx =>
      refine .get_bind (.pure fun size ntype eq => ?_)
      obtain ⟨_, _, pair⟩ := Option.map_eq_some_iff.mp (Option.some.inj eq)
      cases pair
      exact same ▸ bounded idx
  rintro size ntype rfl
  cases ran : Vfs.doStat path s with
  | ok a u =>
    rw [Prog.attempt_ok ran] at run
    cases run
    exact (post.ok _ _ ran size ntype rfl).trans_lt (by unfold fileSize; norm_num)
  | err e u =>
    rw [Prog.attempt_err ran] at run
    cases run
  | fault u =>
    rw [Prog.attempt_fault ran] at run
    cases run

end Returned

/-! ## Messages -/

/-- The message that answers a read or a listing. -/
def dataMessage : Except Status (Option (List UInt8)) → List UInt8
  | .ok (some data) => leBytes (BitVec.ofInt 64 data.length) ++ data.take inlineDataMax
  | .ok none => leBytes (BitVec.ofInt 64 (-1))
  | .error e => leBytes (BitVec.ofInt 64 e.code)

section Messages

variable {k : Fin maxSessions}

theorem respondData_eq (m : VfsM (Option (List UInt8))) : Service.respondData k m = (do
    let r ← Service.call m
    Service.channelWrite k (dataMessage r)) := by
  unfold Service.respondData
  congr 1
  funext r
  rcases r with e | _ | data <;> rfl

end Messages

/-! ## One message -/

section Sends

variable {k : Fin maxSessions} {s : Service}

/-- One message was sent, on the session `k`. -/
def Sends (m : ServiceM Unit) (k : Fin maxSessions) (s : Service) : Prop :=
  Prog.Post m s (fun _ t => ∃ resp, t.sent = s.sent ++ [(k, resp)]) fun _ => True

theorem call_quiet {α : Type} (m : VfsM α) : Prog.Post (Service.call m) s (fun _ t => t.sent = s.sent) fun _ => True :=
  (Prog.Post.any (Prog.attempt m) s.vfs).zoom (fun _ _ _ => rfl) fun _ _ => trivial

theorem channelWrite_sends {t : Service} (same : t.sent = s.sent) (bytes : List UInt8) :
    Prog.Post (Service.channelWrite k bytes) t (fun _ u => ∃ resp, u.sent = s.sent ++ [(k, resp)]) fun _ => True :=
  .modify ⟨bytes, congrArg (· ++ [(k, bytes)]) same⟩

theorem respond_sends (m : VfsM (Option Nat)) : Sends (Service.respond k m) k s :=
  (call_quiet m).bind fun _ _ same => channelWrite_sends same _

theorem respondData_sends (m : VfsM (Option (List UInt8))) : Sends (Service.respondData k m) k s :=
  (respondData_eq m) ▸ (call_quiet m).bind fun _ _ same => channelWrite_sends same _

theorem handleCmd_sends {buf : List UInt8} (some_byte : buf ≠ []) : Sends (Service.handleCmd k buf) k s := by
  cases buf with
  | nil => exact absurd rfl some_byte
  | cons cmd rest =>
    unfold Service.handleCmd
    dsimp only
    split
    · exact respond_sends _
    · exact respond_sends _
    · exact respondData_sends _
    · have quiet : Prog.Post (Service.payload (vfsWrite :: rest)) s (fun _ t => t.sent = s.sent) fun _ => True := by
        unfold Service.payload
        dsimp only
        split_ifs
        · exact .pure rfl
        · exact .of_fault rfl trivial
        · exact .pure rfl
        · exact .pure rfl
      refine quiet.bind fun data t same => ?_
      exact (call_quiet _).bind fun _ _ same' => channelWrite_sends (same'.trans same) _
    · exact respond_sends _
    · exact respond_sends _
    · exact respond_sends _
    · exact respondData_sends _
    · exact (call_quiet _).bind fun _ _ same => channelWrite_sends same _
    · exact channelWrite_sends rfl _

theorem call_noErr {α : Type} (m : VfsM α) : Prog.NoErr (Service.call m) := .zoom (.attempt m)

theorem respond_noErr (m : VfsM (Option Nat)) : Prog.NoErr (Service.respond k m) :=
  (call_noErr m).bind fun _ => .modify _

theorem respondData_noErr (m : VfsM (Option (List UInt8))) : Prog.NoErr (Service.respondData k m) :=
  (respondData_eq m) ▸ (call_noErr m).bind fun _ => .modify _

/-- A request is handled, or it is the end of the server. -/
theorem handleCmd_noErr (buf : List UInt8) : Prog.NoErr (Service.handleCmd k buf) := by
  cases buf with
  | nil => exact .pure _
  | cons cmd rest =>
    unfold Service.handleCmd
    dsimp only
    split
    · exact respond_noErr _
    · exact respond_noErr _
    · exact respondData_noErr _
    · have quiet : Prog.NoErr (Service.payload (vfsWrite :: rest)) := by
        unfold Service.payload
        dsimp only
        split_ifs
        · exact .pure _
        · exact fun _ _ _ h => by cases h
        · exact .pure _
        · exact .pure _
      exact quiet.bind fun _ => respond_noErr _
    · exact respond_noErr _
    · exact respond_noErr _
    · exact respond_noErr _
    · exact respondData_noErr _
    · exact (call_noErr _).bind fun _ => .modify _
    · exact .modify _

end Sends

/-! ## Any requests -/

section Runs

/-- Files do not get longer than their arrays. -/
def KeepsBound (fs fs' : Fs) : Prop := Bounded fs → Bounded fs'

instance : Std.Refl KeepsBound := ⟨fun _ => id⟩

instance : IsTrans Fs KeepsBound := ⟨fun _ _ _ first second => second ∘ first⟩

theorem within_of_takes {α : Type} {m : FsM α} (takes : ∀ s, ∃ taken,
    Prog.Post m s (fun _ s' => Takes taken s s') (fun s' => Takes taken s s')) : Prog.Within KeepsBound m := by
  intro s bounded i
  obtain ⟨taken, post⟩ := takes s
  exact (post.state.sizes i).trans (bounded i)

theorem within_fsLook {α : Type} (f : Fs → Option α) : Prog.Within KeepsBound (look f) :=
  within_of_takes fun _ => ⟨_, Vfs.lookUp_takes⟩

/-- A call of the session `k` changes no other session. -/
structure VfsKeeps (k : Fin maxSessions) (s t : Vfs) : Prop where
  bound : KeepsBound s.fs t.fs
  others : ∀ j ≠ k, t.sessions j = s.sessions j

variable {k : Fin maxSessions} {fd : Nat}

instance : Std.Refl (VfsKeeps k) := ⟨fun _ => ⟨id, fun _ _ => rfl⟩⟩

instance : IsTrans Vfs (VfsKeeps k) where
  trans _ _ _ first second :=
    ⟨second.bound ∘ first.bound, fun j ne => (second.others j ne).trans (first.others j ne)⟩

theorem vfsKeeps_setFd (s : Vfs) (sess : Session) (fd : Fin maxFds) (f : Option OpenFile) :
    VfsKeeps k s (s.setFd k sess fd f) := ⟨id, fun _ ne => Function.update_of_ne ne _ _⟩

theorem within_onFs {α : Type} {m : FsM α} (h : Prog.Within KeepsBound m) : Prog.Within (VfsKeeps k) (Vfs.onFs m) :=
  h.zoom fun _ _ kept => ⟨kept, fun _ _ => rfl⟩

theorem within_through {α : Type} {size : α → Nat} {act : OpenFile → FsM (Option α)}
    (acts : ∀ f, Prog.Within KeepsBound (act f)) : Prog.Within (VfsKeeps k) (Vfs.through size act k fd) := by
  refine Prog.Within.get.bind fun s => ?_
  split
  · exact .pure _
  · split_ifs
    · split
      · exact .pure _
      · refine (within_onFs (acts _)).bind fun r => ?_
        cases r with
        | none => exact .pure _
        | some a =>
          dsimp only
          split_ifs
          · exact Prog.Within.bind (.modify fun s => vfsKeeps_setFd s _ _ _) fun _ => .pure _
          · exact .pure _
    · exact .fault

theorem within_doOpen (path : List UInt8) (flags : Nat) : Prog.Within (VfsKeeps k) (Vfs.doOpen k path flags) := by
  refine Prog.Within.get.bind fun s => ?_
  split
  · exact .pure _
  · split_ifs
    · exact .pure _
    · refine (within_onFs (within_of_takes fun _ => ⟨_, Vfs.nodeFor_takes⟩)).bind fun r => ?_
      cases r with
      | none => exact .throw _
      | some idx =>
        dsimp only
        split
        · exact .throw _
        · exact Prog.Within.bind (.modify fun s => vfsKeeps_setFd s _ _ _) fun _ => .pure _

theorem within_doClose : Prog.Within (VfsKeeps k) (Vfs.doClose k fd) := by
  unfold Vfs.doClose
  by_cases tty : fd = ttyFd
  · rw [if_pos tty]
    exact .pure _
  · rw [if_neg tty]
    refine Prog.Within.get.bind fun s => ?_
    split
    · exact .pure _
    · split_ifs
      · exact Prog.Within.bind (.modify fun s => vfsKeeps_setFd s _ _ _) fun _ => .pure _
      · exact .pure _

theorem within_doRead (cap : Nat) : Prog.Within (VfsKeeps k) (Vfs.doRead k fd cap) := by
  unfold Vfs.doRead
  split_ifs
  · exact .pure _
  · exact within_through fun _ => within_fsLook _

theorem within_doWrite (data : List UInt8) : Prog.Within (VfsKeeps k) (Vfs.doWrite k fd data) := by
  unfold Vfs.doWrite
  split_ifs
  · exact .pure _
  · refine within_through fun f s bounded => ?_
    have stays : Stays s (Fs.write f.nodeIdx.val data f.offset s).state :=
      (write_post.mono (fun _ _ both => both.1) fun _ stays => stays).state
    exact stays.bounded bounded

theorem within_doReaddir (cap : Nat) : Prog.Within (VfsKeeps k) (Vfs.doReaddir k fd cap) :=
  within_through fun _ => within_fsLook _

theorem within_doMkdir (path : List UInt8) : Prog.Within (VfsKeeps k) (Vfs.doMkdir path) :=
  within_onFs (within_of_takes fun _ => ⟨_, mkdirPath_takes⟩)

theorem within_removeAt {path : List UInt8} {refused : VfsM (Option Nat)} (quiet : Prog.Within (VfsKeeps k) refused) :
    Prog.Within (VfsKeeps k) (Vfs.removeAt path refused) := by
  refine (within_onFs (within_fsLook _)).bind fun r => ?_
  cases r with
  | none => exact .throw _
  | some idx =>
    refine Prog.Within.get.bind fun s => ?_
    cases s.fs.parentOf idx with
    | none => exact .throw _
    | some parent =>
      refine (within_onFs (within_of_takes fun _ => ⟨[], remove_takes⟩)).bind fun removed => ?_
      cases removed with
      | true => exact .pure _
      | false => exact quiet

theorem within_doStat (path : List UInt8) : Prog.Within (VfsKeeps k) (Vfs.doStat path) := by
  refine (within_onFs (within_fsLook _)).bind fun r => ?_
  cases r with
  | none => exact .pure _
  | some idx => exact Prog.Within.get.bind fun _ => .pure _

/-- On the state of the server with what it has sent. -/
def ServiceKeeps (k : Fin maxSessions) (s t : Service) : Prop := VfsKeeps k s.vfs t.vfs

instance : Std.Refl (ServiceKeeps k) := ⟨fun s => Std.Refl.refl (r := VfsKeeps k) s.vfs⟩

instance : IsTrans Service (ServiceKeeps k) := ⟨fun _ _ _ first second => IsTrans.trans (r := VfsKeeps k) _ _ _ first second⟩

theorem within_call {α : Type} {m : VfsM α} (h : Prog.Within (VfsKeeps k) m) : Prog.Within (ServiceKeeps k) (Service.call m) :=
  h.attempt.zoom fun _ _ kept => kept

theorem within_channelWrite (bytes : List UInt8) : Prog.Within (ServiceKeeps k) (Service.channelWrite k bytes) :=
  .modify fun s => Std.Refl.refl (r := VfsKeeps k) s.vfs

theorem within_respond {m : VfsM (Option Nat)} (h : Prog.Within (VfsKeeps k) m) :
    Prog.Within (ServiceKeeps k) (Service.respond k m) := (within_call h).bind fun _ => within_channelWrite _

theorem within_respondData {m : VfsM (Option (List UInt8))} (h : Prog.Within (VfsKeeps k) m) :
    Prog.Within (ServiceKeeps k) (Service.respondData k m) :=
  (respondData_eq m) ▸ (within_call h).bind fun _ => within_channelWrite _

theorem within_payload (buf : List UInt8) : Prog.Within (ServiceKeeps k) (Service.payload buf) := by
  unfold Service.payload
  dsimp only
  split_ifs
  · exact .pure _
  · exact .fault
  · exact .pure _
  · exact .pure _

theorem within_handleCmd (buf : List UInt8) : Prog.Within (ServiceKeeps k) (Service.handleCmd k buf) := by
  cases buf with
  | nil => exact .pure _
  | cons cmd rest =>
    unfold Service.handleCmd
    dsimp only
    split
    · exact within_respond (within_doOpen _ _)
    · exact within_respond within_doClose
    · exact within_respondData (within_doRead _)
    · exact (within_payload _).bind fun _ => within_respond (within_doWrite _)
    · exact within_respond ((within_doMkdir _).bind fun _ => .pure _)
    · exact within_respond (within_removeAt (.throw _))
    · exact within_respond (within_removeAt (.pure _))
    · exact within_respondData (within_doReaddir _)
    · exact (within_call (within_doStat _)).bind fun _ => within_channelWrite _
    · exact within_channelWrite _

/-- A connection and the end of one leave the files. -/
theorem call_fs {α : Type} {m : VfsM α} (same : ∀ s, (m s).state.fs = s.fs) (s : Service) :
    (Service.call m s).state.vfs.fs = s.vfs.fs := by
  have here := same s.vfs
  unfold Service.call Prog.zoom Prog.attempt
  cases run : m s.vfs <;> rw [run] at here <;> exact here

theorem connect_fs (s : Vfs) : (Vfs.connect s).state.fs = s.fs := by
  rw [Vfs.connect, Prog.bind_ok (Prog.get_apply s)]
  cases (List.finRange maxSessions).find? fun k => (s.sessions k).isNone <;> rfl

theorem bounded_run {s : Service} (run : ServeOp.system.Run (fun _ _ => True) .start s) : Bounded s.vfs.fs := by
  have init : Bounded Service.start.vfs.fs := Vfs.start_sound.bounded
  refine run.invariant (I := fun s => Bounded s.vfs.fs) init fun op s s' bounded _ step => ?_
  cases op with
  | connect =>
    have ran : (Service.call Vfs.connect s).Ends s' := Prog.map_ends step.ran
    exact ran.state_eq ▸ (call_fs connect_fs s).symm ▸ bounded
  | hangup k =>
    have ran : (Service.call (Vfs.hangup k) s).Ends s' := Prog.map_ends step.ran
    exact ran.state_eq ▸ (call_fs (fun s => (rfl : (Vfs.hangup k s).state.fs = s.fs)) s).symm ▸ bounded
  | command k buf => exact step.ran.state_eq ▸ (within_handleCmd buf s).bound bounded

end Runs

end CapsuleOS.Fileagent
