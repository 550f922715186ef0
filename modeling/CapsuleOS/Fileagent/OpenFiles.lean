import CapsuleOS.Fileagent.Vfs
import CapsuleOS.Fileagent.TreeRuns

/-!
# What an open file denotes

Descriptors hold bare indices. They keep denoting the nodes that were opened as long as new nodes get
other indices (`VfsOp.takes`); the node opened is gone after a removal, and the calls fail then.
-/
namespace CapsuleOS.Fileagent

open Lib

/-! ## Which indices get new nodes -/

namespace Fs

def slot (s : Fs) : List Idx := (nextSlot s.used s.nextIdx).toList

def createTakes (s : Fs) (parent : Int) (name : List UInt8) : List Idx :=
  if s.createAdds parent name = 0 then [] else s.slot

def createFilePathTakes (s : Fs) (path : List UInt8) : List Idx :=
  match s.fileTarget path with
  | some (some (parent, name)) => s.createTakes parent name
  | _ => []

def mkdirTakes : List (List UInt8) → Idx → Fs → List Idx
  | [], _, _ => []
  | c :: cs, cur, s =>
    match s.childNamed cur c with
    | some (some found) => if s.ntypes found = some .directory then mkdirTakes cs found s else []
    | some none =>
      s.createTakes cur.val c ++
        match createDir cur.val c s with
        | .ok (some new) s' => mkdirTakes cs new s'
        | _ => []
    | none => []

def mkdirPathTakes (s : Fs) (path : List UInt8) : List Idx :=
  s.root.elim [] fun root => mkdirTakes (components (clean path)) root s

end Fs

/-- New nodes are made at these indices only, and no file becomes longer. -/
structure Takes (taken : List Idx) (s s' : Fs) : Prop where
  births : ∀ i ∉ taken, s'.births i = s.births i
  sizes : ∀ i, s'.sizes i ≤ s.sizes i

theorem Takes.refl (taken : List Idx) (s : Fs) : Takes taken s s := ⟨fun _ _ => rfl, fun _ => le_rfl⟩

theorem Takes.trans {taken later : List Idx} {s s' s'' : Fs} (h : Takes taken s s')
    (h' : Takes later s' s'') : Takes (taken ++ later) s s'' where
  births i away := by
    rw [List.mem_append, not_or] at away
    exact (h'.births i away.2).trans (h.births i away.1)
  sizes i := (h'.sizes i).trans (h.sizes i)

section Creation

variable {s : Fs} {taken : List Idx} {idx p : Idx} {name : List UInt8} {ntype : NodeType}

theorem Takes.fill {n : Nat} (mem : idx ∈ taken) :
    Takes taken s (Fs.fill { s with nextIdx := n } idx name ntype p) where
  births i away := Function.update_of_ne (ne_of_mem_of_not_mem mem away).symm _ _
  sizes i := by
    by_cases here : i = idx
    · simp [Fs.fill, here]
    · simp [Fs.fill, Function.update_of_ne here]

/-- Only links change. -/
theorem append_post (h : Takes taken s₀ s) : Prog.Post (Fs.append p idx) s (fun _ s' => Takes taken s₀ s')
    (fun s' => Takes taken s₀ s') := by
  refine .get_bind ?_
  cases s.firstChild p with
  | none => exact .modify ⟨h.births, h.sizes⟩
  | some first =>
    refine (look_post (Q := fun _ s' => s' = s) h fun _ _ => rfl).bind ?_
    rintro last _ rfl
    exact .modify ⟨h.births, h.sizes⟩

theorem setNode_post : Prog.Post (Fs.setNode name ntype p) s (fun _ s' => Takes s.slot s s')
    (fun s' => Takes s.slot s s') := by
  cases next : Fs.nextSlot s.used s.nextIdx with
  | none =>
    refine .congr (Prog.bind_ok (allocIdx_none next)) ?_
    exact .pure (.refl _ s)
  | some idx =>
    have mem : idx ∈ s.slot := by simp [Fs.slot, next]
    refine .congr (Prog.bind_ok (allocIdx_some next)) (.modify_bind ?_)
    refine (append_post (.fill mem)).bind fun _ s' h => .modify_bind (.pure ?_)
    exact ⟨h.births, h.sizes⟩

theorem create_takes {parent : Int} : Prog.Post (Fs.create ntype parent name) s
    (fun _ s' => Takes (s.createTakes parent name) s s')
    (fun s' => Takes (s.createTakes parent name) s s') := by
  have same := Takes.refl (s.createTakes parent name) s
  unfold Fs.create
  cases index : index? parent with
  | none => exact .pure same
  | some p =>
    refine .get_bind ?_
    by_cases dir : s.ntypes p = some .directory
    · simp only [dir, ne_eq, not_true_eq_false, if_false]
      refine (look_post (Q := fun a s' => s = s' ∧ s.childNamed p name = some a) same
        fun a found => ⟨rfl, by simpa only [Fs.findChild, index] using found⟩).bind ?_
      rintro (_ | c) _ ⟨rfl, found⟩
      · have adds : s.createTakes parent name = s.slot := by
          simp [Fs.createTakes, Fs.createAdds, index, dir, found]
        rw [adds]
        exact setNode_post
      · exact .pure same
    · rw [if_pos dir]
      exact .pure same

theorem createFilePath_takes {path : List UInt8} : Prog.Post (Fs.createFilePath path) s
    (fun _ s' => Takes (s.createFilePathTakes path) s s')
    (fun s' => Takes (s.createFilePathTakes path) s s') := by
  have same := Takes.refl (s.createFilePathTakes path) s
  cases found : s.fileTarget path with
  | none => exact .of_fault (Prog.bind_fault (by simp only [look, found])) same
  | some target =>
    refine .congr (Prog.bind_ok (look_some found)) ?_
    simp only [Fs.createFilePathTakes, found] at same ⊢
    cases target with
    | none => exact .pure same
    | some target => exact create_takes

theorem mkdirLoop_takes {cs : List (List UInt8)} {cur : Idx} : Prog.Post (Fs.mkdirLoop cs cur) s
    (fun _ s' => Takes (Fs.mkdirTakes cs cur s) s s') (fun s' => Takes (Fs.mkdirTakes cs cur s) s s') := by
  induction cs generalizing s cur with
  | nil => exact .pure (.refl _ s)
  | cons c cs ih =>
    cases searched : s.childNamed cur c with
    | none => exact .of_fault (Prog.bind_fault (by simp only [look, searched])) (.refl _ s)
    | some found =>
      refine .congr (Prog.bind_ok (look_some searched)) ?_
      simp only [Fs.mkdirTakes, searched]
      cases found with
      | some next =>
        by_cases last : cs = []
        · simp only [last, if_true]
          exact .throw (.refl _ s)
        · simp only [last, if_false]
          refine .get_bind ?_
          by_cases below : s.ntypes next = some .directory
          · simpa only [below, ne_eq, not_true_eq_false, if_false, if_true] using ih
          · simp only [below, ne_eq, not_false_eq_true, if_true]
            exact .throw (.refl _ s)
      | none =>
        have made : Prog.Post (Fs.createDir cur.val c) s _ _ := create_takes
        cases run : Fs.createDir cur.val c s with
        | ok new s' =>
          have first := made.ok new s' run
          refine .congr (Prog.bind_ok run) ?_
          cases new with
          | none => exact .throw (first.trans (.refl _ s'))
          | some new =>
            have rest : Prog.Post (Fs.mkdirLoop cs new) s' _ _ := ih
            exact rest.mono (fun _ _ later => first.trans later) fun _ later => first.trans later
        | err e s' =>
          exact .of_err (Prog.bind_err run) ((made.err e s' run).trans (.refl _ s'))
        | fault s' =>
          exact .of_fault (Prog.bind_fault run) ((made.fault s' run).trans (.refl _ s'))

theorem mkdirPath_takes {path : List UInt8} : Prog.Post (Fs.mkdirPath path) s
    (fun _ s' => Takes (s.mkdirPathTakes path) s s') (fun s' => Takes (s.mkdirPathTakes path) s s') := by
  unfold Fs.mkdirPath
  by_cases nothing : Fs.clean path = []
  · rw [if_pos nothing]
    exact .pure (.refl _ s)
  · rw [if_neg nothing]
    refine .get_bind ?_
    unfold Fs.mkdirPathTakes
    cases s.root with
    | none => exact .throw (.refl _ s)
    | some root => exact mkdirLoop_takes

theorem unlinkLoop_takes {c : Idx} {rounds : Nat} {prev cur : Option Idx} :
    Prog.Post (Fs.unlinkLoop p c rounds prev cur) s (fun _ s' => Takes [] s s') (fun s' => Takes [] s s') := by
  induction rounds generalizing prev cur with
  | zero =>
    cases cur with
    | none => exact .pure (.refl _ s)
    | some cur => exact .of_fault rfl (.refl _ s)
  | succ rounds ih =>
    cases cur with
    | none => exact .pure (.refl _ s)
    | some cur =>
      unfold Fs.unlinkLoop
      by_cases here : cur = c
      · rw [if_pos here]
        refine .modify_bind (.pure ⟨fun i _ => by rw [unlink_births], fun i => ?_⟩)
        have sizes : (s.unlink p c prev).sizes = Function.update s.sizes c 0 := by cases prev <;> rfl
        rw [sizes]
        by_cases removed : i = c
        · simp [removed]
        · rw [Function.update_of_ne removed]
      · rw [if_neg here]
        exact .get_bind ih

theorem remove_takes {parent child : Int} : Prog.Post (Fs.remove parent child) s
    (fun _ s' => Takes [] s s') (fun s' => Takes [] s s') := by
  unfold Fs.remove
  cases index? parent with
  | none => exact .pure (.refl _ s)
  | some p =>
    cases index? child with
    | none => exact .pure (.refl _ s)
    | some c =>
      refine .get_bind ?_
      split_ifs
      · exact .pure (.refl _ s)
      · exact .pure (.refl _ s)
      · exact unlinkLoop_takes

end Creation

/-! ## Reading and writing -/

section Contents

variable {s : Fs} {i : Idx}

/-- No index gets a new node, and the files stay within their arrays. -/
structure Stays (s s' : Fs) : Prop where
  births : s'.births = s.births
  bounded : (∀ i, s.sizes i ≤ fileSize) → ∀ i, s'.sizes i ≤ fileSize

theorem Stays.refl (s : Fs) : Stays s s := ⟨rfl, id⟩

/-- What is read ends with the file. -/
theorem read_length {cap offset : Nat} {bytes : List UInt8} (run : s.read i.val cap offset = some bytes)
    (some_byte : bytes.length > 0) : offset + bytes.length ≤ s.sizes i := by
  simp only [Fs.read, index?_val, Option.bind_eq_bind, Option.bind_some] at run
  split_ifs at run with free behind
  · obtain rfl := Option.some.inj run
    cases some_byte
  · obtain rfl := Option.some.inj run
    rw [Mem.load_length]
    omega

/-- What is written ends within the array. -/
theorem write_ok {data : List UInt8} {offset : Nat} {n : Nat} {s' : Fs}
    (run : Fs.write i.val data offset s = .ok (some n) s') :
    n = min data.length (fileSize - offset) ∧ offset ≤ fileSize ∧ s' =
      { s with
        datas := Function.update s.datas i ((s.datas i).store offset (data.take n))
        sizes := Function.update s.sizes i (max (s.sizes i) (offset + n)) } := by
  simp only [Fs.write, index?_val] at run
  split_ifs at run with other behind
  · simp at run
  · simp only [Outcome.ok.injEq, Option.some.injEq] at run
    obtain ⟨rfl, rfl⟩ := run
    exact ⟨rfl, by omega, rfl⟩

theorem write_none {data : List UInt8} {offset : Nat} {s' : Fs}
    (run : Fs.write i.val data offset s = .ok none s') : s' = s := by
  simp only [Fs.write, index?_val] at run
  split_ifs at run
  · cases run
    rfl
  · simp at run

theorem write_post {data : List UInt8} {offset : Nat} : Prog.Post (Fs.write i.val data offset) s
    (fun r s' => Stays s s' ∧ ∀ n, r = some n → offset + n ≤ fileSize) (fun s' => Stays s s') := by
  cases run : Fs.write i.val data offset s with
  | ok r s' =>
    refine .of_ok ⟨r, s', run, ?_⟩
    match r with
    | none =>
      obtain rfl := write_none run
      exact ⟨.refl _, fun n eq => by cases eq⟩
    | some n =>
      obtain ⟨length, inside, rfl⟩ := write_ok run
      have fits : offset + n ≤ fileSize := by omega
      refine ⟨⟨rfl, fun bounded j => ?_⟩, fun m eq => by cases eq; exact fits⟩
      by_cases here : j = i
      · subst here
        simpa using ⟨bounded j, fits⟩
      · simpa [Function.update_of_ne here] using bounded j
  | err e s' =>
    simp only [Fs.write, index?_val] at run
    split_ifs at run
  | fault s' =>
    refine .of_fault run ?_
    simp only [Fs.write, index?_val] at run
    split_ifs at run
    cases run
    exact .refl s

end Contents

/-! ## Descriptors -/

namespace Vfs

def fdAt (s : Vfs) (k : Fin maxSessions) (fd : Fin maxFds) : Option OpenFile :=
  (s.sessions k).bind fun sess => sess.fds fd

/-- Every open file is at the node it was opened at, as far as the indices can tell, and behind the bytes
moved. -/
structure Sound (s : Vfs) : Prop where
  bounded : ∀ i, s.fs.sizes i ≤ fileSize
  same : ∀ k fd, ∀ f ∈ s.fdAt k fd, s.fs.births f.nodeIdx = f.birth
  offset : ∀ k fd, ∀ f ∈ s.fdAt k fd, f.offset = f.moved

/-- No open file is at one of the indices. -/
def Spared (s : Vfs) (taken : List Idx) : Prop := ∀ k fd, ∀ f ∈ s.fdAt k fd, f.nodeIdx ∉ taken

instance (s : Vfs) (taken : List Idx) : Decidable (s.Spared taken) := by unfold Spared; infer_instance

variable {s : Vfs} {taken : List Idx} {fs : Fs} {k : Fin maxSessions} {sess : Session} {fd : Fin maxFds}

theorem Sound.takes (h : s.Sound) (takes : Takes taken s.fs fs) (spared : s.Spared taken) :
    Sound { s with fs } where
  bounded i := (takes.sizes i).trans (h.bounded i)
  same k fd f mem := (takes.births _ (spared k fd f mem)).trans (h.same k fd f mem)
  offset := h.offset

theorem Sound.stays (h : s.Sound) (stays : Stays s.fs fs) : Sound { s with fs } where
  bounded := stays.bounded h.bounded
  same k fd f mem := (congrFun stays.births _).trans (h.same k fd f mem)
  offset := h.offset

theorem fdAt_setFd (here : s.sessions k = some sess) {f : Option OpenFile} {k' : Fin maxSessions}
    {fd' : Fin maxFds} {g : OpenFile} (mem : g ∈ (s.setFd k sess fd f).fdAt k' fd') :
    g ∈ f ∨ g ∈ s.fdAt k' fd' := by
  simp only [fdAt, Vfs.setFd, setSession] at mem
  by_cases session : k' = k
  · subst session
    rw [Function.update_self] at mem
    by_cases slot : fd' = fd
    · subst slot
      exact .inl (by simpa using mem)
    · refine .inr ?_
      unfold fdAt
      rw [here]
      simpa [Function.update_of_ne slot] using mem
  · rw [Function.update_of_ne session] at mem
    exact .inr mem

theorem Sound.setFd (h : s.Sound) (here : s.sessions k = some sess) {f : Option OpenFile}
    (new : ∀ g ∈ f, s.fs.births g.nodeIdx = g.birth ∧ g.offset = g.moved) :
    (s.setFd k sess fd f).Sound where
  bounded := h.bounded
  same k' fd' g mem := by
    rcases fdAt_setFd here mem with mem | mem
    · exact (new g mem).1
    · exact h.same k' fd' g mem
  offset k' fd' g mem := by
    rcases fdAt_setFd here mem with mem | mem
    · exact (new g mem).2
    · exact h.offset k' fd' g mem

theorem Sound.setSession (h : s.Sound) {new : Option Session} (empty : ∀ sess ∈ new, ∀ fd, sess.fds fd = none) :
    (s.setSession k new).Sound := by
  have old : ∀ k' fd, ∀ f ∈ (s.setSession k new).fdAt k' fd, f ∈ s.fdAt k' fd := by
    intro k' fd f mem
    simp only [fdAt, Vfs.setSession] at mem
    by_cases session : k' = k
    · rw [session, Function.update_self] at mem
      obtain ⟨sess, mem, found⟩ := Option.bind_eq_some_iff.mp mem
      rw [empty sess mem fd] at found
      cases found
    · rw [Function.update_of_ne session] at mem
      exact mem
  exact ⟨h.bounded, fun k' fd f mem => h.same k' fd f (old k' fd f mem), fun k' fd f mem =>
    h.offset k' fd f (old k' fd f mem)⟩

theorem onFs_post {α : Type} {m : FsM α} {Q : α → Vfs → Prop} {E : Vfs → Prop}
    (post : Prog.Post m s.fs (fun a fs => Q a { s with fs }) fun fs => E { s with fs }) :
    Prog.Post (onFs m) s Q E :=
  .zoom post (fun _ _ h => h) fun _ h => h

/-- A call of the file system that spares the open files. -/
theorem Sound.onFs {α : Type} {m : FsM α} (h : s.Sound) (spared : s.Spared taken)
    (post : Prog.Post m s.fs (fun _ fs => Takes taken s.fs fs) fun fs => Takes taken s.fs fs) :
    Prog.Post (Vfs.onFs m) s (fun _ s' => s'.Sound ∧ s'.sessions = s.sessions)
      (fun s' => s'.Sound) :=
  onFs_post (post.mono (fun _ _ takes => ⟨h.takes takes spared, rfl⟩) fun _ takes => h.takes takes spared)

theorem spared_nil : s.Spared [] := fun _ _ _ _ => List.not_mem_nil

theorem lookUp_takes {α : Type} {f : Fs → Option α} : Prog.Post (look f) fs
    (fun _ fs' => Takes [] fs fs') (fun fs' => Takes [] fs fs') :=
  look_post (.refl _ fs) fun _ _ => .refl _ fs

/-! ## Calls -/

/-- The indices that a call gives to new nodes. -/
def nodeForTakes (fs : Fs) (path : List UInt8) (flags : Nat) : List Idx :=
  match fs.resolve path with
  | some none => if wantsCreate flags then fs.createFilePathTakes path else []
  | _ => []

theorem nodeFor_takes {path : List UInt8} {flags : Nat} : Prog.Post (nodeFor path flags) fs
    (fun _ fs' => Takes (nodeForTakes fs path flags) fs fs')
    (fun fs' => Takes (nodeForTakes fs path flags) fs fs') := by
  unfold nodeForTakes
  cases searched : fs.resolve path with
  | none => exact .of_fault (Prog.bind_fault (by simp only [look, searched])) (.refl _ fs)
  | some found =>
    refine .congr (Prog.bind_ok (look_some searched)) ?_
    cases found with
    | some idx => exact .pure (.refl _ fs)
    | none =>
      cases wanted : wantsCreate flags with
      | true => simpa only [wanted, if_true] using createFilePath_takes
      | false => simpa only [wanted, Bool.false_eq_true, if_false] using .pure (.refl _ fs)

theorem Sound.doOpen (h : s.Sound) {path : List UInt8} {flags : Nat}
    (spared : (s.sessions k).isSome → ¬(path = devTty ∨ path = slash :: devTty) →
      s.Spared (nodeForTakes s.fs (Fs.clean path) flags)) :
    Prog.Post (Vfs.doOpen k path flags) s (fun _ s' => s'.Sound) (fun s' => s'.Sound) := by
  refine .get_bind ?_
  cases here : s.sessions k with
  | none => exact .pure h
  | some sess =>
    by_cases tty : path = devTty ∨ path = slash :: devTty
    · simp only [tty, if_true]
      exact .pure h
    · simp only [tty, if_false]
      refine (h.onFs (spared (by rw [here]; rfl) tty) nodeFor_takes).bind ?_
      rintro (_ | idx) s' ⟨h', same⟩
      · exact .throw h'
      · cases freeFd sess with
        | none => exact .throw h'
        | some fd =>
          refine .modify_bind (.pure (h'.setFd (same ▸ here) ?_))
          intro g mem
          obtain rfl : OpenFile.mk idx 0 (s'.fs.births idx) 0 = g := Option.mem_some.mp mem
          exact ⟨rfl, rfl⟩

theorem Sound.doClose (h : s.Sound) {fd : Nat} :
    Prog.Post (Vfs.doClose k fd) s (fun _ s' => s'.Sound) (fun s' => s'.Sound) := by
  unfold Vfs.doClose
  by_cases tty : fd = ttyFd
  · rw [if_pos tty]
    exact .pure h
  · rw [if_neg tty]
    refine .get_bind ?_
    cases here : s.sessions k with
    | none => exact .pure h
    | some sess =>
      by_cases inside : fd < maxFds
      · simp only [inside, dif_pos]
        exact .modify_bind (.pure (h.setFd here fun g mem => by cases mem))
      · simp only [inside, dif_neg, not_false_eq_true]
        exact .pure h

/-- The offset is moved by what was moved. -/
theorem Sound.through {α : Type} (h : s.Sound) {size : α → Nat} {act : OpenFile → FsM (Option α)} {fd : Nat}
    (acts : ∀ inside : fd < maxFds, ∀ f ∈ s.fdAt k ⟨fd, inside⟩, Prog.Post (act f) s.fs
      (fun r fs => Stays s.fs fs ∧ ∀ a, r = some a → size a > 0 → f.offset + size a < 2 ^ 32)
      (fun fs => Stays s.fs fs)) :
    Prog.Post (Vfs.through size act k fd) s (fun _ s' => s'.Sound) (fun s' => s'.Sound) := by
  refine .get_bind ?_
  cases here : s.sessions k with
  | none => exact .pure h
  | some sess =>
    by_cases inside : fd < maxFds
    · simp only [inside, dif_pos]
      cases open_ : sess.fds ⟨fd, inside⟩ with
      | none => exact .pure h
      | some f =>
        have mem : f ∈ s.fdAt k ⟨fd, inside⟩ := by simp [fdAt, here, open_]
        have step := onFs_post (Q := fun r s' => s'.Sound ∧ s'.sessions = s.sessions ∧
            s'.fs.births = s.fs.births ∧ ∀ a, r = some a → size a > 0 → f.offset + size a < 2 ^ 32)
          (E := Sound) ((acts inside f mem).mono
            (fun r fs kept => ⟨h.stays kept.1, rfl, kept.1.births, kept.2⟩) fun fs stays => h.stays stays)
        refine step.bind ?_
        rintro (_ | a) s' ⟨h', sessions, births, room⟩
        · exact .pure h'
        · by_cases moved : size a > 0
          · simp only [moved, if_true]
            refine .modify_bind (.pure (h'.setFd (sessions ▸ here) ?_))
            intro g mem'
            obtain rfl : f.advance (size a) = g := Option.mem_some.mp mem'
            refine ⟨births ▸ h.same k _ f mem, ?_⟩
            change (f.offset + size a) % 2 ^ 32 = f.moved + size a
            rw [Nat.mod_eq_of_lt (room a rfl moved), h.offset k _ f mem]
          · simp only [moved, if_false]
            exact .pure h'
    · simp only [inside, dif_neg, not_false_eq_true]
      exact .of_fault rfl h

theorem Sound.doRead (h : s.Sound) {fd cap : Nat} :
    Prog.Post (Vfs.doRead k fd cap) s (fun _ s' => s'.Sound) (fun s' => s'.Sound) := by
  unfold Vfs.doRead
  split_ifs with tty
  · exact .pure h
  · refine h.through fun inside f mem => look_post (.refl _) fun r found => ⟨.refl _, fun bytes eq pos => ?_⟩
    have fits := read_length ((Option.some.inj found).trans eq) pos
    have bound := h.bounded f.nodeIdx
    unfold fileSize at bound
    omega

theorem Sound.doWrite (h : s.Sound) {fd : Nat} {data : List UInt8} :
    Prog.Post (Vfs.doWrite k fd data) s (fun _ s' => s'.Sound) (fun s' => s'.Sound) := by
  unfold Vfs.doWrite
  split_ifs with tty
  · exact .pure h
  · refine h.through fun inside f mem => write_post.mono (fun r fs kept => ⟨kept.1, fun n eq _ => ?_⟩)
      fun _ stays => stays
    have fits := kept.2 n eq
    unfold fileSize at fits
    simp only [id]
    omega

/-- The listing does not wrap the offset. -/
def ListingFits (s : Vfs) (k : Fin maxSessions) (fd cap : Nat) : Prop :=
  ∀ inside : fd < maxFds, ∀ f ∈ s.fdAt k ⟨fd, inside⟩, ∀ r ∈ s.fs.readdirNames f.nodeIdx cap,
    ∀ names ∈ r, f.offset + names.length < 2 ^ 32

theorem Sound.doReaddir (h : s.Sound) {fd cap : Nat} (fits : s.ListingFits k fd cap) :
    Prog.Post (Vfs.doReaddir k fd cap) s (fun _ s' => s'.Sound) (fun s' => s'.Sound) :=
  h.through fun inside f mem => look_post (.refl _) fun r found =>
    ⟨.refl _, fun names eq _ => fits inside f mem r found names eq⟩

theorem Sound.removeAt (h : s.Sound) {path : List UInt8} {refused : VfsM (Option Nat)}
    (quiet : ∀ s', s'.Sound → Prog.Post refused s' (fun _ s'' => s''.Sound) (fun s'' => s''.Sound)) :
    Prog.Post (Vfs.removeAt path refused) s (fun _ s' => s'.Sound) (fun s' => s'.Sound) := by
  refine (h.onFs spared_nil lookUp_takes).bind ?_
  rintro (_ | idx) s' ⟨h', _⟩
  · exact .throw h'
  · refine .get_bind ?_
    cases s'.fs.parentOf idx with
    | none => exact .throw h'
    | some parent =>
      refine (h'.onFs spared_nil remove_takes).bind ?_
      rintro (_ | _) s'' ⟨h'', _⟩
      · exact quiet s'' h''
      · exact .pure h''

theorem Sound.doStat (h : s.Sound) {path : List UInt8} :
    Prog.Post (Vfs.doStat path) s (fun _ s' => s'.Sound) (fun s' => s'.Sound) := by
  refine (h.onFs spared_nil lookUp_takes).bind ?_
  rintro (_ | idx) s' ⟨h', _⟩
  · exact .pure h'
  · exact .get_bind (.pure h')

theorem Sound.connect (h : s.Sound) :
    Prog.Post Vfs.connect s (fun _ s' => s'.Sound) (fun s' => s'.Sound) := by
  refine .get_bind ?_
  cases (List.finRange maxSessions).find? fun k => (s.sessions k).isNone with
  | none => exact .pure h
  | some k =>
    refine .modify_bind (.pure (h.setSession ?_))
    rintro sess mem fd
    obtain rfl := Option.mem_some.mp mem
    rfl

end Vfs

namespace VfsOp

def takes (s : Vfs) : VfsOp → List Idx
  | .openPath k path flags =>
    if (s.sessions k).isSome ∧ ¬(path = Vfs.devTty ∨ path = slash :: Vfs.devTty) then
      Vfs.nodeForTakes s.fs (Fs.clean path) flags
    else []
  | .mkdir path => s.fs.mkdirPathTakes path
  | _ => []

/-- New nodes are not made at an index that an open file has, and the offset of a directory does not
wrap. -/
def Meets (s : Vfs) (op : VfsOp) : Prop :=
  s.Spared (op.takes s) ∧
    match op with
    | .readdir k fd cap => s.ListingFits k fd cap
    | _ => True

end VfsOp

theorem Vfs.Sound.step {s : Vfs} (h : s.Sound) {op : VfsOp} (meets : op.Meets s) :
    Prog.Post op.perform s (fun _ s' => s'.Sound) (fun s' => s'.Sound) := by
  have drop {α : Type} {m : VfsM α} (post : Prog.Post m s (fun _ s' => s'.Sound) (fun s' => s'.Sound)) :
      Prog.Post (do let _ ← m) s (fun _ s' => s'.Sound) (fun s' => s'.Sound) :=
    post.bind fun _ _ h => .pure h
  obtain ⟨spared, fits⟩ := meets
  cases op with
  | connect => exact drop h.connect
  | hangup k => exact .modify (h.setSession fun sess mem => by cases mem)
  | openPath k path flags =>
    refine drop (h.doOpen fun live not_tty => ?_)
    rwa [VfsOp.takes, if_pos ⟨live, not_tty⟩] at spared
  | close k fd => exact drop h.doClose
  | read k fd cap => exact drop h.doRead
  | write k fd data => exact drop h.doWrite
  | mkdir path => exact (h.onFs spared mkdirPath_takes).mono (fun _ _ h => h.1) fun _ h => h
  | rmdir path => exact drop (h.removeAt fun _ h => .throw h)
  | unlink path => exact drop (h.removeAt fun _ h => .pure h)
  | readdir k fd cap => exact drop (h.doReaddir fits)
  | stat path => exact drop h.doStat

namespace Vfs

/-! ## What the descriptors denote -/

theorem start_sound : start.Sound where
  bounded i := by
    have made : Prog.Post (Fs.mkdirPath dev) Fs.start _ _ := mkdirPath_takes
    exact (made.state.sizes i).trans (Nat.zero_le _)
  same k fd f mem := by cases mem
  offset k fd f mem := by cases mem

theorem sound_run {s : Vfs} (run : VfsOp.system.Run (fun s op => op.Meets s) start s) : s.Sound :=
  run.invariant start_sound fun _ _ _ sound meets step => step.ran.state_eq ▸ (sound.step meets).state

/-- The descriptor is at the node that was opened: the index was given to no other node since then, the
offset counts the bytes moved, and the calls act on this node only, or fail when it is gone. -/
structure Denotes (s : Vfs) (k : Fin maxSessions) (fd : Fin maxFds) (f : OpenFile) : Prop where
  same : s.fs.births f.nodeIdx = f.birth
  offset : f.offset = f.moved
  gone : s.fs.ntypes f.nodeIdx = none → ∀ cap data, doRead k fd cap s = .ok none s ∧
    doWrite k fd data s = .ok none s ∧ doReaddir k fd cap s = .ok none s
  reads : ∀ cap r s', doRead k fd cap s = .ok r s' →
    r = s.fs.read f.nodeIdx cap f.moved ∧ s'.fs = s.fs
  lists : ∀ cap r s', doReaddir k fd cap s = .ok r s' →
    some r = s.fs.readdirNames f.nodeIdx cap ∧ s'.fs = s.fs
  writes : ∀ data r s', doWrite k fd data s = .ok r s' →
    Fs.write f.nodeIdx data f.moved s.fs = .ok r s'.fs ∧
      ∀ i ≠ f.nodeIdx, s'.fs.datas i = s.fs.datas i ∧ s'.fs.sizes i = s.fs.sizes i

variable {s : Vfs} {k : Fin maxSessions} {fd : Fin maxFds} {f : OpenFile} {α : Type} {size : α → Nat}
  {act : OpenFile → FsM (Option α)}

/-- The result is that of the call on the file system. -/
theorem through_ok (mem : f ∈ s.fdAt k fd) {r : Option α} {s' : Vfs}
    (run : through size act k fd s = .ok r s') : act f s.fs = .ok r s'.fs := by
  obtain ⟨sess, here, open_⟩ := Option.bind_eq_some_iff.mp mem
  simp only [through, Prog.bind_apply, Prog.get, here, fd.isLt, dif_pos, Fin.eta, open_, onFs,
    Prog.zoom] at run
  cases acted : act f s.fs with
  | ok r' fs =>
    rw [acted] at run
    cases r' with
    | none =>
      cases run
      rfl
    | some a =>
      by_cases moved : size a > 0
      · simp only [moved, if_true] at run
        cases run
        rfl
      · simp only [moved, if_false] at run
        cases run
        rfl
  | err e fs =>
    rw [acted] at run
    cases run
  | fault fs =>
    rw [acted] at run
    cases run

theorem through_none (mem : f ∈ s.fdAt k fd) (acted : act f s.fs = .ok none s.fs) :
    through size act k fd s = .ok none s := by
  obtain ⟨sess, here, open_⟩ := Option.bind_eq_some_iff.mp mem
  simp only [through, Prog.bind_apply, Prog.get, here, fd.isLt, dif_pos, Fin.eta, open_, onFs,
    Prog.zoom, acted]
  rfl

theorem fd_not_tty (fd : Fin maxFds) : fd.val ≠ ttyFd := by
  have bound := fd.isLt
  unfold maxFds at bound
  unfold ttyFd
  omega

theorem Sound.denotes (h : s.Sound) (mem : f ∈ s.fdAt k fd) : s.Denotes k fd f where
  same := h.same k fd f mem
  offset := h.offset k fd f mem
  gone free cap data := by
    refine ⟨?_, ?_, through_none mem ?_⟩
    · rw [Vfs.doRead, if_neg (fd_not_tty fd)]
      exact through_none mem (by simp [look, Fs.read, index?_val, free])
    · rw [Vfs.doWrite, if_neg (fd_not_tty fd)]
      exact through_none mem (by simp [Fs.write, index?_val, free])
    · simp [look, Fs.readdirNames, index?_val, free]
  reads cap r s' run := by
    rw [Vfs.doRead, if_neg (fd_not_tty fd)] at run
    have acted := through_ok mem run
    rw [h.offset k fd f mem] at acted
    simp only [look, Outcome.ok.injEq] at acted
    exact ⟨acted.1.symm, acted.2.symm⟩
  lists cap r s' run := by
    have acted := through_ok mem run
    simp only [look] at acted
    cases listed : s.fs.readdirNames f.nodeIdx cap with
    | none => simp [listed] at acted
    | some r' =>
      simp only [listed, Outcome.ok.injEq] at acted
      exact ⟨by rw [acted.1], acted.2.symm⟩
  writes data r s' run := by
    rw [Vfs.doWrite, if_neg (fd_not_tty fd)] at run
    have acted := through_ok mem run
    rw [h.offset k fd f mem] at acted
    refine ⟨acted, fun i other => ?_⟩
    cases r with
    | none =>
      rw [write_none acted]
      exact ⟨rfl, rfl⟩
    | some n =>
      rw [(write_ok acted).2.2]
      exact ⟨Function.update_of_ne other _ _, Function.update_of_ne other _ _⟩

/-- In every run in which new nodes are made at indices without an open file, the open files denote what
was opened. -/
theorem descriptors_denote {s : Vfs} (run : VfsOp.system.Run (fun s op => op.Meets s) start s)
    (k : Fin maxSessions) (fd : Fin maxFds) : ∀ f ∈ s.fdAt k fd, s.Denotes k fd f :=
  fun _ mem => (sound_run run).denotes mem

/-- A file is made, written and removed, and another one is made. -/
def removed : List VfsOp :=
  [.connect, .openPath 0 [97] 64, .write 0 0 [1, 2, 3], .unlink [97], .openPath 0 [98] 64, .read 0 0 8]

theorem removed_follows : VfsOp.system.Follows (fun s op => op.Meets s) start removed := by
  refine ⟨⟨?_, trivial⟩, trivial, ?_, ⟨?_, trivial⟩, trivial, ?_, ⟨?_, trivial⟩, trivial, ?_,
    ⟨?_, trivial⟩, trivial, ?_, ⟨?_, trivial⟩, trivial, ?_, ⟨?_, trivial⟩, trivial, ?_, trivial⟩
  all_goals decide +kernel

theorem descriptors_denote_removed : ∃ f ∈ (VfsOp.system.after start removed).fdAt 0 0,
    f.offset = 3 ∧ (VfsOp.system.after start removed).Denotes 0 0 f := by
  have open_ : ((VfsOp.system.after start removed).fdAt 0 0).map (·.offset) = some 3 := by decide +kernel
  obtain ⟨f, mem, offset⟩ := Option.map_eq_some_iff.mp open_
  exact ⟨f, mem, offset, descriptors_denote (Stepper.Run.start.follow removed_follows) 0 0 f mem⟩

/-- After the removal the indices are used up, and the next file gets the index of the removed one. -/
def recycled : List VfsOp :=
  [.connect, .openPath 0 [97] 64, .unlink [97], .mkdir ((List.replicate 12 [99, slash]).flatten ++ [99]),
    .openPath 0 [98] 64, .write 0 1 [7]]

/-- The descriptor of the removed file reads the new file. -/
theorem recycled_reads_new : ∃ s, VfsOp.system.Run (fun _ _ => True) start s ∧
    ∃ f ∈ s.fdAt 0 0, s.fs.births f.nodeIdx ≠ f.birth ∧
      (doRead 0 0 8 s).value? = some (some [7]) := by
  have follows : VfsOp.system.Follows (fun _ _ => True) start recycled :=
    ⟨trivial, trivial, by decide +kernel, trivial, trivial, by decide +kernel, trivial, trivial,
      by decide +kernel, trivial, trivial, by decide +kernel, trivial, trivial, by decide +kernel, trivial,
      trivial, by decide +kernel, trivial⟩
  have open_ : ((VfsOp.system.after start recycled).fdAt 0 0).isSome := by decide +kernel
  obtain ⟨f, mem⟩ := Option.isSome_iff_exists.mp open_
  have other : ∀ f ∈ (VfsOp.system.after start recycled).fdAt 0 0,
      (VfsOp.system.after start recycled).fs.births f.nodeIdx ≠ f.birth := by decide +kernel
  exact ⟨_, Stepper.Run.start.follow follows, f, mem, other f mem, by decide +kernel⟩

end Vfs

end CapsuleOS.Fileagent
