import CapsuleOS.Fileagent.Contents
import CapsuleOS.Lib.Blocks
import CapsuleOS.Libc.Remote

/-!
# Reading a file to its end

A program that reads until nothing comes gets, of every block of 1024 bytes that the server reads, the 128
bytes that fit a message, or fewer if its buffer is smaller. The server goes on behind the block.
-/
namespace CapsuleOS.Libc

open Lib Fileagent

/-- The bytes of a node, as many as its size. -/
def nodeBytes (fs : Fs) (i : Idx) : List UInt8 := (fs.datas i).load 0 (fs.sizes i)

/-- The loop of a program that reads to the end of a file, with the pieces that it gets. -/
def readLoop (k : Fin maxSessions) (fd : BitVec 32) (count : Nat) : Nat → ServiceM (List (List UInt8))
  | 0 => pure []
  | rounds + 1 => do
    match ← (Query.read fd count).ask k with
    | .bytes (b :: bs) => return (b :: bs) :: (← readLoop k fd count rounds)
    | _ => return []

section Rounds

variable {k : Fin maxSessions} {fd : Fin maxFds} {f : OpenFile} {count : Nat}

theorem nodeBytes_length (fs : Fs) (i : Idx) : (nodeBytes fs i).length = fs.sizes i := Mem.load_length _ _ _

/-- A read of a node that is in use. -/
theorem read_nodeBytes {fs : Fs} {i : Idx} (live : fs.ntypes i ≠ none) (len offset : Nat) :
    fs.read i.val len offset = some (((nodeBytes fs i).drop offset).take len) := by
  simp only [Fs.read, index?_val, Option.bind_eq_bind, Option.bind_some, live, if_false]
  split_ifs with behind
  · rw [List.drop_eq_nil_of_le (by rwa [nodeBytes_length]), List.take_nil]
  · refine congrArg some (List.ext_getElem ?_ fun n lt lt' => ?_)
    · rw [Mem.load_length, List.length_take, List.length_drop, nodeBytes_length]
    · simp [nodeBytes]

theorem fd_toNat (fd : Fin maxFds) : (BitVec.ofNat 32 fd.val).toNat = fd.val := by
  rw [BitVec.toNat_ofNat]
  exact Nat.mod_eq_of_lt (fd.isLt.trans (by unfold maxFds; norm_num))

/-- What is left of an open file. -/
def leftBytes (s : Vfs) (f : OpenFile) : List UInt8 := (nodeBytes s.fs f.nodeIdx).drop f.offset

/-- A read of the server: the bytes from the offset on, which moves behind them. -/
theorem doRead_left {s : Vfs} (mem : f ∈ s.fdAt k fd) (live : s.fs.ntypes f.nodeIdx ≠ none) (cap : Nat) :
    ∃ t, Vfs.doRead k fd cap s = .ok (some ((leftBytes s f).take cap)) t ∧ t.fs = s.fs ∧
      ((leftBytes s f).take cap ≠ [] → f.advance ((leftBytes s f).take cap).length ∈ t.fdAt k fd) := by
  obtain ⟨sess, here, found⟩ := Option.bind_eq_some_iff.mp (Option.mem_def.mp mem)
  have looked : Vfs.onFs (look fun fs => some (fs.read f.nodeIdx cap f.offset)) s =
      .ok (some ((leftBytes s f).take cap)) s := by
    simp [Vfs.onFs, Prog.zoom, look, read_nodeBytes live cap f.offset, leftBytes]
  by_cases some_byte : ((leftBytes s f).take cap).length > 0
  · refine ⟨s.setFd k sess fd (some (f.advance ((leftBytes s f).take cap).length)), ?_, rfl, fun _ => ?_⟩
    · rw [Vfs.doRead, if_neg (Vfs.fd_not_tty fd), Vfs.through, Prog.bind_ok (Prog.get_apply s)]
      simp only [here, fd.isLt, dif_pos, Fin.eta, found]
      rw [Prog.bind_ok looked]
      dsimp only
      rw [if_pos some_byte]
      rfl
    · simp [Vfs.fdAt, Vfs.setFd, Vfs.setSession]
  · refine ⟨s, ?_, rfl, fun ne => absurd (List.length_pos_of_ne_nil ne) some_byte⟩
    rw [Vfs.doRead, if_neg (Vfs.fd_not_tty fd), Vfs.through, Prog.bind_ok (Prog.get_apply s)]
    simp only [here, fd.isLt, dif_pos, Fin.eta, found]
    rw [Prog.bind_ok looked]
    dsimp only
    rw [if_neg some_byte]
    rfl

/-- What a program gets of it. -/
theorem ask_read {s : Service} (bounded : Bounded s.vfs.fs) (mem : f ∈ s.vfs.fdAt k fd)
    (live : s.vfs.fs.ntypes f.nodeIdx ≠ none) (some_room : 0 < count) :
    ∃ t, (Query.read (BitVec.ofNat 32 fd) count).ask k s =
        .ok (.bytes (((leftBytes s.vfs f).take dataSize).take (min count inlineDataMax))) t ∧ t.vfs.fs = s.vfs.fs ∧
      ((leftBytes s.vfs f).take dataSize ≠ [] →
        f.advance ((leftBytes s.vfs f).take dataSize).length ∈ t.vfs.fdAt k fd) := by
  obtain ⟨u, ran, same, moved⟩ := doRead_left mem live dataSize
  have local_read : (Query.read (BitVec.ofNat 32 fd) count).here k s.vfs =
      .ok (.bytes (((leftBytes s.vfs f).take dataSize).take (min count inlineDataMax))) u := by
    rw [Query.here, if_neg some_room.ne', fd_toNat, Prog.bind_ok (Prog.attempt_ok ran)]
    rfl
  have agree := ask_here (k := k) bounded (.read (BitVec.ofNat 32 fd) count)
  rw [local_read] at agree
  cases called : (Query.read (BitVec.ofNat 32 fd) count).ask k s with
  | ok a t =>
    rw [called] at agree
    cases agree
    exact ⟨t, rfl, same, moved⟩
  | err e t =>
    rw [called] at agree
    cases agree
  | fault t =>
    rw [called] at agree
    cases agree

/-- Behind a block that has been read, what is left is what was behind it. -/
theorem leftBytes_advance {s t : Service} (bounded : Bounded s.vfs.fs) (same : t.vfs.fs = s.vfs.fs)
    (some_left : leftBytes s.vfs f ≠ []) : leftBytes t.vfs (f.advance ((leftBytes s.vfs f).take dataSize).length) =
      (leftBytes s.vfs f).drop dataSize := by
  have pos := List.length_pos_of_ne_nil some_left
  have length : (leftBytes s.vfs f).length = s.vfs.fs.sizes f.nodeIdx - f.offset := by
    rw [leftBytes, List.length_drop, nodeBytes_length]
  have size : dataSize = 1024 := rfl
  have offset : (f.advance ((leftBytes s.vfs f).take dataSize).length).offset =
      f.offset + min dataSize (leftBytes s.vfs f).length := by
    have fits := bounded f.nodeIdx
    rw [OpenFile.advance, List.length_take]
    refine Nat.mod_eq_of_lt ?_
    unfold fileSize at fits
    omega
  have rest : leftBytes t.vfs (f.advance ((leftBytes s.vfs f).take dataSize).length) =
      (leftBytes s.vfs f).drop (min dataSize (leftBytes s.vfs f).length) := by
    rw [leftBytes, offset, same, leftBytes, List.drop_drop]
    rfl
  rw [rest]
  rcases le_total dataSize (leftBytes s.vfs f).length with le | le
  · rw [min_eq_left le]
  · rw [List.drop_eq_nil_of_le (by omega), List.drop_eq_nil_of_le le]

/-- The pieces are the heads of what is left of the file. -/
theorem readLoop_heads {s : Service} (bounded : Bounded s.vfs.fs) (mem : f ∈ s.vfs.fdAt k fd)
    (live : s.vfs.fs.ntypes f.nodeIdx ≠ none) (some_room : 0 < count) {rounds : Nat}
    (enough : blockCount dataSize (leftBytes s.vfs f).length < rounds) :
    ∃ t, readLoop k (BitVec.ofNat 32 fd) count rounds s =
        .ok (heads dataSize (min count inlineDataMax) (leftBytes s.vfs f)) t ∧ t.vfs.fs = s.vfs.fs := by
  have some_size : 0 < dataSize := by decide
  induction rounds generalizing s f with
  | zero => cases enough
  | succ rounds ih =>
    obtain ⟨t, read, same, moved⟩ := ask_read bounded mem live some_room
    rw [readLoop, Prog.bind_ok read]
    by_cases ended : leftBytes s.vfs f = []
    · refine ⟨t, ?_, same⟩
      rw [ended, heads_nil some_size, List.take_nil, List.take_nil]
      rfl
    · have block : (leftBytes s.vfs f).take dataSize ≠ [] := by
        rw [Ne, List.take_eq_nil_iff]
        exact fun none => none.elim some_size.ne' ended
      have piece : ((leftBytes s.vfs f).take dataSize).take (min count inlineDataMax) =
          (leftBytes s.vfs f).take (min count inlineDataMax) := by
        have fits : min count inlineDataMax ≤ dataSize := (min_le_right _ _).trans (by decide)
        rw [List.take_take, min_eq_left fits]
      obtain ⟨c, cs, form⟩ := List.exists_cons_of_ne_nil (l := (leftBytes s.vfs f).take (min count inlineDataMax)) (by
        rw [Ne, List.take_eq_nil_iff]
        exact fun none => none.elim (by unfold inlineDataMax; omega) ended)
      have behind := leftBytes_advance bounded same ended
      have fewer : blockCount dataSize
          (leftBytes t.vfs (f.advance ((leftBytes s.vfs f).take dataSize).length)).length < rounds := by
        have one := congrArg List.length (heads_block some_size 0 ended)
        rw [length_heads, List.length_cons, length_heads, ← behind] at one
        omega
      obtain ⟨u, rest, same'⟩ := @ih _ t (same ▸ bounded) (moved block) (same ▸ live) fewer
      refine ⟨u, ?_, same'.trans same⟩
      rw [piece, form]
      dsimp only
      rw [Prog.bind_ok rest, behind, heads_block some_size _ ended, form]
      rfl

end Rounds

/-- After any requests, a program that reads an open file to its end gets the heads of the blocks from the
offset on, and all of that exactly if it fits one message and the buffer. -/
theorem read_stream {s : Service} (run : ServeOp.system.Run (fun _ _ => True) .start s) {k : Fin maxSessions}
    {fd : Fin maxFds} {f : OpenFile} (mem : f ∈ s.vfs.fdAt k fd) (live : s.vfs.fs.ntypes f.nodeIdx ≠ none)
    {count rounds : Nat} (some_room : 0 < count)
    (enough : blockCount dataSize (leftBytes s.vfs f).length < rounds) :
    ∃ pieces t, readLoop k (BitVec.ofNat 32 fd) count rounds s = .ok pieces t ∧ t.vfs.fs = s.vfs.fs ∧
      pieces = heads dataSize (min count inlineDataMax) (leftBytes s.vfs f) ∧
      (pieces.flatten = leftBytes s.vfs f ↔ (leftBytes s.vfs f).length ≤ min count inlineDataMax) := by
  obtain ⟨t, ran, same⟩ := readLoop_heads (bounded_run run) mem live some_room enough
  have small : inlineDataMax < dataSize := by decide
  have some_byte : 0 < inlineDataMax := by decide
  exact ⟨_, t, ran, same, rfl, heads_whole_iff (lt_of_le_of_lt (min_le_right _ _) small) (lt_min some_room some_byte)⟩

/-- A file of two bytes, open a second time. -/
def twoBytes : List ServeOp :=
  [.connect, .command 0 (openRequest [98] 64), .command 0 (writeRequest 0 [104, 105]), .command 0 (openRequest [98] 0)]

def twoBytesState : Service := ServeOp.system.after .start twoBytes

theorem twoBytes_reached : ServeOp.system.Run (fun _ _ => True) .start twoBytesState := by
  have sent {cmd : UInt8} {arg1 arg2 : BitVec 32} {data : List UInt8} : (request cmd arg1 arg2 data).length ≤ cmdSize :=
    request_length.le
  exact Stepper.Run.start.follow ⟨trivial, trivial, by decide +kernel, trivial, sent, by decide +kernel, trivial, sent,
    by decide +kernel, trivial, sent, by decide +kernel, trivial⟩

theorem twoBytes_open : (twoBytesState.vfs.fdAt 0 1).isSome = true := by decide +kernel

def twoBytesFile : OpenFile := (twoBytesState.vfs.fdAt 0 1).get twoBytes_open

theorem read_stream_twoBytes : ∃ pieces t, readLoop 0 (BitVec.ofNat 32 (1 : Fin maxFds)) 1 2 twoBytesState = .ok pieces t ∧
    t.vfs.fs = twoBytesState.vfs.fs ∧ pieces = heads dataSize 1 (leftBytes twoBytesState.vfs twoBytesFile) ∧
      (pieces.flatten = leftBytes twoBytesState.vfs twoBytesFile ↔ (leftBytes twoBytesState.vfs twoBytesFile).length ≤ 1) :=
  read_stream twoBytes_reached (Option.get_mem twoBytes_open) (by decide +kernel) (by decide) (by decide +kernel)

end CapsuleOS.Libc
