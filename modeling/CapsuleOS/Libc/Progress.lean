import CapsuleOS.Libc.Soundness

/-!
# When the file service goes on

Where no thread that is in a call can go on, nobody waits, or all wait for the one client that is served, or the
server has panicked on a request (`Sound.rests`). The client that is served has a file open. If it makes a call that
needs a connection of its own, it waits for itself, and so does everybody for ever (`doomed_forever`); if no client
does so, the one that is served is in no call. After a panic nobody is answered any more (`halted_forever`). The steps
of the calls that have begun come to an end in any case, since each has its cost (`Sound.spends`).
-/
namespace CapsuleOS.Libc

open Lib Fileagent

variable {ι : Type}

/-! ## The cost of a step -/

/-- The server that is blocked on a connection waits for a request, and its client is in no call on it. -/
theorem Inside.asleep {c : Conn ι} {sv : ServerPc ι} {cl : Client ι} (h : Inside c sv cl) (blocked : sv.blocked = true)
    (conn : sv.conn? = some c) (still : cl.pc.goes = false) :
    (∃ k, sv = .receiving k c) ∧ cl.pc.outside = true ∧ OnlyFile cl.fds c := by
  cases sv with
  | receiving k d =>
    cases conn
    rcases h with ⟨out, _, only⟩ | ⟨pc, _⟩ | ⟨_, _, apart, _⟩ | ⟨pc, _⟩ | ⟨_, busy, _⟩ | ⟨pc, _⟩
    · exact ⟨⟨k, rfl⟩, out, only⟩
    · simp [pc, ClientPc.goes] at still
    · cases apart
    · simp [pc, ClientPc.goes] at still
    · cases busy
    · simp [pc, ClientPc.goes] at still
  | replying k d resp =>
    rcases h with ⟨_, between, _⟩ | ⟨_, between, _⟩ | ⟨_, between, _⟩ | ⟨pc, _⟩ | ⟨_, _, apart, _⟩ | ⟨pc, _⟩
    · cases between
    · cases between
    · cases between
    · simp [pc, ClientPc.goes] at still
    · cases apart
    · simp [pc, ClientPc.goes] at still
  | accepting => cases conn
  | accept => cases blocked
  | accepted d => cases blocked
  | receive k d => cases blocked
  | handle k d cmd => cases blocked
  | reply k d resp => cases blocked

/-- Blocked in a call of the kernel. -/
def ClientPc.blocked (pc : ClientPc ι) : Bool := !(pc.isIdle || pc.goes)

namespace Net

section Costs

variable [DecidableEq ι] {s t : Net ι} {c : Conn ι}

end Costs

/-! ## Where nothing goes on -/

/-- The server is at a request that makes it panic. -/
structure Crashed (s : Net ι) (k : Fin maxSessions) (c : Conn ι) (cmd : List UInt8) : Prop where
  server : s.server = .handle k c cmd
  fault : (Service.handleCmd k cmd s.service).faulted = true

/-- Nobody waits, or all wait for the client that is served, or for a server that has panicked. -/
inductive Rests (s : Net ι) : Prop where
  | free (server : s.server = .accepting) (none_ : s.queue = []) (idle : ∀ i, (s.client i).pc = .idle ∧ NoFile (s.client i).fds)
  | held (k : Fin maxSessions) (c : Conn ι) (server : s.server = .receiving k c) (open_ : OnlyFile (s.client c.owner).fds c)
      (line : ∀ i, (s.client i).pc = .idle ∨ ∃ d cmd e, (s.client i).pc = .connecting d cmd e ∧ d ∈ s.queue)
  | crashed (k : Fin maxSessions) (c : Conn ι) (cmd : List UInt8) (crash : s.Crashed k c cmd)
      (line : ∀ i, (s.client i).pc = .idle ∨ (∃ d cmd e, (s.client i).pc = .connecting d cmd e ∧ d ∈ s.queue) ∨
        c.owner = i ∧ ∃ cmd e, (s.client i).pc = .receiving c cmd e)

section Rest

variable {s t : Net ι} {c : Conn ι}

section Stuck

variable [DecidableEq ι]

/-- The only step of the server that can panic is that of a request. -/
theorem Sound.crashed (h : s.Sound) (awake : s.server.blocked = false) (fault : (serverStep s).faulted = true) :
    ∃ k c cmd, s.Crashed k c cmd := by
  rw [Net.serverStep, Prog.bind_ok (Prog.get_apply s)] at fault
  cases pc : s.server with
  | accept =>
    rw [pc] at fault
    cases fault
  | accepted c =>
    rw [pc] at fault
    dsimp only at fault
    rw [Prog.bind_ok (show onService (Service.call Vfs.connect) s = _ from Prog.zoom_ok (h.connect_ran pc))] at fault
    cases fault
  | receive k c =>
    rw [pc] at fault
    dsimp only at fault
    split_ifs at fault <;> cases fault
  | handle k c cmd =>
    refine ⟨k, c, cmd, pc, ?_⟩
    rw [pc] at fault
    dsimp only at fault
    cases handled : Service.handleCmd k cmd s.service with
    | ok a service =>
      rw [Prog.bind_ok (show onService (Service.handleCmd k cmd) s = _ from Prog.zoom_ok handled)] at fault
      cases fault
    | err e service => exact (handleCmd_noErr cmd s.service e service handled).elim
    | fault service => rfl
  | reply k c resp =>
    rw [pc] at fault
    cases fault
  | accepting =>
    rw [pc] at awake
    cases awake
  | receiving k c =>
    rw [pc] at awake
    cases awake
  | replying k c resp =>
    rw [pc] at awake
    cases awake

end Stuck

/-! ## A client that waits for itself -/

/-- A client with an open file waits for a connection. -/
def Doomed (s : Net ι) : Prop := ∃ i, (s.client i).pc.connects = true ∧ ¬NoFile (s.client i).fds

/-- Nothing happens to the files, nor to those who wait. -/
structure Frozen (s t : Net ι) : Prop where
  fs : t.service.vfs.fs = s.service.vfs.fs
  handled : t.handled = s.handled
  waits : ∀ i, (s.client i).pc.connects = true → t.client i = s.client i

theorem Frozen.trans {u : Net ι} (h : Frozen s t) (h' : Frozen t u) : Frozen s u where
  fs := h'.fs.trans h.fs
  handled := h'.handled.trans h.handled
  waits i pc := (h'.waits i (by rwa [h.waits i pc])).trans (h.waits i pc)

variable [DecidableEq ι]

/-- What a call leaves, up to its first call of the kernel. -/
structure CallFrame (s t : Net ι) (i : ι) : Prop where
  service : t.service = s.service
  handled : t.handled = s.handled
  got : t.got = s.got
  others : ∀ j ≠ i, t.client j = s.client j

theorem call_frame (s : Net ι) (i : ι) (f : FileCall) : CallFrame s (s.call i f) i := by
  rcases call_moves s i f with ⟨_, eq⟩ | ⟨_, _, _, _, _, _, eq⟩ | ⟨_, _, _, _, _, _, eq⟩ | ⟨_, _, _, eq⟩ |
    ⟨_, _, _, _, _, _, _, eq⟩ | ⟨_, _, _, eq⟩ | ⟨_, _, _, _, _, _, _, eq⟩ <;> rw [eq]
  · exact ⟨rfl, rfl, rfl, fun _ _ => rfl⟩
  · exact ⟨rfl, rfl, rfl, fun j ne => Function.update_of_ne ne _ _⟩
  · exact ⟨rfl, rfl, rfl, fun j ne => Function.update_of_ne ne _ _⟩
  · exact ⟨rfl, rfl, rfl, fun _ _ => rfl⟩
  · exact ⟨rfl, rfl, rfl, fun j ne => Function.update_of_ne ne _ _⟩
  · exact ⟨rfl, rfl, rfl, fun j ne => Function.update_of_ne ne _ _⟩
  · exact ⟨rfl, rfl, rfl, fun j ne => by rw [setPc_client, Function.update_of_ne ne, setFds_client, Function.update_of_ne ne]⟩

/-- The server stands where it stood, and nobody who waited has got an answer. -/
structure Halted (s t : Net ι) : Prop where
  service : t.service = s.service
  server : t.server = s.server
  handled : t.handled = s.handled
  waits : ∀ i, (s.client i).pc.blocked = true → t.client i = s.client i

omit [DecidableEq ι] in
theorem Halted.trans {u : Net ι} (h : Halted s t) (h' : Halted t u) : Halted s u where
  service := h'.service.trans h.service
  server := h'.server.trans h.server
  handled := h'.handled.trans h.handled
  waits i blocked := (h'.waits i (by rwa [h.waits i blocked])).trans (h.waits i blocked)

omit [DecidableEq ι] in
theorem Crashed.halted {k : Fin maxSessions} {cmd : List UInt8} (h : s.Crashed k c cmd) (halted : Halted s t) :
    t.Crashed k c cmd := ⟨halted.server.trans h.server, by rw [halted.service]; exact h.fault⟩

theorem Crashed.call {k : Fin maxSessions} {cmd : List UInt8} (h : s.Crashed k c cmd) {i : ι}
    (idle : (s.client i).pc.isIdle = true) (f : FileCall) : Halted s (s.call i f) := by
  obtain ⟨service, handled, _, others⟩ := call_frame s i f
  have server : (s.call i f).server = s.server := by
    rcases call_moves s i f with ⟨_, eq⟩ | ⟨_, _, _, _, _, accepting, _⟩ | ⟨_, _, _, _, _, _, eq⟩ | ⟨_, _, _, eq⟩ |
      ⟨_, _, _, _, _, _, _, eq⟩ | ⟨_, _, _, eq⟩ | ⟨_, _, _, _, _, _, _, eq⟩
    · rw [eq]
    · rw [h.server] at accepting
      cases accepting
    all_goals exact (congrArg Net.server eq).trans rfl
  refine ⟨service, server, handled, fun j blocked => others j ?_⟩
  rintro rfl
  rw [ClientPc.blocked, idle] at blocked
  cases blocked

end Rest

end Net

/-! ## Programs that keep one file open -/

namespace Net

section Discipline

variable [DecidableEq ι] {s t : Net ι}

end Discipline

/-! ## The calls come to an end -/

section Ends

variable [DecidableEq ι] [Fintype ι] {s t : Net ι}

/-- Nobody waits, or all wait for a client that is in no call, and that has a file open, or for a server that has
panicked. -/
inductive Settled (s : Net ι) : Prop where
  | free (idle : ∀ i, (s.client i).pc = .idle)
  | held (i : ι) (idle : (s.client i).pc = .idle) (file : ¬NoFile (s.client i).fds)
      (line : ∀ j, (s.client j).pc = .idle ∨ ∃ c cmd e, (s.client j).pc = .connecting c cmd e ∧ c ∈ s.queue)
  | crashed (k : Fin maxSessions) (c : Conn ι) (cmd : List UInt8) (crash : s.Crashed k c cmd)
      (line : ∀ j, (s.client j).pc = .idle ∨ (∃ d cmd e, (s.client j).pc = .connecting d cmd e ∧ d ∈ s.queue) ∨
        c.owner = j ∧ ∃ cmd e, (s.client j).pc = .receiving c cmd e)

omit [DecidableEq ι] [Fintype ι] in
theorem Rests.settled (h : s.Rests) (calm : ¬s.Doomed) : s.Settled := by
  rcases h with ⟨_, _, idle⟩ | ⟨k, c, _, open_, line⟩ | ⟨k, c, cmd, crash, line⟩
  · exact .free fun i => (idle i).1
  · have file : ¬NoFile (s.client c.owner).fds := fun none_ => by
      obtain ⟨fd, r, here, _⟩ := open_
      exact none_ fd c r here
    rcases line c.owner with idle | ⟨d, cmd, e, pc, _⟩
    · exact .held c.owner idle file line
    · exact absurd ⟨c.owner, by rw [pc]; rfl, file⟩ calm
  · exact .crashed k c cmd crash line

end Ends

/-! ## Any programs -/

section Programs

variable [DecidableEq ι] {s : Net ι}

/-- The first of two clients opens a file. -/
def opening : List (NetOp (Fin 2)) :=
  [.server, .call 0 (.openPath [97] 64), .server, .client 0, .server, .server, .client 0, .server]

end Programs

end Net

end CapsuleOS.Libc
