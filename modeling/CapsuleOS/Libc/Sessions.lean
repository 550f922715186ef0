import CapsuleOS.Libc.Clients

/-!
# One session at a time

The server goes on with one connection until it is closed. A client that is not served is in no call, or its lookup
waits, and it has no file open; the client that is served stands where the server expects it (`Inside`). `Sound`
says so of a state. In such a state a call, a step of a client and a step of the server are one of few things
(`CallMoves`, `ClientMoves`, `ServerMoves`), from which the later modules derive what every step keeps.
-/
namespace CapsuleOS.Libc

open Lib Fileagent

variable {ι : Type}

/-! ## Requests -/

/-- A `close`, whose response nobody reads. -/
def isClose (cmd : List UInt8) : Bool := cmd.head? == some vfsClose

/-- A request of libc, and how its call goes on. -/
structure Encoded (cmd : List UInt8) (e : Ending) : Prop where
  size : cmd.length = cmdSize
  closes : isClose cmd = true ↔ e = .closes

theorem ne_nil_of_size {cmd : List UInt8} (size : cmd.length = cmdSize) : cmd ≠ [] := by
  rintro rfl
  cases size

theorem request_encoded {cmd : UInt8} {arg1 arg2 : BitVec 32} {data : List UInt8} {e : Ending}
    (closes : (cmd == vfsClose) = true ↔ e = .closes) : Encoded (request cmd arg1 arg2 data) e :=
  ⟨request_length, closes⟩

/-! ## Where the server stands -/

namespace ServerPc

/-- The connection that is served. -/
def conn? : ServerPc ι → Option (Conn ι)
  | .accept | .accepting => none
  | .accepted c | .receive _ c | .receiving _ c | .handle _ c _ | .reply _ c _ | .replying _ c _ => some c

/-- Its session. -/
def slot? : ServerPc ι → Option (Fin maxSessions)
  | .accept | .accepting | .accepted _ => none
  | .receive k _ | .receiving k _ | .handle k _ _ | .reply k _ _ | .replying k _ _ => some k

/-- From a request to its response. -/
def busy : ServerPc ι → Bool
  | .handle _ _ _ | .reply _ _ _ | .replying _ _ _ => true
  | _ => false

/-- Blocked in reading a request, or in writing a response. -/
def receives : ServerPc ι → Bool
  | .receiving _ _ => true
  | _ => false

def replies : ServerPc ι → Bool
  | .replying _ _ _ => true
  | _ => false

/-- A request has its size. -/
def Asked : ServerPc ι → Prop
  | .handle _ _ cmd => cmd.length = cmdSize
  | _ => True

end ServerPc

/-! ## Where a client stands -/

section Fds

variable {fds : Fin userFds → Option (FdType ι)} {fd : Fin userFds} {c : Conn ι}

def NoFile (fds : Fin userFds → Option (FdType ι)) : Prop := ∀ fd c r, fds fd ≠ some (.file c r)

/-- One file is open, on the connection. -/
def OnlyFile (fds : Fin userFds → Option (FdType ι)) (c : Conn ι) : Prop :=
  ∃ fd r, fds fd = some (.file c r) ∧ ∀ fd' c' r', fds fd' = some (.file c' r') → fd' = fd

theorem OnlyFile.conn (h : OnlyFile fds c) {c' : Conn ι} {r : BitVec 32} (here : fds fd = some (.file c' r)) :
    c' = c := by
  obtain ⟨fd', r', open_, only⟩ := h
  obtain rfl := only fd c' r here
  rw [open_] at here
  cases here
  rfl

/-- Another entry is taken out. -/
theorem NoFile.drop (h : NoFile fds) (fd : Fin userFds) : NoFile (Function.update fds fd none) := by
  intro fd' c r here
  by_cases same : fd' = fd
  · rw [same, Function.update_self] at here
    cases here
  · rw [Function.update_of_ne same] at here
    exact h fd' c r here

theorem OnlyFile.drop (h : OnlyFile fds c) (other : ∀ c' r, fds fd ≠ some (.file c' r)) :
    OnlyFile (Function.update fds fd none) c := by
  obtain ⟨fd', r, open_, only⟩ := h
  have ne : fd' ≠ fd := by
    rintro rfl
    exact other c r open_
  refine ⟨fd', r, (Function.update_of_ne ne _ _).trans open_, fun fd'' c' r' here => ?_⟩
  by_cases same : fd'' = fd
  · rw [same, Function.update_self] at here
    cases here
  · rw [Function.update_of_ne same] at here
    exact only fd'' c' r' here

/-- The file is closed. -/
theorem OnlyFile.close (h : OnlyFile fds c) {c' : Conn ι} {r : BitVec 32} (here : fds fd = some (.file c' r)) :
    NoFile (Function.update fds fd none) := by
  obtain ⟨fd', r', open_, only⟩ := h
  obtain rfl := only fd c' r here
  intro fd'' d r'' still
  by_cases same : fd'' = fd
  · rw [same, Function.update_self] at still
    cases still
  · rw [Function.update_of_ne same] at still
    exact same (only fd'' d r'' still)

theorem NoFile.openFd (h : NoFile fds) (fd : Fin userFds) (c : Conn ι) (r : BitVec 32) :
    OnlyFile (Function.update fds fd (some (.file c r))) c := by
  refine ⟨fd, r, Function.update_self _ _ _, fun fd' c' r' here => ?_⟩
  by_contra other
  rw [Function.update_of_ne other] at here
  exact h fd' c' r' here

end Fds

/-- In no call, or in a lookup. -/
def ClientPc.outside : ClientPc ι → Bool
  | .idle | .connecting _ _ _ => true
  | _ => false

/-- A client that is not served. -/
structure Outside (cl : Client ι) : Prop where
  pc : cl.pc.outside = true
  fds : NoFile cl.fds

/-- In a lookup. -/
def ClientPc.connects : ClientPc ι → Bool
  | .connecting _ _ _ => true
  | _ => false

/-- The descriptors during a call. -/
def Fits (c : Conn ι) (fds : Fin userFds → Option (FdType ι)) : Ending → Prop
  | .stays => OnlyFile fds c
  | _ => NoFile fds

/-- The client that is served. -/
inductive Inside (c : Conn ι) (sv : ServerPc ι) (cl : Client ι) : Prop where
  /-- Its file is open, and it is in no call, or in the lookup of another connection. -/
  | quiet (pc : cl.pc.outside = true) (between : sv.busy = false) (only : OnlyFile cl.fds c)
  | send {cmd : List UInt8} {e : Ending} (pc : cl.pc = .send c cmd e) (between : sv.busy = false)
      (encoded : Encoded cmd e) (fits : Fits c cl.fds e)
  | sending {cmd : List UInt8} {e : Ending} (pc : cl.pc = .sending c cmd e) (between : sv.busy = false)
      (apart : sv.receives = false) (encoded : Encoded cmd e) (fits : Fits c cl.fds e)
  | receive {cmd : List UInt8} {e : Ending} (pc : cl.pc = .receive c cmd e) (busy : sv.busy = true)
      (answered : e ≠ .closes) (fits : Fits c cl.fds e)
  | receiving {cmd : List UInt8} {e : Ending} (pc : cl.pc = .receiving c cmd e) (busy : sv.busy = true)
      (apart : sv.replies = false) (answered : e ≠ .closes) (fits : Fits c cl.fds e)
  | hangUp (pc : cl.pc = .hangUp c) (fds : NoFile cl.fds)

/-- A lookup that waits. -/
structure Waits (s : Net ι) (i : ι) (c : Conn ι) (cmd : List UInt8) (e : Ending) : Prop where
  owner : c.owner = i
  queued : c ∈ s.queue
  encoded : Encoded cmd e
  opens : e = .keeps ∨ e = .hangsUp

theorem ClientPc.connects_of_idle {pc : ClientPc ι} (idle : pc.isIdle = true) : pc.connects = false := by
  cases pc <;> cases idle
  rfl

theorem ClientPc.outside_of_idle {pc : ClientPc ι} (idle : pc.isIdle = true) : pc.outside = true := by
  cases pc <;> cases idle
  rfl

section Inside

variable {c : Conn ι} {sv : ServerPc ι} {cl : Client ι}

/-- Outside of calls the file is open. -/
theorem Inside.of_outside (h : Inside c sv cl) (out : cl.pc.outside = true) : sv.busy = false ∧ OnlyFile cl.fds c := by
  rcases h with ⟨_, between, only⟩ | ⟨pc, _⟩ | ⟨pc, _⟩ | ⟨pc, _⟩ | ⟨pc, _⟩ | ⟨pc, _⟩
  · exact ⟨between, only⟩
  all_goals
    rw [pc] at out
    cases out

theorem Inside.of_send (h : Inside c sv cl) {d : Conn ι} {cmd : List UInt8} {e : Ending} (here : cl.pc = .send d cmd e) :
    d = c ∧ sv.busy = false ∧ Encoded cmd e ∧ Fits c cl.fds e := by
  rcases h with ⟨pc, _⟩ | ⟨pc, between, encoded, fits⟩ | ⟨pc, _⟩ | ⟨pc, _⟩ | ⟨pc, _⟩ | ⟨pc, _⟩ <;> rw [here] at pc <;>
    cases pc
  exact ⟨rfl, between, encoded, fits⟩

theorem Inside.of_sending (h : Inside c sv cl) {d : Conn ι} {cmd : List UInt8} {e : Ending}
    (here : cl.pc = .sending d cmd e) : d = c ∧ sv.busy = false ∧ Encoded cmd e ∧ Fits c cl.fds e := by
  rcases h with ⟨pc, _⟩ | ⟨pc, _⟩ | ⟨pc, between, _, encoded, fits⟩ | ⟨pc, _⟩ | ⟨pc, _⟩ | ⟨pc, _⟩ <;> rw [here] at pc <;>
    cases pc
  exact ⟨rfl, between, encoded, fits⟩

theorem Inside.of_receive (h : Inside c sv cl) {d : Conn ι} {cmd : List UInt8} {e : Ending}
    (here : cl.pc = .receive d cmd e) : d = c ∧ sv.busy = true ∧ e ≠ .closes ∧ Fits c cl.fds e := by
  rcases h with ⟨pc, _⟩ | ⟨pc, _⟩ | ⟨pc, _⟩ | ⟨pc, busy, answered, fits⟩ | ⟨pc, _⟩ | ⟨pc, _⟩ <;> rw [here] at pc <;>
    cases pc
  exact ⟨rfl, busy, answered, fits⟩

theorem Inside.of_receiving (h : Inside c sv cl) {d : Conn ι} {cmd : List UInt8} {e : Ending}
    (here : cl.pc = .receiving d cmd e) : d = c ∧ sv.busy = true ∧ e ≠ .closes ∧ Fits c cl.fds e := by
  rcases h with ⟨pc, _⟩ | ⟨pc, _⟩ | ⟨pc, _⟩ | ⟨pc, _⟩ | ⟨pc, busy, _, answered, fits⟩ | ⟨pc, _⟩ <;> rw [here] at pc <;>
    cases pc
  exact ⟨rfl, busy, answered, fits⟩

theorem Inside.of_hangUp (h : Inside c sv cl) {d : Conn ι} (here : cl.pc = .hangUp d) : d = c ∧ NoFile cl.fds := by
  rcases h with ⟨pc, _⟩ | ⟨pc, _⟩ | ⟨pc, _⟩ | ⟨pc, _⟩ | ⟨pc, _⟩ | ⟨pc, fds⟩ <;> rw [here] at pc <;> cases pc
  exact ⟨rfl, fds⟩

/-- The request is with the server. -/
theorem Inside.of_sent {cmd : List UInt8} {e : Ending} (pc : cl.pc = Net.sent c cmd e) (busy : sv.busy = true)
    (fits : Fits c cl.fds e) : Inside c sv cl := by
  cases e with
  | closes => exact .hangUp pc fits
  | keeps => exact .receive pc busy (by decide) fits
  | hangsUp => exact .receive pc busy (by decide) fits
  | stays => exact .receive pc busy (by decide) fits

theorem sent_connects {cmd : List UInt8} {e : Ending} : (Net.sent c cmd e).connects = false := by cases e <;> rfl

theorem Inside.not_outside (h : Inside c sv cl) : ¬Outside cl := by
  intro out
  obtain ⟨-, fd, r, here, -⟩ := h.of_outside out.pc
  exact out.fds fd c r here

/-- The server goes on between two requests, or with one. -/
theorem Inside.later {sv' : ServerPc ι} (h : Inside c sv cl) (between : sv.busy = false)
    (still : sv'.busy = false) (apart : sv'.receives = true → ∀ d cmd e, cl.pc ≠ .sending d cmd e) : Inside c sv' cl := by
  rcases h with ⟨pc, _, only⟩ | ⟨pc, _, encoded, fits⟩ | ⟨pc, _, _, encoded, fits⟩ | ⟨_, busy, _⟩ | ⟨_, busy, _⟩ | ⟨pc, fds⟩
  · exact .quiet pc still only
  · exact .send pc still encoded fits
  · exact .sending pc still (Bool.eq_false_iff.mpr fun receives => apart receives _ _ _ pc) encoded fits
  · rw [busy] at between
    cases between
  · rw [busy] at between
    cases between
  · exact .hangUp pc fds

theorem Inside.waits {sv' : ServerPc ι} (h : Inside c sv cl) (busy : sv.busy = true)
    (still : sv'.busy = true) (apart : sv'.replies = true → ∀ d cmd e, cl.pc ≠ .receiving d cmd e) : Inside c sv' cl := by
  rcases h with ⟨_, between, _⟩ | ⟨_, between, _⟩ | ⟨_, between, _⟩ | ⟨pc, _, answered, fits⟩ | ⟨pc, _, _, answered, fits⟩ |
    ⟨pc, fds⟩
  · rw [busy] at between
    cases between
  · rw [busy] at between
    cases between
  · rw [busy] at between
    cases between
  · exact .receive pc still answered fits
  · exact .receiving pc still (Bool.eq_false_iff.mpr fun replies => apart replies _ _ _ pc) answered fits
  · exact .hangUp pc fds

end Inside

/-- The calls that make a connection. -/
def FileCall.connects : FileCall → Bool
  | .openPath _ _ | .mkdir _ | .rmdir _ | .unlink _ | .stat _ => true
  | .read _ _ | .write _ _ | .close _ | .readdir _ _ => false

theorem ClientPc.inside_of_goes {pc : ClientPc ι} (goes : pc.goes = true) : pc.outside = false := by
  cases pc <;> cases goes <;> rfl

namespace Net

structure Sound (s : Net ι) : Prop where
  outside : ∀ i, (∀ c, s.server.conn? = some c → c.owner = i → c ∈ s.closed) → Outside (s.client i)
  inside : ∀ c, s.server.conn? = some c → c ∉ s.closed → Inside c s.server (s.client c.owner)
  awake : s.server.blocked = true → ∀ c, s.server.conn? = some c → c ∉ s.closed
  waits : ∀ i c cmd e, (s.client i).pc = .connecting c cmd e → Waits s i c cmd e
  line : ∀ c ∈ s.queue, ∃ cmd e, (s.client c.owner).pc = .connecting c cmd e
  accepting : s.server = .accepting → s.queue = []
  /-- The connections are accepted in the order of their lookups. -/
  past : ∀ c, c ∈ s.closed ∨ s.server.conn? = some c → c.id < s.next ∧ ∀ d ∈ s.queue, c.id < d.id
  order : s.queue.Pairwise (·.id < ·.id)
  fresh : ∀ c ∈ s.queue, c.id < s.next
  /-- The server uses its first session. -/
  slot : ∀ k, s.server.slot? = some k → k = 0
  sessions : ∀ k, (s.service.vfs.sessions k).isSome = true → s.server.slot? = some k
  asked : s.server.Asked

theorem boot_sound : (boot : Net ι).Sound where
  outside i _ := by
    refine ⟨rfl, fun fd c r here => ?_⟩
    have entry : (if fd.val < 3 then some FdType.console else none : Option (FdType ι)) = some (.file c r) := here
    split_ifs at entry
    cases entry
  inside _ cur := by cases cur
  awake := by intro blocked; cases blocked
  waits _ _ _ _ waiting := by cases waiting
  line _ mem := by cases mem
  accepting _ := rfl
  past := by
    rintro c (mem | cur)
    · cases mem
    · cases cur
  order := .nil
  fresh _ mem := by cases mem
  slot _ here := by cases here
  sessions k live := by
    have none_ : Service.start.vfs.sessions k = none := rfl
    exact absurd live (by simp [boot, none_])
  asked := trivial

section Moves

variable [DecidableEq ι] {s t : Net ι} {c : Conn ι}

/-! ## What a call does -/

omit [DecidableEq ι] in
theorem fdEntry_eq {i : ι} {fd : BitVec 32} {entry : FdType ι} (found : s.fdEntry i fd = some entry) :
    ∃ inside : fd.toNat < userFds, (s.client i).fds ⟨fd.toNat, inside⟩ = some entry := by
  unfold fdEntry at found
  split_ifs at found with inside
  exact ⟨inside, found⟩

/-- What a call does up to its first call of the kernel, or through the lookup. -/
inductive CallMoves (s t : Net ι) (i : ι) (f : FileCall) : Prop where
  /-- It returns. -/
  | returns (alone : f.connects = false) (eq : t = s)
  /-- The server waits for a connection. -/
  | accepted (cmd : List UInt8) (e : Ending) (connects : f.connects = true) (encoded : Encoded cmd e)
      (opens : e = .keeps ∨ e = .hangsUp) (accepting : s.server = .accepting)
      (eq : t = { s with next := s.next + 1, server := .accepted ⟨i, s.next⟩ }.setPc i (.send ⟨i, s.next⟩ cmd e))
  /-- The lookup joins the line. -/
  | queued (cmd : List UInt8) (e : Ending) (connects : f.connects = true) (encoded : Encoded cmd e)
      (opens : e = .keeps ∨ e = .hangsUp) (busy : s.server ≠ .accepting)
      (eq : t = { s with next := s.next + 1, queue := s.queue ++ [Conn.mk i s.next] }.setPc i (.connecting ⟨i, s.next⟩ cmd e))
  /-- The lookup fails, and its connection is lost. -/
  | refused (connects : f.connects = true) (full : ¬s.queue.length < maxLookups) (busy : s.server ≠ .accepting)
      (eq : t = { s with next := s.next + 1 })
  | requests (fd : Fin userFds) (d : Conn ι) (r : BitVec 32) (cmd : List UInt8) (alone : f.connects = false)
      (here : (s.client i).fds fd = some (.file d r)) (encoded : Encoded cmd .stays) (eq : t = s.setPc i (.send d cmd .stays))
  /-- The descriptor of no file is closed. -/
  | drops (fd : Fin userFds) (alone : f.connects = false) (other : ∀ d r, (s.client i).fds fd ≠ some (.file d r))
      (eq : t = s.setFds i (Function.update (s.client i).fds fd none))
  | closes (fd : Fin userFds) (d : Conn ι) (r : BitVec 32) (cmd : List UInt8) (alone : f.connects = false)
      (here : (s.client i).fds fd = some (.file d r)) (encoded : Encoded cmd .closes)
      (eq : t = (s.setFds i (Function.update (s.client i).fds fd none)).setPc i (.send d cmd .closes))

theorem lookup_moves {i : ι} {f : FileCall} {cmd : List UInt8} {e : Ending} (connects : f.connects = true)
    (encoded : Encoded cmd e) (opens : e = .keeps ∨ e = .hangsUp) : CallMoves s (s.lookup i cmd e) i f := by
  unfold Net.lookup
  dsimp only
  split
  · rename_i accepting
    exact .accepted cmd e connects encoded opens accepting rfl
  · rename_i busy
    split_ifs with room
    · exact .queued cmd e connects encoded opens busy rfl
    · exact .refused connects room busy rfl

theorem request_moves {i : ι} {f : FileCall} {fd : BitVec 32} {cmd : BitVec 32 → List UInt8} (alone : f.connects = false)
    (encoded : ∀ r, Encoded (cmd r) .stays) : CallMoves s (s.request i fd cmd) i f := by
  unfold Net.request
  split
  · rename_i d r found
    obtain ⟨inside, here⟩ := fdEntry_eq found
    exact .requests _ d r _ alone here (encoded r) rfl
  · exact .returns alone rfl

theorem closeFd_moves {i : ι} {f : FileCall} {fd : BitVec 32} (alone : f.connects = false) :
    CallMoves s (s.closeFd i fd) i f := by
  unfold Net.closeFd
  split_ifs with inside
  · dsimp only
    split
    · rename_i d r here
      exact .closes _ d r _ alone here (request_encoded (by decide)) rfl
    · rename_i other
      exact .drops _ alone (fun d r here => other d r here) rfl
  · exact .returns alone rfl

theorem call_moves (s : Net ι) (i : ι) (f : FileCall) : CallMoves s (s.call i f) i f := by
  cases f with
  | openPath path flags => exact lookup_moves rfl (request_encoded (by decide)) (.inl rfl)
  | mkdir path => exact lookup_moves rfl (request_encoded (by decide)) (.inr rfl)
  | rmdir path => exact lookup_moves rfl (request_encoded (by decide)) (.inr rfl)
  | unlink path => exact lookup_moves rfl (request_encoded (by decide)) (.inr rfl)
  | stat path => exact lookup_moves rfl (request_encoded (by decide)) (.inr rfl)
  | close fd => exact closeFd_moves rfl
  | read fd count =>
    rw [Net.call]
    split_ifs
    · exact .returns rfl rfl
    · exact request_moves rfl fun _ => request_encoded (by decide)
  | write fd data =>
    rw [Net.call]
    split_ifs
    · exact .returns rfl rfl
    · exact request_moves rfl fun _ => request_encoded (by decide)
  | readdir fd count =>
    rw [Net.call]
    split_ifs
    · exact .returns rfl rfl
    · exact request_moves rfl fun _ => request_encoded (by decide)

/-! ## What a client does -/

omit [DecidableEq ι] in
/-- A client in the middle of a call, or with an open file, is the one that is served. -/
theorem Sound.served (h : s.Sound) {i : ι} (busy : ¬Outside (s.client i)) :
    ∃ c, s.server.conn? = some c ∧ c.owner = i ∧ c ∉ s.closed := by
  by_contra none_
  push Not at none_
  exact busy (h.outside i none_)

omit [DecidableEq ι] in
/-- What the client in front of a call of the kernel is doing. -/
theorem Sound.served_of_pc (h : s.Sound) {i : ι} (busy : (s.client i).pc.outside = false) :
    ∃ c, s.server.conn? = some c ∧ c.owner = i ∧ c ∉ s.closed ∧ Inside c s.server (s.client i) := by
  obtain ⟨c, cur, rfl, open_⟩ := h.served fun out => by
    rw [out.pc] at busy
    cases busy
  exact ⟨c, cur, rfl, open_, h.inside c cur open_⟩

omit [DecidableEq ι] in
theorem Sound.served_of_file (h : s.Sound) {i : ι} (idle : (s.client i).pc.isIdle = true) {fd : Fin userFds} {d : Conn ι}
    {r : BitVec 32} (here : (s.client i).fds fd = some (.file d r)) :
    s.server.conn? = some d ∧ d.owner = i ∧ d ∉ s.closed ∧ s.server.busy = false ∧ OnlyFile (s.client i).fds d := by
  obtain ⟨c, cur, rfl, open_⟩ := h.served fun out => out.fds fd d r here
  obtain ⟨between, only⟩ := (h.inside c cur open_).of_outside (ClientPc.outside_of_idle idle)
  obtain rfl := only.conn here
  exact ⟨cur, rfl, open_, between, only⟩

/-- The request is with the server. -/
def delivered (k : Fin maxSessions) (c : Conn ι) (cmd : List UInt8) (e : Ending) (s : Net ι) : Net ι :=
  (s.setServer (.handle k c cmd)).setPc c.owner (sent c cmd e)

/-- The response is with the client. -/
def returned (k : Fin maxSessions) (c : Conn ι) (cmd resp : List UInt8) (e : Ending) (s : Net ι) : Net ι :=
  (s.setServer (.receive k c)).arrived c.owner c cmd resp e

/-- What a client in a call can do. -/
inductive ClientMoves (s t : Net ι) (c : Conn ι) : Prop where
  | delivers (k : Fin maxSessions) (cmd : List UInt8) (e : Ending) (pc : (s.client c.owner).pc = .send c cmd e)
      (server : s.server = .receiving k c) (encoded : Encoded cmd e) (fits : Fits c (s.client c.owner).fds e)
      (eq : t = s.delivered k c cmd e)
  | sends (cmd : List UInt8) (e : Ending) (pc : (s.client c.owner).pc = .send c cmd e) (between : s.server.busy = false)
      (apart : s.server.receives = false) (encoded : Encoded cmd e) (fits : Fits c (s.client c.owner).fds e)
      (eq : t = s.setPc c.owner (.sending c cmd e))
  | takes (k : Fin maxSessions) (cmd resp : List UInt8) (e : Ending) (pc : (s.client c.owner).pc = .receive c cmd e)
      (server : s.server = .replying k c resp) (answered : e ≠ .closes) (fits : Fits c (s.client c.owner).fds e)
      (eq : t = s.returned k c cmd resp e)
  | waits (cmd : List UInt8) (e : Ending) (pc : (s.client c.owner).pc = .receive c cmd e) (busy : s.server.busy = true)
      (apart : s.server.replies = false) (answered : e ≠ .closes) (fits : Fits c (s.client c.owner).fds e)
      (eq : t = s.setPc c.owner (.receiving c cmd e))
  | hangsUp (pc : (s.client c.owner).pc = .hangUp c) (fds : NoFile (s.client c.owner).fds) (eq : t = s.clientClose c.owner c)

theorem Sound.clientMoves (h : s.Sound) {i : ι} (goes : (s.client i).pc.goes = true) :
    ∃ c, s.server.conn? = some c ∧ c.owner = i ∧ c ∉ s.closed ∧ ClientMoves s (s.clientStep i) c := by
  obtain ⟨c, cur, rfl, open_, inside⟩ := h.served_of_pc (ClientPc.inside_of_goes goes)
  refine ⟨c, cur, rfl, open_, ?_⟩
  unfold Net.clientStep
  cases pc : (s.client c.owner).pc with
  | send d cmd e =>
    obtain ⟨rfl, between, encoded, fits⟩ := inside.of_send pc
    dsimp only
    rw [Net.clientWrite, if_neg open_]
    split
    · rename_i k d' receiving
      obtain rfl : d' = d := by
        rw [receiving] at cur
        exact Option.some.inj cur
      rw [if_pos rfl]
      exact .delivers k cmd e pc receiving encoded fits rfl
    · rename_i other
      have apart : s.server.receives = false := by
        cases server : s.server
        case receiving k c' => exact (other k c' server).elim
        all_goals rfl
      exact .sends cmd e pc between apart encoded fits rfl
  | receive d cmd e =>
    obtain ⟨rfl, busy, answered, fits⟩ := inside.of_receive pc
    dsimp only
    rw [Net.clientRead, if_neg open_]
    split
    · rename_i k d' resp replying
      obtain rfl : d' = d := by
        rw [replying] at cur
        exact Option.some.inj cur
      rw [if_pos rfl]
      exact .takes k cmd resp e pc replying answered fits rfl
    · rename_i other
      have apart : s.server.replies = false := by
        cases server : s.server
        case replying k c' resp => exact (other k c' resp server).elim
        all_goals rfl
      exact .waits cmd e pc busy apart answered fits rfl
  | hangUp d =>
    obtain ⟨rfl, fds⟩ := inside.of_hangUp pc
    exact .hangsUp pc fds rfl
  | idle =>
    rw [pc] at goes
    cases goes
  | connecting d cmd e =>
    rw [pc] at goes
    cases goes
  | sending d cmd e =>
    rw [pc] at goes
    cases goes
  | receiving d cmd e =>
    rw [pc] at goes
    cases goes

/-! ## What the server does -/

/-- The server with another state of its files. -/
def withService (s : Net ι) (service : Service) (pc : ServerPc ι) : Net ι := { s with service, server := pc }

/-- What the server can do. -/
inductive ServerMoves (s t : Net ι) : Prop where
  | sleeps (pc : s.server = .accept) (empty : s.queue = []) (eq : t = s.setServer .accepting)
  | accepts (c : Conn ι) (rest : List (Conn ι)) (cmd : List UInt8) (e : Ending) (pc : s.server = .accept)
      (line : s.queue = c :: rest) (waiting : (s.client c.owner).pc = .connecting c cmd e)
      (eq : t = ({ s with queue := rest }.setServer (.accepted c)).setPc c.owner (.send c cmd e))
  | connects (c : Conn ι) (service : Service) (pc : s.server = .accepted c)
      (ran : Service.call Vfs.connect s.service = .ok (.ok (some 0)) service) (eq : t = s.withService service (.receive 0 c))
  | hangsUp (k : Fin maxSessions) (c : Conn ι) (service : Service) (pc : s.server = .receive k c) (closed : c ∈ s.closed)
      (ran : Service.call (Vfs.hangup k) s.service = .ok (.ok ()) service) (eq : t = s.withService service .accept)
  | delivers (k : Fin maxSessions) (c : Conn ι) (cmd : List UInt8) (e : Ending) (pc : s.server = .receive k c)
      (open_ : c ∉ s.closed) (sending : (s.client c.owner).pc = .sending c cmd e) (encoded : Encoded cmd e)
      (fits : Fits c (s.client c.owner).fds e) (eq : t = s.delivered k c cmd e)
  | reads (k : Fin maxSessions) (c : Conn ι) (pc : s.server = .receive k c) (open_ : c ∉ s.closed)
      (other : ∀ d cmd e, (s.client c.owner).pc ≠ .sending d cmd e) (eq : t = s.setServer (.receiving k c))
  | handles (k : Fin maxSessions) (c : Conn ι) (cmd resp : List UInt8) (service : Service)
      (pc : s.server = .handle k c cmd) (ran : Service.handleCmd k cmd s.service = .ok () service)
      (sent : service.sent = s.service.sent ++ [(k, resp)])
      (eq : t = { s.withService service (.reply k c resp) with handled := s.handled ++ [⟨c, cmd, resp⟩] })
  | takes (k : Fin maxSessions) (c : Conn ι) (cmd resp : List UInt8) (e : Ending) (pc : s.server = .reply k c resp)
      (open_ : c ∉ s.closed) (receiving : (s.client c.owner).pc = .receiving c cmd e) (answered : e ≠ .closes)
      (fits : Fits c (s.client c.owner).fds e) (eq : t = s.returned k c cmd resp e)
  | writes (k : Fin maxSessions) (c : Conn ι) (resp : List UInt8) (pc : s.server = .reply k c resp) (open_ : c ∉ s.closed)
      (other : ∀ d cmd e, (s.client c.owner).pc ≠ .receiving d cmd e) (eq : t = s.setServer (.replying k c resp))
  /-- The client does not read the response. -/
  | drops (k : Fin maxSessions) (c : Conn ι) (resp : List UInt8) (pc : s.server = .reply k c resp) (closed : c ∈ s.closed)
      (eq : t = s.setServer (.receive k c))

theorem Sound.accept_moves (h : s.Sound) (accept : s.server = .accept) : ServerMoves s s.serverAccept := by
  unfold Net.serverAccept
  split
  · rename_i empty
    exact .sleeps accept empty rfl
  · rename_i c rest line
    obtain ⟨cmd, e, waiting⟩ := h.line c (line ▸ List.mem_cons_self)
    dsimp only
    rw [setServer, waiting]
    exact .accepts c rest cmd e accept line waiting rfl

theorem Sound.read_moves (h : s.Sound) {k : Fin maxSessions} (receive : s.server = .receive k c) (open_ : c ∉ s.closed) :
    ServerMoves s (s.serverRead k c) := by
  have inside := h.inside c (by rw [receive]; rfl) open_
  unfold Net.serverRead
  split
  · rename_i d cmd e sending
    obtain ⟨rfl, _, encoded, fits⟩ := inside.of_sending sending
    rw [if_pos rfl]
    exact .delivers k d cmd e receive open_ sending encoded fits rfl
  · rename_i other
    exact .reads k c receive open_ (fun d cmd e pc => other d cmd e pc) rfl

theorem Sound.write_moves (h : s.Sound) {k : Fin maxSessions} {resp : List UInt8} (reply : s.server = .reply k c resp) :
    ServerMoves s (s.serverWrite k c resp) := by
  unfold Net.serverWrite
  split_ifs with closed
  · exact .drops k c resp reply closed rfl
  · have inside := h.inside c (by rw [reply]; rfl) closed
    split
    · rename_i d cmd e receiving
      obtain ⟨rfl, _, answered, fits⟩ := inside.of_receiving receiving
      rw [if_pos rfl]
      exact .takes k d cmd resp e reply closed receiving answered fits rfl
    · rename_i other
      exact .writes k c resp reply closed (fun d cmd e pc => other d cmd e pc) rfl

omit [DecidableEq ι] in
/-- Between two connections all sessions are free. -/
theorem Sound.sessions_free (h : s.Sound) (accepted : s.server = .accepted c) (k : Fin maxSessions) :
    s.service.vfs.sessions k = none := by
  by_contra live
  have slot := h.sessions k (Option.isSome_iff_ne_none.mpr live)
  rw [accepted] at slot
  cases slot

omit [DecidableEq ι] in
theorem Sound.connect_ran (h : s.Sound) (accepted : s.server = .accepted c) : Service.call Vfs.connect s.service =
    .ok (.ok (some 0)) { s.service with vfs := s.service.vfs.setSession 0 (some ⟨fun _ => none⟩) } := by
  have first : ((List.finRange maxSessions).find? fun k => (s.service.vfs.sessions k).isNone) = some 0 := by
    simp only [h.sessions_free accepted, Option.isNone_none]
    rfl
  simp [Service.call, Prog.zoom, Prog.attempt, Vfs.connect, Prog.bind_apply, first]

theorem Sound.serverMoves (h : s.Sound) (awake : s.server.blocked = false) (ran : (serverStep s).Ends t) :
    ServerMoves s t := by
  rw [Net.serverStep, Prog.bind_ok (Prog.get_apply s)] at ran
  cases pc : s.server with
  | accept =>
    rw [pc] at ran
    obtain rfl : s.serverAccept = t := ran.state_eq
    exact h.accept_moves pc
  | accepted c =>
    have call := h.connect_ran pc
    rw [pc] at ran
    dsimp only at ran
    rw [Prog.bind_ok (show onService (Service.call Vfs.connect) s = _ from Prog.zoom_ok call)] at ran
    exact .connects c _ pc call ran.state_eq.symm
  | receive k c =>
    rw [pc] at ran
    dsimp only at ran
    split_ifs at ran with closed
    · have call : Service.call (Vfs.hangup k) s.service =
          .ok (.ok ()) { s.service with vfs := s.service.vfs.setSession k none } := rfl
      rw [Prog.bind_ok (show onService (Service.call (Vfs.hangup k)) s = _ from Prog.zoom_ok call)] at ran
      exact .hangsUp k c _ pc closed call ran.state_eq.symm
    · obtain rfl : s.serverRead k c = t := ran.state_eq
      exact h.read_moves pc closed
  | handle k c cmd =>
    have size : cmd.length = cmdSize := by
      have asked := h.asked
      rwa [pc] at asked
    rw [pc] at ran
    dsimp only at ran
    cases handled : Service.handleCmd k cmd s.service with
    | ok a service =>
      obtain ⟨resp, sent⟩ := (handleCmd_sends (ne_nil_of_size size)).ok () service handled
      have zoomed : onService (Service.handleCmd k cmd) s = .ok () { s with service } := Prog.zoom_ok handled
      have message : service.sent[s.service.sent.length]? = some (k, resp) := by rw [sent]; simp
      rw [Prog.bind_ok zoomed] at ran
      obtain rfl : answered k c cmd s.service.sent.length { s with service } = t := ran.state_eq
      refine .handles k c cmd resp service pc handled sent ?_
      rw [answered, message]
      rfl
    | err e service => exact (handleCmd_noErr cmd s.service e service handled).elim
    | fault service =>
      have zoomed : onService (Service.handleCmd k cmd) s = .fault { s with service } := Prog.zoom_fault handled
      rw [Prog.bind_fault zoomed] at ran
      cases ran
  | reply k c resp =>
    rw [pc] at ran
    obtain rfl : s.serverWrite k c resp = t := ran.state_eq
    exact h.write_moves pc
  | accepting =>
    rw [pc] at awake
    cases awake
  | receiving k c =>
    rw [pc] at awake
    cases awake
  | replying k c resp =>
    rw [pc] at awake
    cases awake

end Moves

end Net

end CapsuleOS.Libc
