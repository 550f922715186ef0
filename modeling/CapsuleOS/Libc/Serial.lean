import CapsuleOS.Libc.Progress

/-!
# The requests one after the other

In whatever order the threads go on, the server has been through connections that came one behind the other
(`Serial`), and each client gets the answers to its own requests, every one once and in order (`Answered`).
-/
namespace CapsuleOS.Libc

open Lib Fileagent

variable {ι : Type}

/-- Connections one behind the other, and the requests on each with their answers. -/
inductive Serial : Option (Conn ι) → Service → List (Exchange ι) → Prop where
  | start : Serial none .start []
  | connect {s t : Service} {done : List (Exchange ι)} {c : Conn ι} (before : Serial none s done)
      (later : ∀ x ∈ done, x.conn.id < c.id) (ran : Service.call Vfs.connect s = .ok (.ok (some 0)) t) :
      Serial (some c) t done
  | request {s t : Service} {done : List (Exchange ι)} {c : Conn ι} {cmd resp : List UInt8}
      (before : Serial (some c) s done) (size : cmd.length = cmdSize) (ran : Service.handleCmd 0 cmd s = .ok () t)
      (sent : t.sent = s.sent ++ [(0, resp)]) : Serial (some c) t (done ++ [⟨c, cmd, resp⟩])
  | hangup {s t : Service} {done : List (Exchange ι)} {c : Conn ι} (before : Serial (some c) s done)
      (ran : Service.call (Vfs.hangup 0) s = .ok (.ok ()) t) : Serial none t done

/-- What holds of the server after any requests holds here. -/
theorem Serial.run {cur : Option (Conn ι)} {s : Service} {done : List (Exchange ι)} (h : Serial cur s done) :
    ServeOp.system.Run (fun _ _ => True) .start s := by
  induction h with
  | start => exact .start
  | connect _ _ ran ih => exact ih.step .connect trivial ⟨trivial, Outcome.ends_of_ok (Prog.bind_ok ran)⟩
  | @request s t done c cmd resp _ size ran _ ih => exact ih.step (.command 0 cmd) trivial ⟨size.le, Outcome.ends_of_ok ran⟩
  | hangup _ ran ih => exact ih.step (.hangup 0) trivial ⟨trivial, Outcome.ends_of_ok (Prog.bind_ok ran)⟩

/-- The connection whose session is open. -/
def ServerPc.session? : ServerPc ι → Option (Conn ι)
  | .accept | .accepting | .accepted _ => none
  | .receive _ c | .receiving _ c | .handle _ c _ | .reply _ c _ | .replying _ c _ => some c

/-- The response that is not with the client yet. -/
def ServerPc.response? : ServerPc ι → Option (List UInt8)
  | .reply _ _ resp | .replying _ _ resp => some resp
  | _ => none

/-- The request whose response the client waits for. -/
def ClientPc.awaited : ClientPc ι → Option (Conn ι × List UInt8)
  | .receive c cmd _ | .receiving c cmd _ => some (c, cmd)
  | _ => none

theorem ClientPc.awaited_of_outside {pc : ClientPc ι} (out : pc.outside = true) : pc.awaited = none := by
  cases pc <;> cases out <;> rfl

/-- The exchanges whose answers are read. -/
def answers (done : List (Exchange ι)) : List (Exchange ι) := done.filter fun x => !isClose x.cmd

theorem answers_append (done : List (Exchange ι)) (c : Conn ι) (cmd resp : List UInt8) :
    answers (done ++ [⟨c, cmd, resp⟩]) = answers done ++ if isClose cmd then [] else [⟨c, cmd, resp⟩] := by
  unfold answers
  rw [List.filter_append]
  cases closes : isClose cmd <;> simp [closes]

theorem sent_awaited {c : Conn ι} {cmd : List UInt8} {e : Ending} (encoded : Encoded cmd e) :
    (Net.sent c cmd e).awaited = if isClose cmd then none else some (c, cmd) := by
  by_cases closes : isClose cmd = true
  · rw [if_pos closes, encoded.closes.mp closes]
    rfl
  · have other : e ≠ .closes := fun here => closes (encoded.closes.mpr here)
    rw [if_neg closes]
    cases e with
    | closes => exact absurd rfl other
    | _ => rfl

namespace Net

/-! ## The order of the connections -/

structure InOrder (s : Net ι) : Prop where
  serial : Serial s.server.session? s.service s.handled
  ahead : ∀ x ∈ s.handled, x.conn.id < s.next ∧ ∀ d ∈ s.queue, x.conn.id < d.id
  accepted : ∀ c, s.server = .accepted c → ∀ x ∈ s.handled, x.conn.id < c.id

section Order

variable [DecidableEq ι] {s t : Net ι} {c : Conn ι}

omit [DecidableEq ι] in
/-- The files stay, and so do the connection and the line. -/
theorem InOrder.carry (h : s.InOrder) (service : t.service = s.service) (handled : t.handled = s.handled)
    (queue : t.queue = s.queue) (next : t.next = s.next) (session : t.server.session? = s.server.session?)
    (accepted : ∀ c, t.server = .accepted c → s.server = .accepted c) : t.InOrder := by
  refine ⟨?_, fun x mem => ?_, fun c here x mem => ?_⟩
  · rw [session, service, handled]
    exact h.serial
  · rw [next, queue]
    exact h.ahead x (handled ▸ mem)
  · exact h.accepted c (accepted c here) x (handled ▸ mem)

theorem InOrder.call (h : s.InOrder) (i : ι) (f : FileCall) : (s.call i f).InOrder := by
  have later : ∀ x ∈ s.handled, x.conn.id < s.next + 1 := fun x mem => (h.ahead x mem).1.trans (Nat.lt_succ_self _)
  rcases call_moves s i f with ⟨_, eq⟩ | ⟨_, _, _, _, _, accepting, eq⟩ | ⟨_, _, _, _, _, _, eq⟩ | ⟨_, _, _, eq⟩ |
    ⟨_, _, _, _, _, _, _, eq⟩ | ⟨_, _, _, eq⟩ | ⟨_, _, _, _, _, _, _, eq⟩ <;> rw [eq]
  · exact h
  · have serial := h.serial
    rw [accepting] at serial
    refine ⟨serial, fun x mem => ⟨later x mem, (h.ahead x mem).2⟩, fun c here x mem => ?_⟩
    cases here
    exact (h.ahead x mem).1
  · refine ⟨h.serial, fun x mem => ⟨later x mem, fun d mem' => ?_⟩, h.accepted⟩
    rcases List.mem_append.mp mem' with old | new
    · exact (h.ahead x mem).2 d old
    · obtain rfl := List.mem_singleton.mp new
      exact (h.ahead x mem).1
  · exact ⟨h.serial, fun x mem => ⟨later x mem, (h.ahead x mem).2⟩, h.accepted⟩
  · exact h.carry rfl rfl rfl rfl rfl fun _ here => here
  · exact h.carry rfl rfl rfl rfl rfl fun _ here => here
  · exact h.carry rfl rfl rfl rfl rfl fun _ here => here

theorem arrived_handled (s : Net ι) (i : ι) (c : Conn ι) (cmd resp : List UInt8) (e : Ending) :
    (s.arrived i c cmd resp e).handled = s.handled ∧ (s.arrived i c cmd resp e).got = s.got ++ [⟨c, cmd, resp⟩] := by
  cases e <;> try exact ⟨rfl, rfl⟩
  rw [arrived, opened]
  split_ifs
  · exact ⟨rfl, rfl⟩
  · dsimp only
    split <;> exact ⟨rfl, rfl⟩

theorem clientClose_handled (i : ι) (c : Conn ι) (s : Net ι) :
    (s.clientClose i c).handled = s.handled ∧ (s.clientClose i c).got = s.got := by
  unfold Net.clientClose
  dsimp only
  split
  · split_ifs <;> exact ⟨rfl, rfl⟩
  · split_ifs <;> exact ⟨rfl, rfl⟩
  · exact ⟨rfl, rfl⟩

/-- The server goes on behind a blocked call on the connection, or where it is. -/
theorem clientClose_wakes (i : ι) (c : Conn ι) (s : Net ι) : (s.clientClose i c).server = s.server ∨
    ∃ k, (s.clientClose i c).server = .receive k c ∧ s.server.session? = some c := by
  unfold Net.clientClose
  dsimp only
  split
  · rename_i k c' receiving
    have server : s.server = .receiving k c' := receiving
    split_ifs with same
    · exact .inr ⟨k, rfl, by rw [server, same]; rfl⟩
    · exact .inl rfl
  · rename_i k c' resp replying
    have server : s.server = .replying k c' resp := replying
    split_ifs with same
    · exact .inr ⟨k, rfl, by rw [server, same]; rfl⟩
    · exact .inl rfl
  · exact .inl rfl

theorem InOrder.returned (h : s.InOrder) {k : Fin maxSessions} (session : s.server.session? = some c) (cmd resp : List UInt8)
    (e : Ending) : (s.returned k c cmd resp e).InOrder := by
  have server := arrived_server (s.setServer (.receive k c)) c.owner c cmd resp e
  obtain ⟨⟨queue, _, next⟩, service⟩ := arrived_frame (s.setServer (.receive k c)) c.owner c cmd resp e
  obtain ⟨handled, _⟩ := arrived_handled (s.setServer (.receive k c)) c.owner c cmd resp e
  refine h.carry service handled queue next ?_ fun d here => ?_
  · rw [Net.returned, server, session]
    rfl
  · rw [Net.returned, server] at here
    cases here

theorem InOrder.of_clientMoves (h : s.InOrder) (moves : ClientMoves s t c) : t.InOrder := by
  rcases moves with ⟨k, cmd, e, pc, server, encoded, fits, eq⟩ | ⟨cmd, e, pc, between, apart, encoded, fits, eq⟩ |
    ⟨k, cmd, resp, e, pc, server, answered, fits, eq⟩ | ⟨cmd, e, pc, busy, apart, answered, fits, eq⟩ | ⟨pc, fds, eq⟩ <;>
    rw [eq]
  · exact h.carry rfl rfl rfl rfl (by rw [server]; rfl) fun _ here => by cases here
  · exact h.carry rfl rfl rfl rfl rfl fun _ here => here
  · exact h.returned (by rw [server]; rfl) cmd resp e
  · exact h.carry rfl rfl rfl rfl rfl fun _ here => here
  · obtain ⟨queue, _, next, service⟩ := clientClose_frame c.owner c s
    obtain ⟨handled, _⟩ := clientClose_handled c.owner c s
    rcases clientClose_wakes c.owner c s with same | ⟨k, woken, session⟩
    · exact h.carry service handled queue next (by rw [same]) fun d here => same ▸ here
    · refine h.carry service handled queue next (by rw [woken, session]; rfl) fun d here => ?_
      rw [woken] at here
      cases here

theorem InOrder.of_serverMoves (h : s.InOrder) (sound : s.Sound) (moves : ServerMoves s t) : t.InOrder := by
  rcases moves with ⟨pc, empty, eq⟩ | ⟨c, rest, cmd, e, pc, line, waiting, eq⟩ | ⟨c, service, pc, ran, eq⟩ |
    ⟨k, c, service, pc, closed, ran, eq⟩ | ⟨k, c, cmd, e, pc, open_, sending, encoded, fits, eq⟩ |
    ⟨k, c, pc, open_, other, eq⟩ | ⟨k, c, cmd, resp, service, pc, ran, sent, eq⟩ |
    ⟨k, c, cmd, resp, e, pc, open_, receiving, answered, fits, eq⟩ | ⟨k, c, resp, pc, open_, other, eq⟩ |
    ⟨k, c, resp, pc, closed, eq⟩ <;> rw [eq]
  · exact h.carry rfl rfl rfl rfl (by rw [pc]; rfl) fun _ here => by cases here
  · have serial := h.serial
    rw [pc] at serial
    refine ⟨serial, fun x mem => ⟨(h.ahead x mem).1, fun d mem' => ?_⟩, fun d here x mem => ?_⟩
    · exact (h.ahead x mem).2 d (line ▸ List.mem_cons_of_mem c mem')
    · cases here
      exact (h.ahead x mem).2 c (line ▸ List.mem_cons_self)
  · have serial := h.serial
    rw [pc] at serial
    exact ⟨.connect serial (h.accepted c pc) ran, h.ahead, fun _ here => by cases here⟩
  · obtain rfl := sound.slot k (by rw [pc]; rfl)
    have serial := h.serial
    rw [pc] at serial
    exact ⟨.hangup serial ran, h.ahead, fun _ here => by cases here⟩
  · exact h.carry rfl rfl rfl rfl (by rw [pc]; rfl) fun _ here => by cases here
  · exact h.carry rfl rfl rfl rfl (by rw [pc]; rfl) fun _ here => by cases here
  · obtain rfl := sound.slot k (by rw [pc]; rfl)
    have serial := h.serial
    have asked := sound.asked
    rw [pc] at serial asked
    refine ⟨.request serial asked ran sent, fun x mem => ?_, fun _ here => by cases here⟩
    rcases List.mem_append.mp mem with old | new
    · exact h.ahead x old
    · obtain rfl := List.mem_singleton.mp new
      exact sound.past c (.inr (by rw [pc]; rfl))
  · exact h.returned (by rw [pc]; rfl) cmd resp e
  · exact h.carry rfl rfl rfl rfl (by rw [pc]; rfl) fun _ here => by cases here
  · exact h.carry rfl rfl rfl rfl (by rw [pc]; rfl) fun _ here => by cases here

end Order

/-! ## Requests and answers -/

/-- The client waits for the response to the request, if there is one that it reads. -/
def Expects (s : Net ι) (c : Conn ι) (cmd : List UInt8) : Prop :=
  (s.client c.owner).pc.awaited = if isClose cmd then none else some (c, cmd)

structure Answered (s : Net ι) : Prop where
  asks : ∀ k c cmd, s.server = .handle k c cmd → s.Expects c cmd
  /-- The last answer is under way. -/
  pending : ∀ c resp, s.server.conn? = some c → s.server.response? = some resp →
    ∃ done cmd, s.handled = done ++ [⟨c, cmd, resp⟩] ∧ s.got = answers done ∧ s.Expects c cmd
  settled : s.server.response? = none → s.got = answers s.handled

section Answers

variable [DecidableEq ι] {s t : Net ι} {c : Conn ι}

omit [DecidableEq ι] in
theorem Answered.of_settled (even : s.got = answers s.handled) (quiet : s.server.response? = none)
    (asks : ∀ k c cmd, s.server = .handle k c cmd → s.Expects c cmd) : s.Answered where
  asks := asks
  pending _ _ _ here := by
    rw [quiet] at here
    cases here
  settled _ := even

omit [DecidableEq ι] in
theorem Answered.carry (h : s.Answered) (server : t.server = s.server) (handled : t.handled = s.handled)
    (got : t.got = s.got) (same : ∀ i, (t.client i).pc.awaited = (s.client i).pc.awaited) : t.Answered where
  asks k c cmd here := (same c.owner).trans (h.asks k c cmd (server ▸ here))
  pending c resp cur here := by
    obtain ⟨done, cmd, all, answered, expects⟩ := h.pending c resp (server ▸ cur) (server ▸ here)
    exact ⟨done, cmd, handled.trans all, got.trans answered, (same c.owner).trans expects⟩
  settled quiet := by
    rw [got, handled]
    exact h.settled (server ▸ quiet)

omit [DecidableEq ι] in
/-- A client that waits for no response has all of them. -/
theorem Answered.even (h : s.Answered) (cur : s.server.conn? = some c) (none_ : (s.client c.owner).pc.awaited = none) :
    s.got = answers s.handled := by
  cases here : s.server.response? with
  | none => exact h.settled here
  | some resp =>
    obtain ⟨done, cmd, all, answered, expects⟩ := h.pending c resp cur here
    have closes : isClose cmd = true := by
      by_contra other
      rw [Expects, if_neg other, none_] at expects
      cases expects
    rw [all, answers_append, if_pos closes, List.append_nil, answered]

theorem setPc_awaited {i : ι} {pc : ClientPc ι} (same : pc.awaited = (s.client i).pc.awaited) (j : ι) :
    ((s.setPc i pc).client j).pc.awaited = (s.client j).pc.awaited := by
  rw [setPc_client]
  by_cases here : j = i
  · rw [here, Function.update_self]
    exact same
  · rw [Function.update_of_ne here]

theorem Answered.call (h : s.Answered) {i : ι} (idle : (s.client i).pc.isIdle = true) (f : FileCall) :
    (s.call i f).Answered := by
  have was := (ClientPc.awaited_of_outside (ClientPc.outside_of_idle idle)).symm
  rcases call_moves s i f with ⟨_, eq⟩ | ⟨_, _, _, _, _, accepting, eq⟩ | ⟨_, _, _, _, _, _, eq⟩ | ⟨_, _, _, eq⟩ |
    ⟨_, _, _, _, _, _, _, eq⟩ | ⟨_, _, _, eq⟩ | ⟨_, _, _, _, _, _, _, eq⟩ <;> rw [eq]
  · exact h
  · exact .of_settled (h.settled (by rw [accepting]; rfl)) rfl fun _ _ _ here => by cases here
  · exact h.carry rfl rfl rfl (setPc_awaited was)
  · exact h.carry rfl rfl rfl fun _ => rfl
  · exact h.carry rfl rfl rfl (setPc_awaited was)
  · exact h.carry rfl rfl rfl fun j => by rw [setFds_pc]
  · exact h.carry rfl rfl rfl fun j => (setPc_awaited (by rw [setFds_pc]; exact was) j).trans (by rw [setFds_pc])

/-- The request is with the server, and the client goes on to the response. -/
theorem Answered.delivered (h : s.Answered) (quiet : s.server.response? = none) {k : Fin maxSessions} {cmd : List UInt8}
    {e : Ending} (encoded : Encoded cmd e) : (s.delivered k c cmd e).Answered := by
  refine .of_settled (h.settled quiet) rfl fun k' c' cmd' here => ?_
  cases here
  rw [Expects, Net.delivered, setPc_client, Function.update_self]
  exact sent_awaited encoded

/-- The response is that to the request the client has sent. -/
theorem Answered.returned (h : s.Answered) (cur : s.server.conn? = some c) {k : Fin maxSessions} {cmd resp : List UInt8}
    (here : s.server.response? = some resp) (awaited : (s.client c.owner).pc.awaited = some (c, cmd)) (e : Ending) :
    (s.returned k c cmd resp e).Answered := by
  have server := arrived_server (s.setServer (.receive k c)) c.owner c cmd resp e
  obtain ⟨handled, got⟩ := arrived_handled (s.setServer (.receive k c)) c.owner c cmd resp e
  obtain ⟨done, cmd', all, answered, expects⟩ := h.pending c resp cur here
  rw [Expects, awaited] at expects
  split_ifs at expects with closes
  cases expects
  refine .of_settled ?_ (by rw [Net.returned, server]; rfl) fun _ _ _ there => ?_
  · rw [Net.returned, got, handled]
    change s.got ++ _ = answers s.handled
    rw [all, answers_append, if_neg closes, answered]
  · rw [Net.returned, server] at there
    cases there

theorem Answered.of_clientMoves (h : s.Answered) (cur : s.server.conn? = some c) (moves : ClientMoves s t c) :
    t.Answered := by
  rcases moves with ⟨k, cmd, e, pc, server, encoded, fits, eq⟩ | ⟨cmd, e, pc, between, apart, encoded, fits, eq⟩ |
    ⟨k, cmd, resp, e, pc, server, answered, fits, eq⟩ | ⟨cmd, e, pc, busy, apart, answered, fits, eq⟩ | ⟨pc, fds, eq⟩ <;>
    rw [eq]
  · exact h.delivered (by rw [server]; rfl) encoded
  · exact h.carry rfl rfl rfl (setPc_awaited (by rw [pc]; rfl))
  · exact h.returned cur (by rw [server]; rfl) (by rw [pc]; rfl) e
  · exact h.carry rfl rfl rfl (setPc_awaited (by rw [pc]; rfl))
  · have client := clientClose_client c.owner c s
    obtain ⟨handled, got⟩ := clientClose_handled c.owner c s
    have none_ : (s.client c.owner).pc.awaited = none := by rw [pc]; rfl
    rcases clientClose_wakes c.owner c s with same | ⟨k, woken, _⟩
    · refine h.carry same handled got fun j => ?_
      rw [client]
      exact setPc_awaited (show (ClientPc.idle : ClientPc ι).awaited = _ from none_.symm) j
    · refine .of_settled (by rw [got, handled]; exact h.even cur none_) (by rw [woken]; rfl) fun _ _ _ here => ?_
      rw [woken] at here
      cases here

theorem Answered.of_serverMoves (h : s.Answered) (sound : s.Sound) (moves : ServerMoves s t) : t.Answered := by
  rcases moves with ⟨pc, empty, eq⟩ | ⟨c, rest, cmd, e, pc, line, waiting, eq⟩ | ⟨c, service, pc, ran, eq⟩ |
    ⟨k, c, service, pc, closed, ran, eq⟩ | ⟨k, c, cmd, e, pc, open_, sending, encoded, fits, eq⟩ |
    ⟨k, c, pc, open_, other, eq⟩ | ⟨k, c, cmd, resp, service, pc, ran, sent, eq⟩ |
    ⟨k, c, cmd, resp, e, pc, open_, receiving, answered, fits, eq⟩ | ⟨k, c, resp, pc, open_, other, eq⟩ |
    ⟨k, c, resp, pc, closed, eq⟩ <;> rw [eq]
  · exact .of_settled (h.settled (by rw [pc]; rfl)) rfl fun _ _ _ here => by cases here
  · exact .of_settled (h.settled (by rw [pc]; rfl)) rfl fun _ _ _ here => by cases here
  · exact .of_settled (h.settled (by rw [pc]; rfl)) rfl fun _ _ _ here => by cases here
  · exact .of_settled (h.settled (by rw [pc]; rfl)) rfl fun _ _ _ here => by cases here
  · exact h.delivered (by rw [pc]; rfl) encoded
  · exact .of_settled (h.settled (by rw [pc]; rfl)) rfl fun _ _ _ here => by cases here
  · refine ⟨fun _ _ _ here => (by cases here), fun c' resp' cur here => ?_, fun quiet => (by cases quiet)⟩
    cases cur
    cases here
    exact ⟨s.handled, cmd, rfl, h.settled (by rw [pc]; rfl), h.asks k c cmd pc⟩
  · exact h.returned (by rw [pc]; rfl) (by rw [pc]; rfl) (by rw [receiving]; rfl) e
  · refine ⟨fun _ _ _ here => (by cases here), fun c' resp' cur here => ?_, fun quiet => (by cases quiet)⟩
    exact h.pending c' resp' (by rw [pc]; exact cur) (by rw [pc]; exact here)
  · have cur : s.server.conn? = some c := by rw [pc]; rfl
    have out := sound.outside c.owner fun d here _ => Option.some.inj (here.symm.trans cur) ▸ closed
    exact .of_settled (h.even cur (ClientPc.awaited_of_outside out.pc)) rfl fun _ _ _ here => by cases here

/-! ## Whole runs -/

/-- The server has handled the requests of the connections one behind the other, and what the clients have got are
its answers, all but the one that a client still waits for. -/
structure Serialized (s : Net ι) : Prop where
  serial : ∃ cur, Serial cur s.service s.handled
  files : ServeOp.system.Run (fun _ _ => True) .start s.service
  answered : s.got = answers s.handled ∨ ∃ done x, s.handled = done ++ [x] ∧ s.got = answers done ∧
    (s.client x.conn.owner).pc.awaited = some (x.conn, x.cmd)

structure Good (s : Net ι) : Prop where
  sound : s.Sound
  order : s.InOrder
  answered : s.Answered

theorem Good.step (h : s.Good) {op : NetOp ι} (step : NetOp.system.Steps op s t) : t.Good := by
  have sound := h.sound.step step
  cases op with
  | server =>
    have moves := h.sound.serverMoves step.enabled step.ran
    exact ⟨sound, h.order.of_serverMoves h.sound moves, h.answered.of_serverMoves h.sound moves⟩
  | client i =>
    obtain rfl : s.clientStep i = t := step.ran.state_eq
    obtain ⟨c, cur, _, _, moves⟩ := h.sound.clientMoves step.enabled
    exact ⟨sound, h.order.of_clientMoves moves, h.answered.of_clientMoves cur moves⟩
  | call i f =>
    obtain rfl : s.call i f = t := step.ran.state_eq
    exact ⟨sound, h.order.call i f, h.answered.call step.enabled f⟩

omit [DecidableEq ι] in
theorem boot_good : (boot : Net ι).Good where
  sound := boot_sound
  order := ⟨.start, fun _ mem => (by cases mem), fun _ here => (by cases here)⟩
  answered := .of_settled rfl rfl fun _ _ _ here => by cases here

omit [DecidableEq ι] in
theorem Good.serialized (h : s.Good) : s.Serialized := by
  refine ⟨⟨_, h.order.serial⟩, h.order.serial.run, ?_⟩
  cases here : s.server.response? with
  | none => exact .inl (h.answered.settled here)
  | some resp =>
    obtain ⟨c, cur⟩ : ∃ c, s.server.conn? = some c := by
      cases server : s.server <;> rw [server] at here <;> cases here <;> exact ⟨_, rfl⟩
    obtain ⟨done, cmd, all, answered, expects⟩ := h.answered.pending c resp cur here
    by_cases closes : isClose cmd = true
    · refine .inl ?_
      rw [all, answers_append, if_pos closes, List.append_nil, answered]
    · exact .inr ⟨done, ⟨c, cmd, resp⟩, all, answered, by rw [Expects, if_neg closes] at expects; exact expects⟩

/-- In every order of steps of the server and of any clients. -/
theorem file_service_serial (run : NetOp.system.Run (fun _ _ => True) boot s) : s.Serialized :=
  (run.invariant boot_good fun _ _ _ h _ step => h.step step).serialized

/-- The first client has its file open. -/
theorem file_service_serial_opening : (NetOp.system.after boot opening).Serialized :=
  file_service_serial (Stepper.Run.start.follow (by decide +kernel))

end Answers

end Net

end CapsuleOS.Libc
