import CapsuleOS.Libc.Sessions

/-!
# Every step keeps the session

A step of the client that is served, or of the server with it (`Sound.advance`), a call of a client, and the steps of
the server between two connections.
-/
namespace CapsuleOS.Libc.Net

open Lib Fileagent

variable {ι : Type} [DecidableEq ι] {s t : Net ι} {c : Conn ι} {cl : Client ι}

/-! ## The client that is served -/

/-- A step of the client that is served, or of the server with it. -/
structure Advances (s t : Net ι) (c : Conn ι) (cl : Client ι) : Prop where
  conn : t.server.conn? = some c
  slot : ∀ k, t.server.slot? = some k → k = 0
  client : t.client = Function.update s.client c.owner cl
  queue : t.queue = s.queue
  closed : t.closed = s.closed
  next : t.next = s.next
  sessions : ∀ k, (t.service.vfs.sessions k).isSome = true → t.server.slot? = some k
  /-- A lookup that waits goes on waiting, and none begins. -/
  calm : ∀ d cmd e, cl.pc = .connecting d cmd e ↔ (s.client c.owner).pc = .connecting d cmd e
  asked : t.server.Asked
  inside : Inside c t.server cl

theorem Sound.advance (h : s.Sound) (cur : s.server.conn? = some c) (open_ : c ∉ s.closed)
    (step : Advances s t c cl) : t.Sound := by
  have self : t.client c.owner = cl := by rw [step.client, Function.update_self]
  have other : ∀ i ≠ c.owner, t.client i = s.client i := fun i ne => by
    rw [step.client, Function.update_of_ne ne]
  have calm : ∀ i d cmd e, (t.client i).pc = .connecting d cmd e ↔ (s.client i).pc = .connecting d cmd e := by
    intro i d cmd e
    by_cases here : i = c.owner
    · subst here
      rw [self]
      exact step.calm d cmd e
    · rw [other i here]
  have only : ∀ d, t.server.conn? = some d → d = c := fun d here => Option.some.inj (here.symm.trans step.conn)
  refine ⟨fun i away => ?_, fun d here _ => ?_, fun _ d here => ?_, fun i d cmd e waiting => ?_, fun d mem => ?_,
    fun accepting => ?_, fun d mem => ?_, step.queue ▸ h.order, fun d mem => ?_, step.slot, step.sessions, step.asked⟩
  · have ne : i ≠ c.owner := by
      rintro rfl
      exact open_ (step.closed ▸ away c step.conn rfl)
    rw [other i ne]
    refine h.outside i fun d here same => ?_
    obtain rfl : d = c := Option.some.inj (here.symm.trans cur)
    exact absurd same.symm ne
  · obtain rfl := only d here
    rw [self]
    exact step.inside
  · obtain rfl := only d here
    rwa [step.closed]
  · obtain ⟨owner, queued, encoded, opens⟩ := h.waits i d cmd e ((calm i d cmd e).mp waiting)
    exact ⟨owner, step.queue ▸ queued, encoded, opens⟩
  · obtain ⟨cmd, e, waiting⟩ := h.line d (step.queue ▸ mem)
    exact ⟨cmd, e, (calm _ _ _ _).mpr waiting⟩
  · have conn := step.conn
    rw [accepting] at conn
    cases conn
  · rw [step.closed, step.conn, ← cur] at mem
    rw [step.queue, step.next]
    exact h.past d mem
  · rw [step.queue] at mem
    rw [step.next]
    exact h.fresh d mem

/-- What a step of the server, or of the client that it serves, leaves. -/
structure Frame (s t : Net ι) : Prop where
  queue : t.queue = s.queue
  closed : t.closed = s.closed
  next : t.next = s.next

/-- The client is in a call on the connection, before and after. -/
theorem Sound.goesOn (h : s.Sound) (cur : s.server.conn? = some c) (open_ : c ∉ s.closed) (frame : Frame s t)
    (service : t.service = s.service) (client : t.client = Function.update s.client c.owner cl) (conn : t.server.conn? = some c)
    (slot : t.server.slot? = s.server.slot?) (was : (s.client c.owner).pc.connects = false)
    (now : cl.pc.connects = false) (asked : t.server.Asked) (inside : Inside c t.server cl) : t.Sound := by
  refine h.advance cur open_ ⟨conn, fun k here => h.slot k (slot ▸ here), client, frame.queue, frame.closed, frame.next,
    fun k live => slot.trans (h.sessions k (service ▸ live)), fun d cmd e => ⟨fun eq => ?_, fun eq => ?_⟩, asked, inside⟩
  · rw [eq] at now
    cases now
  · rw [eq] at was
    cases was

/-! ## The calls -/

theorem setPc_client (s : Net ι) (i : ι) (pc : ClientPc ι) :
    (s.setPc i pc).client = Function.update s.client i { s.client i with pc } := rfl

theorem setFds_client (s : Net ι) (i : ι) (fds : Fin userFds → Option (FdType ι)) :
    (s.setFds i fds).client = Function.update s.client i { s.client i with fds } := rfl

theorem setFds_pc (s : Net ι) (i : ι) (fds : Fin userFds → Option (FdType ι)) (j : ι) :
    ((s.setFds i fds).client j).pc = (s.client j).pc := by
  rw [setFds_client]
  by_cases here : j = i
  · rw [here, Function.update_self]
  · rw [Function.update_of_ne here]

/-- The table of an idle client changes at an entry that is no file. -/
theorem Sound.dropEntry (h : s.Sound) {i : ι} (idle : (s.client i).pc.isIdle = true) {fd : Fin userFds}
    (other : ∀ d r, (s.client i).fds fd ≠ some (.file d r)) :
    (s.setFds i (Function.update (s.client i).fds fd none)).Sound := by
  have calm := ClientPc.connects_of_idle idle
  by_cases out : Outside (s.client i)
  · have same := setFds_pc s i (Function.update (s.client i).fds fd none)
    refine ⟨fun j away => ?_, fun d cur open_ => ?_, h.awake, fun j d cmd e waiting => ?_, fun d mem => ?_, h.accepting,
      h.past, h.order, h.fresh, h.slot, h.sessions, h.asked⟩
    · by_cases here : j = i
      · rw [here, setFds_client, Function.update_self]
        exact ⟨out.pc, out.fds.drop fd⟩
      · rw [setFds_client, Function.update_of_ne here]
        exact h.outside j away
    · have ne : d.owner ≠ i := fun same => (h.inside d cur open_).not_outside (same ▸ out)
      rw [setFds_client, Function.update_of_ne ne]
      exact h.inside d cur open_
    · obtain ⟨owner, queued, encoded, opens⟩ := h.waits j d cmd e (same j ▸ waiting)
      exact ⟨owner, queued, encoded, opens⟩
    · obtain ⟨cmd, e, waiting⟩ := h.line d mem
      exact ⟨cmd, e, (same d.owner).trans waiting⟩
  · obtain ⟨d, cur, rfl, open_⟩ := h.served out
    refine h.goesOn cur open_ ⟨rfl, rfl, rfl⟩ rfl rfl cur rfl calm calm h.asked ?_
    obtain ⟨between, only⟩ := (h.inside d cur open_).of_outside (ClientPc.outside_of_idle idle)
    exact .quiet (ClientPc.outside_of_idle idle) between (only.drop other)

/-- The server waits for a connection. -/
theorem Sound.lookup_accepted (h : s.Sound) (accepting : s.server = .accepting) {i : ι} {cmd : List UInt8} {e : Ending}
    (encoded : Encoded cmd e) (opens : e = .keeps ∨ e = .hangsUp) :
    ({ s with next := s.next + 1, server := .accepted ⟨i, s.next⟩ }.setPc i (.send ⟨i, s.next⟩ cmd e)).Sound := by
  have none_ : ∀ d, s.server.conn? ≠ some d := fun d cur => by
    rw [accepting] at cur
    cases cur
  have out : ∀ j, Outside (s.client j) := fun j => h.outside j fun d cur => (none_ d cur).elim
  have empty := h.accepting accepting
  refine ⟨fun j away => ?_, fun d here _ => ?_, by rintro ⟨⟩, fun j d cmd e waiting => ?_, fun d mem => ?_, by rintro ⟨⟩,
    fun d mem => ?_, h.order, fun d mem => ?_, by rintro k ⟨⟩, fun k live => ?_, trivial⟩
  · have ne : j ≠ i := by
      rintro rfl
      exact lt_irrefl _ (h.past ⟨j, s.next⟩ (.inl (away _ rfl rfl))).1
    rw [setPc_client, Function.update_of_ne ne]
    exact out j
  · cases here
    rw [setPc_client, Function.update_self]
    refine .send rfl rfl encoded ?_
    rcases opens with rfl | rfl <;> exact (out i).fds
  · by_cases here : j = i
    · rw [here, setPc_client, Function.update_self] at waiting
      cases waiting
    · rw [setPc_client, Function.update_of_ne here] at waiting
      exact absurd (empty ▸ (h.waits j d cmd e waiting).queued) List.not_mem_nil
  · exact absurd (empty ▸ mem) List.not_mem_nil
  · refine ⟨?_, fun e mem' => absurd (empty ▸ mem') List.not_mem_nil⟩
    rcases mem with closed | here
    · exact (h.past d (.inl closed)).1.trans (Nat.lt_succ_self _)
    · cases here
      exact Nat.lt_succ_self _
  · exact absurd (empty ▸ mem) List.not_mem_nil
  · have slot := h.sessions k live
    rw [accepting] at slot
    cases slot

/-- The lookup joins the line. -/
theorem Sound.lookup_queued (h : s.Sound) (busy : s.server ≠ .accepting) {i : ι} (idle : (s.client i).pc.isIdle = true)
    {cmd : List UInt8} {e : Ending} (encoded : Encoded cmd e) (opens : e = .keeps ∨ e = .hangsUp) :
    ({ s with next := s.next + 1, queue := s.queue ++ [Conn.mk i s.next] }.setPc i (.connecting ⟨i, s.next⟩ cmd e)).Sound := by
  refine ⟨fun j away => ?_, fun d cur open_ => ?_, h.awake, fun j d cmd' e' waiting => ?_, fun d mem => ?_,
    fun accepting => absurd accepting busy, fun d mem => ?_, ?_, fun d mem => ?_, h.slot, h.sessions, h.asked⟩
  · have out := h.outside j away
    by_cases here : j = i
    · subst here
      rw [setPc_client, Function.update_self]
      exact ⟨rfl, out.fds⟩
    · rwa [setPc_client, Function.update_of_ne here]
  · have inside := h.inside d cur open_
    by_cases here : d.owner = i
    · obtain ⟨between, only⟩ := inside.of_outside (ClientPc.outside_of_idle (here ▸ idle))
      rw [setPc_client, here, Function.update_self]
      exact .quiet rfl between (here ▸ only)
    · rwa [setPc_client, Function.update_of_ne here]
  · by_cases here : j = i
    · rw [here, setPc_client, Function.update_self] at waiting
      cases waiting
      exact ⟨here.symm, List.mem_append_right _ (List.mem_singleton_self _), encoded, opens⟩
    · rw [setPc_client, Function.update_of_ne here] at waiting
      obtain ⟨owner, queued, encoded, opens⟩ := h.waits j d cmd' e' waiting
      exact ⟨owner, List.mem_append_left _ queued, encoded, opens⟩
  · rcases List.mem_append.mp mem with old | new
    · obtain ⟨cmd', e', waiting⟩ := h.line d old
      have ne : d.owner ≠ i := by
        rintro rfl
        rw [waiting] at idle
        cases idle
      rw [setPc_client, Function.update_of_ne ne]
      exact ⟨cmd', e', waiting⟩
    · obtain rfl := List.mem_singleton.mp new
      rw [setPc_client, Function.update_self]
      exact ⟨cmd, e, rfl⟩
  · obtain ⟨before, ahead⟩ := h.past d mem
    refine ⟨before.trans (Nat.lt_succ_self _), fun e mem' => ?_⟩
    rcases List.mem_append.mp mem' with old | new
    · exact ahead e old
    · obtain rfl := List.mem_singleton.mp new
      exact before
  · refine List.pairwise_append.mpr ⟨h.order, List.pairwise_singleton _ _, fun d mem e mem' => ?_⟩
    obtain rfl := List.mem_singleton.mp mem'
    exact h.fresh d mem
  · rcases List.mem_append.mp mem with old | new
    · exact (h.fresh d old).trans (Nat.lt_succ_self _)
    · obtain rfl := List.mem_singleton.mp new
      exact Nat.lt_succ_self _

omit [DecidableEq ι] in
/-- The lookup fails, and its connection is lost. -/
theorem Sound.lookup_failed (h : s.Sound) : ({ s with next := s.next + 1 } : Net ι).Sound where
  outside := h.outside
  inside := h.inside
  awake := h.awake
  waits i c cmd e waiting := ⟨(h.waits i c cmd e waiting).owner, (h.waits i c cmd e waiting).queued,
    (h.waits i c cmd e waiting).encoded, (h.waits i c cmd e waiting).opens⟩
  line := h.line
  accepting := h.accepting
  past c mem := ⟨(h.past c mem).1.trans (Nat.lt_succ_self _), (h.past c mem).2⟩
  order := h.order
  fresh c mem := (h.fresh c mem).trans (Nat.lt_succ_self _)
  slot := h.slot
  sessions := h.sessions
  asked := h.asked

theorem Sound.call (h : s.Sound) {i : ι} (idle : (s.client i).pc.isIdle = true) (f : FileCall) : (s.call i f).Sound := by
  have was := ClientPc.connects_of_idle idle
  rcases call_moves s i f with ⟨_, eq⟩ | ⟨cmd, e, _, encoded, opens, accepting, eq⟩ | ⟨cmd, e, _, encoded, opens, busy, eq⟩ |
    ⟨_, _, _, eq⟩ | ⟨fd, d, r, cmd, _, here, encoded, eq⟩ | ⟨fd, _, other, eq⟩ | ⟨fd, d, r, cmd, _, here, encoded, eq⟩ <;>
    rw [eq]
  · exact h
  · exact h.lookup_accepted accepting encoded opens
  · exact h.lookup_queued busy idle encoded opens
  · exact h.lookup_failed
  · obtain ⟨cur, rfl, open_, between, only⟩ := h.served_of_file idle here
    exact h.goesOn cur open_ ⟨rfl, rfl, rfl⟩ rfl (setPc_client s _ _) cur rfl was rfl h.asked
      (.send rfl between encoded only)
  · exact h.dropEntry idle other
  · obtain ⟨cur, rfl, open_, between, only⟩ := h.served_of_file idle here
    have client : ((s.setFds d.owner (Function.update (s.client d.owner).fds fd none)).setPc d.owner
        (.send d cmd .closes)).client = Function.update s.client d.owner
          ⟨.send d cmd .closes, Function.update (s.client d.owner).fds fd none⟩ := by
      rw [setPc_client, setFds_client, Function.update_self, Function.update_idem]
    exact h.goesOn cur open_ ⟨rfl, rfl, rfl⟩ rfl client cur rfl was rfl h.asked (.send rfl between encoded (only.close here))

/-! ## The steps of a client -/

theorem Sound.delivered (h : s.Sound) (cur : s.server.conn? = some c) (open_ : c ∉ s.closed) {k : Fin maxSessions}
    (slot : s.server.slot? = some k) (was : (s.client c.owner).pc.connects = false) {cmd : List UInt8} {e : Ending}
    (encoded : Encoded cmd e) (fits : Fits c (s.client c.owner).fds e) : (s.delivered k c cmd e).Sound :=
  h.goesOn cur open_ ⟨rfl, rfl, rfl⟩ rfl (setPc_client _ _ _) rfl slot.symm was sent_connects encoded.size
    (.of_sent rfl rfl fits)

/-- The client of a response that has arrived. -/
theorem arrived_client (s : Net ι) (i : ι) {cmd resp : List UInt8} {e : Ending} (answered : e ≠ .closes)
    (fits : Fits c (s.client i).fds e) : ∃ cl, (s.arrived i c cmd resp e).client = Function.update s.client i cl ∧
      (cl.pc = .idle ∨ cl.pc = .hangUp c) ∧ ∀ sv, sv.busy = false → Inside c sv cl := by
  cases e with
  | closes => exact absurd rfl answered
  | hangsUp => exact ⟨_, setPc_client _ _ _, .inr rfl, fun _ _ => .hangUp rfl fits⟩
  | stays => exact ⟨_, setPc_client _ _ _, .inl rfl, fun _ between => .quiet rfl between fits⟩
  | keeps =>
    rw [arrived, opened]
    split_ifs
    · exact ⟨_, setPc_client _ _ _, .inr rfl, fun _ _ => .hangUp rfl fits⟩
    · dsimp only
      split
      · exact ⟨_, setPc_client _ _ _, .inr rfl, fun _ _ => .hangUp rfl fits⟩
      · rename_i fd _
        refine ⟨⟨.idle, Function.update (s.client i).fds fd (some (.file c (BitVec.ofInt 32 (numberOf resp))))⟩, ?_, .inl rfl,
          fun _ between => .quiet rfl between (fits.openFd fd c _)⟩
        rw [setPc_client, setFds_client, Function.update_self, Function.update_idem]

theorem arrived_server (s : Net ι) (i : ι) (c : Conn ι) (cmd resp : List UInt8) (e : Ending) :
    (s.arrived i c cmd resp e).server = s.server := by
  cases e <;> try rfl
  rw [arrived, opened]
  split_ifs
  · rfl
  · dsimp only
    split <;> rfl

theorem arrived_frame (s : Net ι) (i : ι) (c : Conn ι) (cmd resp : List UInt8) (e : Ending) :
    Frame s (s.arrived i c cmd resp e) ∧ (s.arrived i c cmd resp e).service = s.service := by
  cases e <;> try exact ⟨⟨rfl, rfl, rfl⟩, rfl⟩
  rw [arrived, opened]
  split_ifs
  · exact ⟨⟨rfl, rfl, rfl⟩, rfl⟩
  · dsimp only
    split <;> exact ⟨⟨rfl, rfl, rfl⟩, rfl⟩

/-- The response meets the read of the client. -/
theorem Sound.returned (h : s.Sound) (cur : s.server.conn? = some c) (open_ : c ∉ s.closed) {k : Fin maxSessions}
    (slot : s.server.slot? = some k) (was : (s.client c.owner).pc.connects = false) {cmd resp : List UInt8} {e : Ending}
    (answered : e ≠ .closes) (fits : Fits c (s.client c.owner).fds e) :
    (s.returned k c cmd resp e).Sound := by
  obtain ⟨cl, client, last, inside⟩ := arrived_client (s.setServer (.receive k c)) c.owner answered fits
  have now : cl.pc.connects = false := by rcases last with pc | pc <;> rw [pc] <;> rfl
  have server := arrived_server (s.setServer (.receive k c)) c.owner c cmd resp e
  obtain ⟨⟨queue, closed, next⟩, service⟩ := arrived_frame (s.setServer (.receive k c)) c.owner c cmd resp e
  refine h.goesOn cur open_ ⟨queue, closed, next⟩ service client ?_ ?_ was now ?_ ?_
  · rw [Net.returned, server]
    rfl
  · rw [Net.returned, server]
    exact slot.symm
  · rw [Net.returned, server]
    trivial
  · rw [Net.returned, server]
    exact inside _ rfl

/-- The server is not left blocked on the connection. -/
theorem clientClose_server (i : ι) (cur : s.server.conn? = some c) : (s.clientClose i c).server.conn? = some c ∧
    (s.clientClose i c).server.slot? = s.server.slot? ∧ (s.clientClose i c).server.blocked = false ∧
    (s.server.Asked → (s.clientClose i c).server.Asked) := by
  unfold Net.clientClose
  dsimp only
  split
  · rename_i k c' receiving
    have server : s.server = .receiving k c' := receiving
    rw [server] at cur ⊢
    cases cur
    rw [if_pos rfl]
    exact ⟨rfl, rfl, rfl, fun _ => trivial⟩
  · rename_i k c' resp replying
    have server : s.server = .replying k c' resp := replying
    rw [server] at cur ⊢
    cases cur
    rw [if_pos rfl]
    exact ⟨rfl, rfl, rfl, fun _ => trivial⟩
  · rename_i reading writing
    refine ⟨cur, rfl, ?_, id⟩
    change s.server.blocked = false
    cases server : s.server with
    | receiving k c' => exact (reading k c' server).elim
    | replying k c' resp => exact (writing k c' resp server).elim
    | accepting =>
      rw [server] at cur
      cases cur
    | _ => rfl

theorem clientClose_client (i : ι) (c : Conn ι) (s : Net ι) :
    (s.clientClose i c).client = Function.update s.client i { s.client i with pc := .idle } := by
  unfold Net.clientClose
  dsimp only
  split
  · split_ifs <;> rfl
  · split_ifs <;> rfl
  · rfl

theorem clientClose_frame (i : ι) (c : Conn ι) (s : Net ι) : (s.clientClose i c).queue = s.queue ∧
    (s.clientClose i c).closed = c :: s.closed ∧ (s.clientClose i c).next = s.next ∧
    (s.clientClose i c).service = s.service := by
  unfold Net.clientClose
  dsimp only
  split
  · split_ifs <;> exact ⟨rfl, rfl, rfl, rfl⟩
  · split_ifs <;> exact ⟨rfl, rfl, rfl, rfl⟩
  · exact ⟨rfl, rfl, rfl, rfl⟩

theorem Sound.clientClose (h : s.Sound) (cur : s.server.conn? = some c) (open_ : c ∉ s.closed)
    (pc : (s.client c.owner).pc = .hangUp c) (fds : NoFile (s.client c.owner).fds) : (s.clientClose c.owner c).Sound := by
  obtain ⟨conn, slot, awake, asked⟩ := clientClose_server c.owner cur
  obtain ⟨queue, closed, next, service⟩ := clientClose_frame c.owner c s
  have client := clientClose_client c.owner c s
  refine ⟨fun j away => ?_, fun d here open' => ?_, fun blocked => ?_, fun j d cmd e waiting => ?_, fun d mem => ?_,
    fun accepting => ?_, fun d mem => ?_, queue ▸ h.order, fun d mem => ?_, fun k here => ?_, fun k live => ?_, asked h.asked⟩
  · rw [client]
    by_cases here : j = c.owner
    · rw [here, Function.update_self]
      exact ⟨rfl, fds⟩
    · rw [Function.update_of_ne here]
      refine h.outside j fun d cur' same => ?_
      obtain rfl : d = c := Option.some.inj (cur'.symm.trans cur)
      exact absurd same.symm here
  · obtain rfl : d = c := Option.some.inj (here.symm.trans conn)
    exact absurd (closed ▸ List.mem_cons_self) open'
  · rw [awake] at blocked
    cases blocked
  · rw [client] at waiting
    by_cases here : j = c.owner
    · rw [here, Function.update_self] at waiting
      cases waiting
    · rw [Function.update_of_ne here] at waiting
      obtain ⟨owner, queued, encoded, opens⟩ := h.waits j d cmd e waiting
      exact ⟨owner, queue ▸ queued, encoded, opens⟩
  · obtain ⟨cmd, e, waiting⟩ := h.line d (queue ▸ mem)
    have ne : d.owner ≠ c.owner := fun same => by
      rw [same, pc] at waiting
      cases waiting
    exact ⟨cmd, e, by rw [client, Function.update_of_ne ne, waiting]⟩
  · rw [accepting] at conn
    cases conn
  · rw [queue, next]
    refine h.past d ?_
    rcases mem with mem | here
    · rcases List.mem_cons.mp (closed ▸ mem) with rfl | old
      · exact .inr cur
      · exact .inl old
    · exact .inr (cur.trans (conn.symm.trans here))
  · rw [next]
    exact h.fresh d (queue ▸ mem)
  · exact h.slot k (slot ▸ here)
  · rw [slot]
    exact h.sessions k (service ▸ live)

theorem Sound.of_clientMoves (h : s.Sound) (cur : s.server.conn? = some c) (open_ : c ∉ s.closed)
    (moves : ClientMoves s t c) : t.Sound := by
  rcases moves with ⟨k, cmd, e, pc, server, encoded, fits, eq⟩ | ⟨cmd, e, pc, between, apart, encoded, fits, eq⟩ |
    ⟨k, cmd, resp, e, pc, server, answered, fits, eq⟩ | ⟨cmd, e, pc, busy, apart, answered, fits, eq⟩ | ⟨pc, fds, eq⟩ <;>
    rw [eq]
  · exact h.delivered cur open_ (server ▸ rfl) (pc ▸ rfl) encoded fits
  · exact h.goesOn cur open_ ⟨rfl, rfl, rfl⟩ rfl (setPc_client _ _ _) cur rfl (pc ▸ rfl) rfl h.asked
      (.sending rfl between apart encoded fits)
  · exact h.returned cur open_ (server ▸ rfl) (pc ▸ rfl) answered fits
  · exact h.goesOn cur open_ ⟨rfl, rfl, rfl⟩ rfl (setPc_client _ _ _) cur rfl (pc ▸ rfl) rfl h.asked
      (.receiving rfl busy apart answered fits)
  · exact h.clientClose cur open_ pc fds

/-! ## The steps of the server -/

omit [DecidableEq ι] in
/-- The server is with a connection that is closed, or with none. -/
theorem Sound.all_outside (h : s.Sound) (ended : ∀ c, s.server.conn? = some c → c ∈ s.closed) (i : ι) :
    Outside (s.client i) := h.outside i fun c cur _ => ended c cur

omit [DecidableEq ι] in
/-- The server goes on where nobody is served. -/
theorem Sound.moves (h : s.Sound) (ended : ∀ c, s.server.conn? = some c → c ∈ s.closed) (frame : Frame s t)
    (client : t.client = s.client) (conn : ∀ c, t.server.conn? = some c → s.server.conn? = some c)
    (awake : t.server.blocked = true → t.server.conn? = none) (accepting : t.server = .accepting → s.queue = [])
    (slot : ∀ k, t.server.slot? = some k → k = 0)
    (sessions : ∀ k, (t.service.vfs.sessions k).isSome = true → t.server.slot? = some k) (asked : t.server.Asked) :
    t.Sound := by
  refine ⟨fun i _ => client ▸ h.all_outside ended i, fun c cur open_ => ?_, fun blocked c cur => ?_,
    fun i c cmd e waiting => ?_, fun c mem => ?_, fun waits => ?_, fun c mem => ?_, frame.queue ▸ h.order,
    fun c mem => ?_, slot, sessions, asked⟩
  · exact absurd (frame.closed ▸ ended c (conn c cur)) open_
  · rw [awake blocked] at cur
    cases cur
  · obtain ⟨owner, queued, encoded, opens⟩ := h.waits i c cmd e (client ▸ waiting)
    exact ⟨owner, frame.queue ▸ queued, encoded, opens⟩
  · exact client ▸ h.line c (frame.queue ▸ mem)
  · exact frame.queue.trans (accepting waits)
  · rw [frame.queue, frame.next]
    exact h.past c (mem.imp (fun mem => frame.closed ▸ mem) (conn c))
  · rw [frame.next]
    exact h.fresh c (frame.queue ▸ mem)

/-- The lookup that has waited longest. -/
theorem Sound.accepts (h : s.Sound) (accept : s.server = .accept) {rest : List (Conn ι)} (line : s.queue = c :: rest)
    {cmd : List UInt8} {e : Ending} (pc : (s.client c.owner).pc = .connecting c cmd e) :
    (({ s with queue := rest }.setServer (.accepted c)).setPc c.owner (.send c cmd e)).Sound := by
  have none_ : ∀ d, s.server.conn? ≠ some d := fun d cur => by
    rw [accept] at cur
    cases cur
  have out := h.all_outside fun d cur => (none_ d cur).elim
  obtain ⟨owner, queued, encoded, opens⟩ := h.waits c.owner c cmd e pc
  have apart := (List.pairwise_cons.mp (line ▸ h.order)).1
  have later : ∀ d ∈ rest, d ∈ s.queue := fun d mem => line ▸ List.mem_cons_of_mem c mem
  refine ⟨fun j away => ?_, fun d cur open_ => ?_, by rintro ⟨⟩, fun j d cmd' e' waiting => ?_, fun d mem => ?_,
    by rintro ⟨⟩, fun d mem => ?_, (List.pairwise_cons.mp (line ▸ h.order)).2, fun d mem => h.fresh d (later d mem),
    by rintro k ⟨⟩, fun k live => ?_, trivial⟩
  · have ne : j ≠ c.owner := by
      rintro rfl
      exact lt_irrefl _ ((h.past c (.inl (away c rfl rfl))).2 c queued)
    rw [setPc_client, Function.update_of_ne ne]
    exact out j
  · cases cur
    rw [setPc_client, Function.update_self]
    refine .send rfl rfl encoded ?_
    rcases opens with rfl | rfl <;> exact (out c.owner).fds
  · by_cases here : j = c.owner
    · rw [here, setPc_client, Function.update_self] at waiting
      cases waiting
    · rw [setPc_client, Function.update_of_ne here] at waiting
      obtain ⟨owner', queued', encoded', opens'⟩ := h.waits j d cmd' e' waiting
      refine ⟨owner', ?_, encoded', opens'⟩
      rcases List.mem_cons.mp (line ▸ queued') with rfl | mem
      · exact absurd owner'.symm here
      · exact mem
  · obtain ⟨cmd', e', waiting⟩ := h.line d (later d mem)
    have ne : d.owner ≠ c.owner := fun same => by
      rw [same, pc] at waiting
      cases waiting
      exact lt_irrefl _ (apart c mem)
    rw [setPc_client, Function.update_of_ne ne]
    exact ⟨cmd', e', waiting⟩
  · rcases mem with closed | cur
    · obtain ⟨before, ahead⟩ := h.past d (.inl closed)
      exact ⟨before, fun d' mem => ahead d' (later d' mem)⟩
    · cases cur
      exact ⟨h.fresh c queued, apart⟩
  · have slot := h.sessions k live
    rw [accept] at slot
    cases slot

/-- A step of the server alone, with a connection. -/
theorem Sound.serves (h : s.Sound) (cur : s.server.conn? = some c) (frame : Frame s t) (client : t.client = s.client)
    (conn : t.server.conn? = some c) (slot : ∀ k, t.server.slot? = some k → k = 0)
    (sessions : ∀ k, (t.service.vfs.sessions k).isSome = true → t.server.slot? = some k) (asked : t.server.Asked)
    (awake : t.server.blocked = true → c ∉ s.closed) (inside : c ∉ s.closed → Inside c t.server (s.client c.owner)) :
    t.Sound := by
  by_cases closed : c ∈ s.closed
  · refine h.moves (fun d here => ?_) frame client (fun d here => ?_) (fun blocked => (awake blocked closed).elim)
      (fun accepting => ?_) slot sessions asked
    · obtain rfl : d = c := Option.some.inj (here.symm.trans cur)
      exact closed
    · exact cur.trans (conn.symm.trans here)
    · rw [accepting] at conn
      cases conn
  · exact h.advance cur closed ⟨conn, slot, client.trans (Function.update_eq_self _ _).symm, frame.queue, frame.closed,
      frame.next, sessions, fun _ _ _ => Iff.rfl, asked, inside closed⟩

/-- The server goes on in its session, and the client stays where it is. -/
theorem Sound.stays (h : s.Sound) (cur : s.server.conn? = some c) {pc : ServerPc ι} (conn : pc.conn? = some c)
    (slot : pc.slot? = s.server.slot?) (asked : pc.Asked) (awake : pc.blocked = true → c ∉ s.closed)
    (inside : c ∉ s.closed → Inside c pc (s.client c.owner)) : (s.setServer pc).Sound :=
  h.serves cur ⟨rfl, rfl, rfl⟩ rfl conn (fun k here => h.slot k (slot.symm.trans here))
    (fun k live => slot.trans (h.sessions k live)) asked awake inside

omit [DecidableEq ι] in
theorem Sound.connect_live (h : s.Sound) (accepted : s.server = .accepted c) {service : Service}
    (ran : Service.call Vfs.connect s.service = .ok (.ok (some 0)) service) {k : Fin maxSessions}
    (live : (service.vfs.sessions k).isSome = true) : k = 0 := by
  rw [h.connect_ran accepted] at ran
  cases ran
  by_contra other
  have same : (s.service.vfs.setSession 0 (some ⟨fun _ => none⟩)).sessions k = none :=
    (Function.update_of_ne other _ _).trans (h.sessions_free accepted k)
  have live' : ((s.service.vfs.setSession 0 (some ⟨fun _ => none⟩)).sessions k).isSome = true := live
  rw [same] at live'
  cases live'

omit [DecidableEq ι] in
/-- The session of a closed connection ends. -/
theorem Sound.hangsUp (h : s.Sound) {k : Fin maxSessions} (receive : s.server = .receive k c) (closed : c ∈ s.closed)
    {service : Service} (ran : Service.call (Vfs.hangup k) s.service = .ok (.ok ()) service) :
    (s.withService service .accept).Sound := by
  obtain rfl : { s.service with vfs := s.service.vfs.setSession k none } = service := by
    have eq : Service.call (Vfs.hangup k) s.service = .ok (.ok ()) { s.service with vfs := s.service.vfs.setSession k none } := rfl
    rw [eq] at ran
    cases ran
    rfl
  refine h.moves (fun d here => ?_) ⟨rfl, rfl, rfl⟩ rfl (fun _ here => by cases here) (fun _ => rfl) (fun here => by cases here)
    (fun _ here => by cases here) (fun j live => ?_) trivial
  · rw [receive] at here
    cases here
    exact closed
  · have live' : ((s.service.vfs.setSession k none).sessions j).isSome = true := live
    by_cases here : j = k
    · rw [here, show (s.service.vfs.setSession k none).sessions k = none from Function.update_self _ _ _] at live'
      cases live'
    · rw [show (s.service.vfs.setSession k none).sessions j = _ from Function.update_of_ne here _ _] at live'
      have slot := h.sessions j live'
      rw [receive] at slot
      exact absurd (Option.some.inj slot).symm here

theorem Sound.of_serverMoves (h : s.Sound) (moves : ServerMoves s t) : t.Sound := by
  rcases moves with ⟨pc, empty, eq⟩ | ⟨c, rest, cmd, e, pc, line, waiting, eq⟩ | ⟨c, service, pc, ran, eq⟩ |
    ⟨k, c, service, pc, closed, ran, eq⟩ | ⟨k, c, cmd, e, pc, open_, sending, encoded, fits, eq⟩ |
    ⟨k, c, pc, open_, other, eq⟩ | ⟨k, c, cmd, resp, service, pc, ran, _, eq⟩ |
    ⟨k, c, cmd, resp, e, pc, open_, receiving, answered, fits, eq⟩ | ⟨k, c, resp, pc, open_, other, eq⟩ |
    ⟨k, c, resp, pc, closed, eq⟩ <;> rw [eq]
  · refine h.moves (fun c cur => ?_) ⟨rfl, rfl, rfl⟩ rfl (fun _ cur => by cases cur) (fun _ => rfl) (fun _ => empty)
      (fun _ here => by cases here) (fun k live => ?_) trivial
    · rw [pc] at cur
      cases cur
    · have slot := h.sessions k live
      rw [pc] at slot
      cases slot
  · exact h.accepts pc line waiting
  · have cur : s.server.conn? = some c := by rw [pc]; rfl
    refine h.serves cur ⟨rfl, rfl, rfl⟩ rfl rfl (fun k here => ?_) (fun k live => ?_) trivial (fun blocked => by cases blocked)
      fun open_ => (h.inside c cur open_).later (pc ▸ rfl) rfl fun receives => by cases receives
    · cases here
      rfl
    · exact congrArg some (h.connect_live pc ran live).symm
  · exact h.hangsUp pc closed ran
  · exact h.delivered (pc ▸ rfl) open_ (pc ▸ rfl) (sending ▸ rfl) encoded fits
  · have cur : s.server.conn? = some c := by rw [pc]; rfl
    exact h.stays cur rfl (by rw [pc]; rfl) trivial (fun _ => open_)
      fun _ => (h.inside c cur open_).later (pc ▸ rfl) rfl fun _ => other
  · have cur : s.server.conn? = some c := by rw [pc]; rfl
    have slot : s.server.slot? = some k := by rw [pc]; rfl
    refine h.serves cur ⟨rfl, rfl, rfl⟩ rfl rfl (fun j here => h.slot j (slot.trans here)) (fun j live => ?_) trivial
      (fun blocked => by cases blocked) fun open_ => (h.inside c cur open_).waits (pc ▸ rfl) rfl fun replies => by cases replies
    by_contra ne
    have kept := within_handleCmd (k := k) cmd s.service
    rw [ran] at kept
    have same : service.vfs.sessions j = s.service.vfs.sessions j := kept.others j fun here => ne (congrArg some here.symm)
    exact ne (slot.symm.trans (h.sessions j (same ▸ live)))
  · exact h.returned (pc ▸ rfl) open_ (pc ▸ rfl) (receiving ▸ rfl) answered fits
  · have cur : s.server.conn? = some c := by rw [pc]; rfl
    exact h.stays cur rfl (by rw [pc]; rfl) trivial (fun _ => open_)
      fun _ => (h.inside c cur open_).waits (pc ▸ rfl) rfl fun _ => other
  · exact h.stays (c := c) (by rw [pc]; rfl) rfl (by rw [pc]; rfl) trivial (fun blocked => by cases blocked)
      fun open_ => absurd closed open_

theorem Sound.step (h : s.Sound) {op : NetOp ι} (step : NetOp.system.Steps op s t) : t.Sound := by
  cases op with
  | server => exact h.of_serverMoves (h.serverMoves step.enabled step.ran)
  | client i =>
    obtain rfl : s.clientStep i = t := step.ran.state_eq
    obtain ⟨c, cur, _, open_, moves⟩ := h.clientMoves step.enabled
    exact h.of_clientMoves cur open_ moves
  | call i f =>
    obtain rfl : s.call i f = t := step.ran.state_eq
    exact h.call step.enabled f

theorem sound_run {cond : Net ι → NetOp ι → Prop} (run : NetOp.system.Run cond boot s) : s.Sound :=
  run.invariant boot_sound fun _ _ _ h _ step => h.step step

end CapsuleOS.Libc.Net
