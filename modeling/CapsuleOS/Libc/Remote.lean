import CapsuleOS.Fileagent.Results

/-!
# Requests on a connection

On its connection a call of libc sends one request, which the server answers with one message, and makes a
result of the message. `ask` is this exchange in a session; `here` is the same without a server, on the state
of the server. They agree on every state the server can be in (`ask_here`), and so over any requests
(`session_answers`): all that the way between them does is to cut paths, data and listings.

Descriptors are those of the server, which libc keeps with the connection behind descriptors of its own. The
server answers a request before the client goes on, so the message that comes back is the last one sent.
-/
namespace CapsuleOS.Libc

open Lib Fileagent

/-- What a request gives to libc: a number, bytes of a file or a listing, or the fields of `stat`. -/
inductive Answer where
  | number (n : Int)
  | bytes (data : List UInt8)
  | info (size : Int) (mode : Nat)
  deriving DecidableEq

/-- The requests that are answered; nobody reads the answer to the one of `close`. -/
inductive Query where
  | openPath (path : List UInt8) (flags : BitVec 32)
  | read (fd : BitVec 32) (count : Nat)
  | write (fd : BitVec 32) (data : List UInt8)
  | mkdir (path : List UInt8)
  | rmdir (path : List UInt8)
  | unlink (path : List UInt8)
  | readdir (fd : BitVec 32) (count : Nat)
  | stat (path : List UInt8)

/-! ## The client -/

def pathRequest (cmd : UInt8) (path : List UInt8) : List UInt8 := request cmd 0 0 (cString path)

def readdirRequest (remoteFd : BitVec 32) (count : Nat) : List UInt8 :=
  request vfsReaddir remoteFd (BitVec.ofNat 32 count) []

/-- A request and the message that comes back. -/
def exchange (k : Fin maxSessions) (cmd : List UInt8) : ServiceM (List UInt8) := do
  Service.handleCmd k cmd
  let s ← Prog.get
  return s.sent.getLast?.elim [] (·.2)

def i64At (resp : List UInt8) (off : Nat) : Int := (leField 64 resp off).toInt

/-- `send_vfs_cmd`. -/
def numberOf (resp : List UInt8) : Int := if 8 ≤ resp.length then i64At resp 0 else -1

/-- What `open` and `write` make of a number. -/
def orFailed (n : Int) : Answer := .number (if n < 0 then -1 else n)

/-- A number as an `i32`. -/
def asI32 (n : Int) : Answer := .number (BitVec.ofInt 32 n).toInt

/-- What `read` and `readdir` make of a message. -/
def dataOf (count : Nat) (resp : List UInt8) : Answer :=
  if 8 ≤ resp.length then
    let result := i64At resp 0
    if result < 0 then .number (-1)
    else
      let actualRead := result.toNat
      if actualRead > 0 then .bytes ((resp.drop 8).take (min (min actualRead count) inlineDataMax)) else .bytes []
  else .number (-1)

def modeOf (ntype : Int) : Nat := if ntype = 2 then 0x4000 else if ntype = 1 then 0x8000 else 0

def infoOf (resp : List UInt8) : Answer :=
  if 16 ≤ resp.length then .info (i64At resp 0) (modeOf (i64At resp 8)) else .number (-1)

namespace Query

def ask (k : Fin maxSessions) : Query → ServiceM Answer
  | openPath path flags => do return orFailed (numberOf (← exchange k (openRequest path flags)))
  | read fd count =>
    if count = 0 then pure (.bytes []) else do return dataOf count (← exchange k (readRequest fd count))
  | write fd data =>
    if data = [] then pure (.number 0) else do return orFailed (numberOf (← exchange k (writeRequest fd data)))
  | mkdir path => do return asI32 (numberOf (← exchange k (pathRequest vfsMkdir path)))
  | rmdir path => do return asI32 (numberOf (← exchange k (pathRequest vfsRmdir path)))
  | unlink path => do return asI32 (numberOf (← exchange k (pathRequest vfsUnlink path)))
  | readdir fd count =>
    if count = 0 then pure (.bytes []) else do return dataOf count (← exchange k (readdirRequest fd count))
  | stat path => do return infoOf (← exchange k (pathRequest vfsStat path))

end Query

/-! ## Without a server -/

/-- The path that arrives: up to a zero, 127 bytes at most, and nothing if the cut leaves no UTF-8. -/
def sentPath (path : List UInt8) : List UInt8 :=
  if (String.fromUTF8? ⟨(cString path).toArray⟩).isSome then cString path else []

/-- The data that arrive: the count is a 32-bit number, and nobody compares it with the 128 bytes. -/
def sentData (data : List UInt8) : Option (List UInt8) :=
  let len := data.length % 2 ^ 32
  if len = 0 then some (data.take inlineDataMax)
  else if len ≤ inlineDataMax then some (data.take len)
  else none

/-- Of a result, what fits the message and the buffer. -/
def sentBytes (count : Nat) : Except Status (Option (List UInt8)) → Answer
  | .ok (some data) => .bytes (data.take (min count inlineDataMax))
  | _ => .number (-1)

def typeMode : NodeType → Nat
  | .file => 0x8000
  | .directory => 0x4000

def statInfo : Except Status (Option (Option (Nat × NodeType))) → Answer
  | .ok (some (some (size, ntype))) => .info size (typeMode ntype)
  | _ => .info (-1) 0

namespace Query

def here (k : Fin maxSessions) : Query → VfsM Answer
  | openPath path flags => do
    return orFailed (Service.returned (← Prog.attempt (Vfs.doOpen k (sentPath path) flags.toNat)))
  | read fd count =>
    if count = 0 then pure (.bytes []) else do
      return sentBytes count (← Prog.attempt (Vfs.doRead k fd.toNat dataSize))
  | write fd data =>
    if data = [] then pure (.number 0)
    else match sentData data with
      | some data => do return orFailed (Service.returned (← Prog.attempt (Vfs.doWrite k fd.toNat data)))
      | none => Prog.fault
  | mkdir path => do
    return .number (Service.returned (← Prog.attempt do Vfs.doMkdir (sentPath path); return some 0))
  | rmdir path => do return .number (Service.returned (← Prog.attempt (Vfs.doRmdir (sentPath path))))
  | unlink path => do return .number (Service.returned (← Prog.attempt (Vfs.doUnlink (sentPath path))))
  | readdir fd count =>
    if count = 0 then pure (.bytes []) else do
      return sentBytes count (← Prog.attempt (Vfs.doReaddir k fd.toNat dataSize))
  | stat path => do return statInfo (← Prog.attempt (Vfs.doStat (sentPath path)))

end Query

/-! ## The way there -/

section Requests

variable {k : Fin maxSessions}

theorem cString_length_le (path : List UInt8) : (cString path).length ≤ 127 := List.length_take_le _ _

theorem cString_ne_zero (path : List UInt8) : ∀ b ∈ cString path, b ≠ 0 := by
  intro b mem
  have whole : b ∈ path.takeWhile (· ≠ 0) := List.mem_of_mem_take mem
  exact of_decide_eq_true (List.all_eq_true.mp List.all_takeWhile b whole)

theorem cmdPath_request (cmd : UInt8) (arg1 arg2 : BitVec 32) (path : List UInt8) :
    cmdPath (request cmd arg1 arg2 (cString path)) = sentPath path := by
  have short := cString_length_le path
  have long : ¬(request cmd arg1 arg2 (cString path)).length ≤ cmdHeader := by
    rw [request_length]
    decide
  have arrived : ((request cmd arg1 arg2 (cString path)).drop cmdHeader).takeWhile (· ≠ 0) = cString path := by
    obtain ⟨n, zeros⟩ : ∃ n, inlineDataMax - (cString path).length = n + 1 :=
      ⟨inlineDataMax - (cString path).length - 1, by unfold inlineDataMax; omega⟩
    rw [request_data, List.take_of_length_le (by unfold inlineDataMax; omega), zeros, List.replicate_succ,
      List.takeWhile_append_of_pos (by simpa using cString_ne_zero path), List.takeWhile_cons_of_neg (by simp),
      List.append_nil]
  rw [cmdPath, if_neg long, arrived]
  rfl

theorem payload_request (fd : BitVec 32) {data : List UInt8} (some_data : data ≠ []) :
    Service.payload (writeRequest fd data) = (sentData data).elim Prog.fault pure := by
  have length : (writeRequest fd data).length = 148 := request_length
  have long : (writeRequest fd data).length > cmdHeader := by
    rw [length]
    decide
  have arg : cmdArg32₂ (writeRequest fd data) = data.length % 2 ^ 32 := request_arg2.trans (BitVec.toNat_ofNat _ _)
  have behind : (writeRequest fd data).drop cmdHeader =
      data.take inlineDataMax ++ List.replicate (inlineDataMax - data.length) 0 := request_data
  have header : cmdHeader = 20 := rfl
  have room : inlineDataMax = 128 := rfl
  have some_byte := List.length_pos_of_ne_nil some_data
  rw [Service.payload, arg, sentData]
  by_cases none : data.length % 2 ^ 32 = 0
  · have nothing : List.replicate (inlineDataMax - data.length) (0 : UInt8) = [] := by
      rw [room, show 128 - data.length = 0 by omega]
      rfl
    rw [if_neg (fun both => absurd none both.2.ne'), if_pos long, if_pos none, behind, nothing, List.append_nil]
    rfl
  · rw [if_pos ⟨long, Nat.pos_of_ne_zero none⟩, if_neg none, length]
    by_cases fits : data.length % 2 ^ 32 ≤ inlineDataMax
    · have le : data.length % 2 ^ 32 ≤ (data.take inlineDataMax).length := by
        rw [List.length_take]
        exact le_min fits (Nat.mod_le _ _)
      have taken : slice (writeRequest fd data) cmdHeader (cmdHeader + data.length % 2 ^ 32) =
          data.take (data.length % 2 ^ 32) := by
        rw [slice, behind, Nat.add_sub_cancel_left, List.take_append_of_le_length le, List.take_take, min_eq_left fits]
      rw [if_pos (by omega), if_pos fits, taken]
      rfl
    · rw [if_neg (by omega), if_neg fits]
      rfl

theorem sentData_length {data sent : List UInt8} (arrives : sentData data = some sent) :
    sent.length ≤ inlineDataMax := by
  unfold sentData at arrives
  dsimp only at arrives
  split_ifs at arrives with none fits
  · cases arrives
    exact List.length_take_le _ _
  · cases arrives
    exact (List.length_take_le _ _).trans fits

end Requests

/-! ## The way back -/

section Answers

/-- A number of 64 bits is not changed. -/
theorem i64At_leBytes {n : Int} (lo : -2 ^ 63 ≤ n) (hi : n < 2 ^ 63) (rest : List UInt8) :
    i64At (leBytes (BitVec.ofInt 64 n) ++ rest) 0 = n := by
  rw [i64At, leField_leBytes (by decide)]
  exact BitVec.toInt_ofInt_eq_self (by decide) (by omega) (by omega)

theorem i64At_behind {n : Int} (lo : -2 ^ 63 ≤ n) (hi : n < 2 ^ 63) (first : BitVec 64) :
    i64At (leBytes first ++ leBytes (BitVec.ofInt 64 n)) 8 = n := by
  rw [i64At, leField_skip (by decide), ← List.append_nil (leBytes (BitVec.ofInt 64 n))]
  exact i64At_leBytes lo hi []

theorem numberOf_leBytes {n : Int} (lo : -2 ^ 63 ≤ n) (hi : n < 2 ^ 63) : numberOf (leBytes (BitVec.ofInt 64 n)) = n := by
  rw [numberOf, if_pos (by rw [leBytes_length])]
  simpa using i64At_leBytes lo hi []

theorem code_range (e : Status) : -42 ≤ e.code ∧ e.code ≤ 0 := by cases e <;> decide

/-- The `i32` of a call whose count is one. -/
theorem returned_range {r : Except Status (Option Nat)} (small : ∀ n, r = .ok (some n) → n < 2 ^ 31) :
    -2 ^ 31 ≤ Service.returned r ∧ Service.returned r < 2 ^ 31 := by
  rcases r with e | _ | n
  · have range := code_range e
    exact ⟨by simp only [Service.returned]; omega, by simp only [Service.returned]; omega⟩
  · simp [Service.returned]
  · have lt := small n rfl
    exact ⟨by simp only [Service.returned]; omega, by simp only [Service.returned]; omega⟩

theorem asI32_number {n : Int} (lo : -2 ^ 31 ≤ n) (hi : n < 2 ^ 31) : asI32 n = .number n := by
  rw [asI32, BitVec.toInt_ofInt_eq_self (by decide) (by omega) (by omega)]

theorem dataOf_message (count : Nat) {r : Except Status (Option (List UInt8))} (no_error : ∀ e, r ≠ .error e)
    (short : ∀ data, r = .ok (some data) → data.length < 2 ^ 63) : dataOf count (dataMessage r) = sentBytes count r := by
  rcases r with e | _ | data
  · exact absurd rfl (no_error e)
  · rfl
  · have length : 8 ≤ (dataMessage (.ok (some data))).length := by simp [dataMessage]
    have result : i64At (dataMessage (.ok (some data))) 0 = data.length := by
      have lt := short data rfl
      exact i64At_leBytes (by omega) (by omega) _
    have rest : (dataMessage (.ok (some data))).drop 8 = data.take inlineDataMax := List.drop_left' (leBytes_length _)
    rw [dataOf, if_pos length, result]
    dsimp only
    rw [if_neg (by omega), Int.toNat_natCast, rest, sentBytes]
    split_ifs with some_byte
    · have cut : min (min (min data.length count) inlineDataMax) inlineDataMax =
          min (min count inlineDataMax) data.length := by omega
      rw [List.take_take, cut, ← List.take_take, List.take_length]
    · rw [List.length_eq_zero_iff.mp (Nat.eq_zero_of_not_pos some_byte), List.take_nil]

def statMessage (r : Except Status (Option (Option (Nat × NodeType)))) : List UInt8 :=
  leBytes (BitVec.ofInt 64 (Service.statFields r).1) ++ leBytes (BitVec.ofInt 64 (Service.statFields r).2)

theorem infoOf_message {r : Except Status (Option (Option (Nat × NodeType)))}
    (small : ∀ size ntype, r = .ok (some (some (size, ntype))) → size < 2 ^ 63) : infoOf (statMessage r) = statInfo r := by
  have length : 16 ≤ (statMessage r).length := by simp [statMessage]
  have type_range : -2 ^ 63 ≤ (Service.statFields r).2 ∧ (Service.statFields r).2 < 2 ^ 63 := by
    unfold Service.statFields
    split <;> norm_num
  have size_range : -2 ^ 63 ≤ (Service.statFields r).1 ∧ (Service.statFields r).1 < 2 ^ 63 := by
    unfold Service.statFields
    split
    · have lt := small _ _ rfl
      dsimp only
      omega
    · have lt := small _ _ rfl
      dsimp only
      omega
    · decide
  have size : i64At (statMessage r) 0 = (Service.statFields r).1 := i64At_leBytes size_range.1 size_range.2 _
  have ntype : i64At (statMessage r) 8 = (Service.statFields r).2 := i64At_behind type_range.1 type_range.2 _
  rw [infoOf, if_pos length, size, ntype]
  rcases r with e | _ | _ | ⟨size, _ | _⟩ <;> rfl

end Answers

/-! ## Both ways -/

section Calls

variable {k : Fin maxSessions} {s : Service}

/-- The message that comes back is the one that was sent. -/
theorem exchange_eq {α : Type} {m : VfsM α} {cmd : List UInt8} {message : Except Status α → List UInt8}
    (handles : Service.handleCmd k cmd = do let r ← Service.call m; Service.channelWrite k (message r)) :
    exchange k cmd = (do
      let r ← Service.call m
      Service.channelWrite k (message r)
      return message r) := by
  rw [exchange, handles, ← Prog.bind_assoc]
  congr 1
  funext r s
  simp [Service.channelWrite, Prog.bind_apply, Prog.get_apply]

/-- A call whose message is understood is a call without a server. -/
theorem exchange_lifts {α : Type} {m : VfsM α} {cmd : List UInt8} {message : Except Status α → List UInt8}
    {result : List UInt8 → Answer} {answer : Except Status α → Answer}
    (handles : Service.handleCmd k cmd = do let r ← Service.call m; Service.channelWrite k (message r))
    (understood : ∀ r t, Prog.attempt m s.vfs = .ok r t → result (message r) = answer r) :
    ((do return result (← exchange k cmd)) s).onState Service.vfs = (do return answer (← Prog.attempt m)) s.vfs := by
  rw [exchange_eq handles, ← Prog.bind_assoc, Prog.bind_apply, Prog.bind_apply]
  have ran : (Service.call m s).onState Service.vfs = Prog.attempt m s.vfs :=
    Prog.Lifts.zoom (Prog.attempt m) (fun _ _ => rfl) s
  cases called : Service.call m s with
  | ok r t =>
    rw [called] at ran
    rw [← ran]
    exact congrArg (Outcome.ok · t.vfs) (understood r t.vfs ran.symm)
  | err e t =>
    rw [called] at ran
    rw [← ran]
    rfl
  | fault t =>
    rw [called] at ran
    rw [← ran]
    rfl

theorem number_lifts {m : VfsM (Option Nat)} {cmd : List UInt8} {result answer : Int → Answer}
    (handles : Service.handleCmd k cmd = Service.respond k m) (small : Returns m s.vfs (· < 2 ^ 31))
    (same : ∀ n, -2 ^ 31 ≤ n → n < 2 ^ 31 → result n = answer n) :
    ((do return result (numberOf (← exchange k cmd))) s).onState Service.vfs =
      (do return answer (Service.returned (← Prog.attempt m))) s.vfs := by
  have understood : ∀ r t, Prog.attempt m s.vfs = .ok r t →
      (result ∘ numberOf) (leBytes (BitVec.ofInt 64 (Service.returned r))) = (answer ∘ Service.returned) r := by
    intro r t run
    have range := returned_range (r := r) (by
      rintro n rfl
      exact small.of_ok run)
    rw [Function.comp, numberOf_leBytes (by omega) (by omega)]
    exact same _ range.1 range.2
  exact exchange_lifts handles understood

theorem data_lifts {m : VfsM (Option (List UInt8))} {cmd : List UInt8} {count : Nat}
    (handles : Service.handleCmd k cmd = Service.respondData k m) (quiet : Prog.NoErr m)
    (short : Returns m s.vfs (·.length ≤ dataSize)) :
    ((do return dataOf count (← exchange k cmd)) s).onState Service.vfs =
      (do return sentBytes count (← Prog.attempt m)) s.vfs := by
  refine exchange_lifts (handles.trans (respondData_eq m)) fun r t run => ?_
  refine dataOf_message count (NoErr.attempt_ne quiet run) ?_
  rintro data rfl
  exact (short.of_ok run).trans_lt (by unfold dataSize; norm_num)

/-- A write that does not fit its message is a panic in both. -/
theorem ask_write_here (fd : BitVec 32) (data : List UInt8) :
    ((Query.write fd data).ask k s).onState Service.vfs = (Query.write fd data).here k s.vfs := by
  rw [Query.ask, Query.here]
  split_ifs with nothing_there
  · rfl
  · have handles : Service.handleCmd k (writeRequest fd data) = (do
        let sent ← Service.payload (writeRequest fd data)
        Service.respond k (Vfs.doWrite k fd.toNat sent)) := by
      have arg : cmdArg32₁ (writeRequest fd data) = fd.toNat := request_arg1
      rw [← arg]
      rfl
    rw [payload_request fd nothing_there] at handles
    cases arrives : sentData data with
    | none =>
      rw [arrives] at handles
      rw [exchange, handles]
      rfl
    | some sent =>
      rw [arrives] at handles
      have small : Returns (Vfs.doWrite k fd.toNat sent) s.vfs (· < 2 ^ 31) := by
        refine Prog.Post.mono doWrite_returns (fun r u le n mem => ?_) fun _ h => h
        exact (le n mem).trans_lt ((sentData_length arrives).trans_lt (by unfold inlineDataMax; norm_num))
      exact number_lifts handles small fun _ _ _ => rfl

/-- A request to the server is the call on its state. -/
theorem ask_here (bounded : Bounded s.vfs.fs) (c : Query) :
    (c.ask k s).onState Service.vfs = c.here k s.vfs := by
  have nothing : ∀ {a : Nat}, a = 0 → a < 2 ^ 31 := by
    rintro a rfl
    norm_num
  cases c with
  | openPath path flags =>
    have handles : Service.handleCmd k (openRequest path flags) =
        Service.respond k (Vfs.doOpen k (sentPath path) flags.toNat) := by
      have arg : cmdArg32₁ (openRequest path flags) = flags.toNat := request_arg1
      rw [← cmdPath_request vfsOpen flags 0, ← arg]
      rfl
    exact number_lifts handles doOpen_returns fun _ _ _ => rfl
  | read fd count =>
    have handles : Service.handleCmd k (readRequest fd count) =
        Service.respondData k (Vfs.doRead k fd.toNat dataSize) := by
      have arg : cmdArg32₁ (readRequest fd count) = fd.toNat := request_arg1
      rw [← arg]
      rfl
    rw [Query.ask, Query.here]
    split_ifs
    · rfl
    · exact data_lifts handles doRead_noErr doRead_returns
  | write fd data => exact ask_write_here fd data
  | mkdir path =>
    have handles : Service.handleCmd k (pathRequest vfsMkdir path) =
        Service.respond k (do Vfs.doMkdir (sentPath path); return some 0) := by
      rw [← cmdPath_request vfsMkdir 0 0]
      rfl
    have zero : Returns (do Vfs.doMkdir (sentPath path); return some 0) s.vfs (· < 2 ^ 31) :=
      (Prog.Post.any _ _).bind fun _ _ _ => .pure (by simp)
    exact number_lifts handles zero fun _ => asI32_number
  | rmdir path =>
    have handles : Service.handleCmd k (pathRequest vfsRmdir path) =
        Service.respond k (Vfs.doRmdir (sentPath path)) := by
      rw [← cmdPath_request vfsRmdir 0 0]
      rfl
    have zero : Returns (Vfs.doRmdir (sentPath path)) s.vfs (· < 2 ^ 31) :=
      Prog.Post.mono (removeAt_returns fun _ => .throw trivial) (fun r u eq n mem => nothing (eq n mem)) fun _ h => h
    exact number_lifts handles zero fun _ => asI32_number
  | unlink path =>
    have handles : Service.handleCmd k (pathRequest vfsUnlink path) =
        Service.respond k (Vfs.doUnlink (sentPath path)) := by
      rw [← cmdPath_request vfsUnlink 0 0]
      rfl
    have zero : Returns (Vfs.doUnlink (sentPath path)) s.vfs (· < 2 ^ 31) :=
      Prog.Post.mono (removeAt_returns fun _ => .pure (by simp)) (fun r u eq n mem => nothing (eq n mem)) fun _ h => h
    exact number_lifts handles zero fun _ => asI32_number
  | readdir fd count =>
    have handles : Service.handleCmd k (readdirRequest fd count) =
        Service.respondData k (Vfs.doReaddir k fd.toNat dataSize) := by
      have arg : cmdArg32₁ (readdirRequest fd count) = fd.toNat := request_arg1
      rw [← arg]
      rfl
    rw [Query.ask, Query.here]
    split_ifs
    · rfl
    · exact data_lifts handles doReaddir_noErr doReaddir_returns
  | stat path =>
    have handles : Service.handleCmd k (pathRequest vfsStat path) = (do
        let r ← Service.call (Vfs.doStat (sentPath path))
        Service.channelWrite k (statMessage r)) := by
      rw [← cmdPath_request vfsStat 0 0]
      rfl
    exact exchange_lifts handles fun r t run => infoOf_message (doStat_size bounded run)

end Calls

/-! ## Any requests -/

section Runs

variable {k : Fin maxSessions}

namespace Query

theorem within_ask (c : Query) : Prog.Within (ServiceKeeps k) (c.ask k) := by
  have exchanges : ∀ cmd, Prog.Within (ServiceKeeps k) (exchange k cmd) := fun cmd =>
    (within_handleCmd cmd).bind fun _ => Prog.Within.get.bind fun _ => .pure _
  cases c with
  | openPath path flags => exact (exchanges _).bind fun _ => .pure _
  | read fd count =>
    rw [ask]
    split_ifs
    · exact .pure _
    · exact (exchanges _).bind fun _ => .pure _
  | write fd data =>
    rw [ask]
    split_ifs
    · exact .pure _
    · exact (exchanges _).bind fun _ => .pure _
  | mkdir path => exact (exchanges _).bind fun _ => .pure _
  | rmdir path => exact (exchanges _).bind fun _ => .pure _
  | unlink path => exact (exchanges _).bind fun _ => .pure _
  | readdir fd count =>
    rw [ask]
    split_ifs
    · exact .pure _
    · exact (exchanges _).bind fun _ => .pure _
  | stat path => exact (exchanges _).bind fun _ => .pure _

/-- Requests one after the other, with what they give. -/
def askAll (k : Fin maxSessions) : List Query → ServiceM (List Answer)
  | [] => pure []
  | c :: cs => do
    let a ← c.ask k
    return a :: (← askAll k cs)

def hereAll (k : Fin maxSessions) : List Query → VfsM (List Answer)
  | [] => pure []
  | c :: cs => do
    let a ← c.here k
    return a :: (← hereAll k cs)

theorem askAll_hereAll {s : Service} (bounded : Bounded s.vfs.fs) (cs : List Query) :
    (askAll k cs s).onState Service.vfs = hereAll k cs s.vfs := by
  induction cs generalizing s with
  | nil => rfl
  | cons c cs ih =>
    have first := ask_here (k := k) bounded c
    have kept : Bounded (c.ask k s).state.vfs.fs := (within_ask c s).bound bounded
    rw [askAll, hereAll, Prog.bind_apply, Prog.bind_apply, ← first]
    cases called : c.ask k s with
    | ok a t =>
      rw [called] at kept
      have rest : (askAll k cs t).onState Service.vfs = hereAll k cs t.vfs := ih kept
      dsimp only [Outcome.onState]
      rw [Prog.bind_apply, Prog.bind_apply, ← rest]
      cases askAll k cs t <;> rfl
    | err e t => rfl
    | fault t => rfl

/-- Whatever the server has been asked before, the requests in a session are the calls on its files. -/
theorem session_answers {s : Service} (run : ServeOp.system.Run (fun _ _ => True) .start s) (k : Fin maxSessions)
    (cs : List Query) : (askAll k cs s).onState Service.vfs = hereAll k cs s.vfs :=
  askAll_hereAll (bounded_run run) cs

/-- A directory and a file are made and looked at. -/
def looks : List Query := [.mkdir [47, 97], .openPath [47, 98] 64, .write 0 [104, 105], .stat [47, 98], .stat [47, 99]]

theorem session_answers_looks : (askAll 0 looks (ServeOp.system.after .start [.connect])).onState Service.vfs =
    hereAll 0 looks (ServeOp.system.after .start [.connect]).vfs :=
  session_answers (connected.mono fun _ _ _ => trivial) 0 looks

end Query

end Runs

end CapsuleOS.Libc
