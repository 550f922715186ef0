import CapsuleOS.Fileagent.Commands

/-!
# The requests of libc

The 148 bytes that `open`, `read`, `write` and `close` send to the file server.
-/
namespace CapsuleOS.Libc

open Lib Fileagent

/-- The array `cmd`: a command, two numbers and the data, and zeros for the rest. -/
def request (cmd : UInt8) (arg1 arg2 : BitVec 32) (data : List UInt8) : List UInt8 :=
  [cmd, 0, 0, 0] ++ (leBytes arg1 ++ (leBytes arg2 ++ (List.replicate 8 0 ++
    (data.take inlineDataMax ++ List.replicate (inlineDataMax - data.length) 0))))

/-- The bytes of a C string, 127 at most. -/
def cString (path : List UInt8) : List UInt8 := (path.takeWhile (· ≠ 0)).take 127

def openRequest (path : List UInt8) (flags : BitVec 32) : List UInt8 :=
  request vfsOpen flags 0 (cString path)

def readRequest (remoteFd : BitVec 32) (count : Nat) : List UInt8 :=
  request vfsRead remoteFd (BitVec.ofNat 32 count) []

/-- The count is that of the caller, the data are 128 bytes at most. -/
def writeRequest (remoteFd : BitVec 32) (buf : List UInt8) : List UInt8 :=
  request vfsWrite remoteFd (BitVec.ofNat 32 buf.length) buf

def closeRequest (remoteFd : BitVec 32) : List UInt8 := request vfsClose remoteFd 0 []

section Requests

variable {cmd : UInt8} {arg1 arg2 : BitVec 32} {data : List UInt8}

@[simp] theorem request_length : (request cmd arg1 arg2 data).length = cmdSize := by
  simp [request, cmdSize, inlineDataMax]
  omega

@[simp] theorem request_head : (request cmd arg1 arg2 data).head? = some cmd := rfl

@[simp] theorem request_arg1 : cmdArg32₁ (request cmd arg1 arg2 data) = arg1.toNat := by
  have length : ¬(request cmd arg1 arg2 data).length < 8 := by simp [cmdSize]
  rw [cmdArg32₁, if_neg length, request, leField_append (show _ ≤ 4 from le_rfl)]
  exact congrArg BitVec.toNat (leField_leBytes (by decide))

@[simp] theorem request_arg2 : cmdArg32₂ (request cmd arg1 arg2 data) = arg2.toNat := by
  have length : ¬(request cmd arg1 arg2 data).length < 12 := by simp [cmdSize]
  rw [cmdArg32₂, if_neg length, request, leField_append (show [cmd, 0, 0, 0].length ≤ 8 by simp),
    leField_skip (show 32 / 8 ≤ 8 - [cmd, 0, 0, 0].length by simp)]
  exact congrArg BitVec.toNat (leField_leBytes (by decide))

/-- The data are behind the header. -/
theorem request_data : (request cmd arg1 arg2 data).drop cmdHeader =
    data.take inlineDataMax ++ List.replicate (inlineDataMax - data.length) 0 := by
  have split : request cmd arg1 arg2 data =
      ([cmd, 0, 0, 0] ++ leBytes arg1 ++ leBytes arg2 ++ List.replicate 8 0) ++
        (data.take inlineDataMax ++ List.replicate (inlineDataMax - data.length) 0) := by
    simp only [request, List.append_assoc]
  rw [split]
  exact List.drop_left' (by simp [cmdHeader])

end Requests

end CapsuleOS.Libc
