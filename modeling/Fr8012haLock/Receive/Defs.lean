import Fr8012haLock.Buffer.Lawful
import Fr8012haLock.Lib.Framing

/-!
# The receive loop of the two protocols

`ble_protocol_process` and `uart_protocol_process` are one function up to the layout of the head and the checksum.
`Protocol` collects what differs between them, `protocolProcess` is the function.

A call returns `none` when it does not return in C; here that is the search loop going on after as many rounds as
there were unread bytes.
-/

namespace Fr8012haLock.Receive

open Cyclic Buffer

/-- What the two protocols differ in: the size of a head, how the packed struct is laid out in bytes, the test of a
head, its fields, and the checksum over a number of bytes. -/
structure Protocol (Head : Type) where
  headSize : UInt32
  ofBytes : List UInt8 → Head
  toBytes : Head → List UInt8
  checkHead : Head → Bool
  payloadSize : Head → UInt32
  cmd : Head → UInt8
  checksum : List UInt8 → ℕ → UInt8

/-- `BLE_PRO_MAX_PAYLOAD_SIZE` and `UART_PRO_MAX_PAYLOAD_SIZE` -/
def maxPayloadSize : ℕ := 256

/-- The static variables of `..._protocol_process`. -/
structure Statics (Head : Type) where
  readStep : UInt8
  head : Head

/-- A command handed on: `cmd`, and the `size` bytes of `payload`. -/
abbrev Call : Type := UInt8 × List UInt8

variable {Head R : Type} [ByteRing R] (P : Protocol Head)

/-- `recv_data` after `memset`. -/
def Protocol.recvData : List UInt8 := List.replicate (P.headSize.toNat + maxPayloadSize + 1) 0

/-- The `while` loop: as long as `recv_data` is no head, skip a byte and read again.  `some (rb, none)` is the return
for want of bytes, `some (rb, some recv_data)` the end of the loop. -/
def findHead : ℕ → R → List UInt8 → Option (R × Option (List UInt8))
  | 0, _, _ => none
  | fuel + 1, rb, recvData =>
    if P.checkHead (P.ofBytes recvData) then some (rb, some recvData)
    else
      let rb := ByteRing.updateReadIdx rb 1
      if ByteRing.validSize rb < P.headSize then some (rb, none)
      else
        let (rb, recvData) := ByteRing.read rb recvData 0 P.headSize 0
        findHead fuel rb recvData

/-- The read of payload and checksum behind the head, and what follows it in the call. -/
def takeBody (rb : R) (s : Statics Head) : R × Statics Head × Option Call :=
  let recvData := memcpy P.recvData 0 (P.toBytes s.head)
  let (rb, recvData) := ByteRing.read rb recvData P.headSize.toNat (P.payloadSize s.head + 1) 1
  let size := (P.payloadSize s.head).toNat
  let recvChecksum := recvData.getD (P.headSize.toNat + size) 0
  let calChecksum := P.checksum recvData (P.headSize.toNat + size)
  let call :=
    if calChecksum = recvChecksum then some (P.cmd s.head, (recvData.drop P.headSize.toNat).take size) else none
  (rb, { s with readStep := 0 }, call)

/-- `ble_protocol_process` and `uart_protocol_process` -/
def protocolProcess (rb : R) (s : Statics Head) : Option (R × Statics Head × Option Call) :=
  -- find head.
  if s.readStep = 0 then
    if ByteRing.validSize rb < P.headSize then some (rb, s, none)
    else
      let (rb, recvData) := ByteRing.read rb P.recvData 0 P.headSize 0
      match findHead P (ByteRing.validSize rb).toNat rb recvData with
      | none => none
      | some (rb, none) => some (rb, s, none)
      | some (rb, some recvData) =>
        some (ByteRing.updateReadIdx rb P.headSize.toUInt8, ⟨s.readStep + 1, P.ofBytes recvData⟩, none)
  -- get payload.
  else if s.readStep = 1 then
    if ByteRing.validSize rb < P.payloadSize s.head + 1 then some (rb, s, none) else some (takeBody P rb s)
  else some (rb, s, none)

end Fr8012haLock.Receive
