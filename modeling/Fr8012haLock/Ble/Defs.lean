import Fr8012haLock.Receive.Runs
import Fr8012haLock.Common.AppCommon
import Fr8012haLock.Lib.LittleEndian

/-!
# The BLE protocol (`ble_protocol.c`)

A frame is a head of six bytes, a payload of as many bytes as the head says, and the CRC-8 of both.  The receive loop
is the one of `Receive`; here are the head, the encoder `ble_pro_response` and the initial state.  A call of
`ble_protocol_cmd_func` is an entry of the list `calls` of the parser's state: the command functions themselves are
empty.
-/

namespace Fr8012haLock.Ble

open Cyclic Buffer Common Receive

/-- `BLE_BUFFER_SIZE` -/
def bleBufferSize : UInt32 := 512

/-- `BLE_PRO_HEAD_STX` -/
def bleProHeadStx : UInt16 := 0xA3A4

/-- `ble_pro_head_t` -/
structure BleProHead where
  stx : UInt16
  len : UInt8
  rand : UInt8
  keyOnce : UInt8
  cmd : UInt8
  deriving DecidableEq, Repr

/-- `sizeof(ble_pro_head_t)`; the struct is packed. -/
def bleHeadSize : UInt32 := 6

/-- The head whose memory the first bytes of `d` are. -/
def BleProHead.ofBytes (d : List UInt8) : BleProHead where
  stx := UInt16.ofNat (LittleEndian.value (d.take 2))
  len := d.getD 2 0
  rand := d.getD 3 0
  keyOnce := d.getD 4 0
  cmd := d.getD 5 0

/-- The memory of a head. -/
def BleProHead.toBytes (head : BleProHead) : List UInt8 :=
  LittleEndian.bytes 2 head.stx.toNat ++ [head.len, head.rand, head.keyOnce, head.cmd]

/-- `ble_protocol_check_head` -/
def bleProtocolCheckHead (head : BleProHead) : Bool :=
  head.stx = bleProHeadStx ∧ head.len.toNat ≤ maxPayloadSize

/-- What `ble_protocol_process` knows of the protocol. -/
def bleProtocol : Protocol BleProHead where
  headSize := bleHeadSize
  ofBytes := BleProHead.ofBytes
  toBytes := BleProHead.toBytes
  checkHead := bleProtocolCheckHead
  payloadSize head := head.len.toUInt32
  cmd := BleProHead.cmd
  checksum := appCommCheckCrc8

/-- `ble_protocol_process` -/
def bleProtocolProcess {R : Type} [ByteRing R] (rb : R) (s : Statics BleProHead) :
    Option (R × Statics BleProHead × Option Call) :=
  protocolProcess bleProtocol rb s

/-- A write into `ble_buffer`, or a call of `ble_protocol_process`. -/
abbrev bleStep {R : Type} [ByteRing R] : State R BleProHead → Event → Option (State R BleProHead) :=
  State.step bleProtocol

/-- The zeroed static variables of `ble_protocol_process`. -/
def bleStatics : Statics BleProHead := ⟨0, ⟨0, 0, 0, 0, 0⟩⟩

/-- `ble_protocol_init`, where the allocation succeeds; `mem` is what is in the block allocated. -/
def bleProtocolInit (mem : Vector UInt8 bleBufferSize.toNat) : State RingBuffer BleProHead :=
  ⟨ringBufferInit bleBufferSize mem, bleStatics, []⟩

/-- `ble_pro_response`: the data and the size it hands to `ble_service_write_data`.  From a `size` of 250 on the
code writes behind the end of `response`. -/
def bleProResponse (cmd : UInt8) (payload : List UInt8) (size : UInt32) : List UInt8 × UInt32 :=
  let response := List.replicate 256 0
  let head : BleProHead := ⟨bleProHeadStx, size.toUInt8, 0, 0, cmd⟩
  let crc8Idx := bleHeadSize + size
  let response := memcpy response 0 head.toBytes
  let response := memcpy response bleHeadSize.toNat (payload.take size.toNat)
  let response := response.set crc8Idx.toNat (appCommCheckCrc8 response (bleHeadSize + size).toNat)
  (response, bleHeadSize + size + 1)

end Fr8012haLock.Ble
