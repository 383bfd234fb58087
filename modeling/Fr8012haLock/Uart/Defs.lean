import Fr8012haLock.Receive.Interrupt
import Fr8012haLock.Common.AppCommon
import Fr8012haLock.Lib.LittleEndian

/-!
# The UART protocol (`uart_protocol.c`)

A frame is a head of seven bytes with the size of the payload as a number of four bytes, the payload, and the sum of
both.  The receive loop is the one of `Receive`, here are the head and its test.  A call of `uart_protocol_execute`,
which prints its arguments, is an entry of the list `calls` of the parser's state; the bytes that `uart1_isr_ram`
takes from the device and writes into the ring are the events `Interleaving.receive`.
-/

namespace Fr8012haLock.Uart

open Buffer Common Receive

/-- `UART_BUFFER_SIZE` -/
def uartBufferSize : UInt32 := 512

/-- `UART_PRO_HEAD_START` -/
def uartProHeadStart : UInt8 := 0x55

/-- `uart_pro_head_t` -/
structure UartProHead where
  start : UInt8
  version : UInt8
  payloadSize : UInt32
  cmd : UInt8
  deriving DecidableEq, Repr

/-- `sizeof(uart_pro_head_t)`; the struct is packed. -/
def uartHeadSize : UInt32 := 7

/-- The head whose memory the first bytes of `d` are. -/
def UartProHead.ofBytes (d : List UInt8) : UartProHead where
  start := d.getD 0 0
  version := d.getD 1 0
  payloadSize := UInt32.ofNat (LittleEndian.value ((d.drop 2).take 4))
  cmd := d.getD 6 0

/-- The memory of a head. -/
def UartProHead.toBytes (head : UartProHead) : List UInt8 :=
  [head.start, head.version] ++ LittleEndian.bytes 4 head.payloadSize.toNat ++ [head.cmd]

/-- `uart_protocol_check_head` -/
def uartProtocolCheckHead (head : UartProHead) : Bool :=
  head.start = uartProHeadStart ∧ head.version ≠ 0 ∧ head.payloadSize.toNat ≤ maxPayloadSize

/-- What `uart_protocol_process` knows of the protocol. -/
def uartProtocol : Protocol UartProHead where
  headSize := uartHeadSize
  ofBytes := UartProHead.ofBytes
  toBytes := UartProHead.toBytes
  checkHead := uartProtocolCheckHead
  payloadSize := UartProHead.payloadSize
  cmd := UartProHead.cmd
  checksum := appCommChecksum

/-- `uart_protocol_process` -/
def uartProtocolProcess {R : Type} [ByteRing R] (rb : R) (s : Statics UartProHead) :
    Option (R × Statics UartProHead × Option Call) :=
  protocolProcess uartProtocol rb s

/-- `uart_protocol_process` with the interrupt, one event at a time. -/
abbrev uartStep {R : Type} [ByteRing R] : Micro R UartProHead → Interleaving → Option (Micro R UartProHead) :=
  Micro.step uartProtocol

/-- The zeroed static variables of `uart_protocol_process`. -/
def uartStatics : Statics UartProHead := ⟨0, ⟨0, 0, 0, 0⟩⟩

/-- The parser on the empty queue, before its first call. -/
def uartQueueInit : Micro (ByteQueue uartBufferSize) UartProHead :=
  ⟨⟨ByteQueue.empty uartBufferSize, uartStatics, []⟩, .idle⟩

end Fr8012haLock.Uart
