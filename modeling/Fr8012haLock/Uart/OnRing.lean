import Fr8012haLock.Uart.Reception
import Fr8012haLock.Receive.OnRing

/-!
# The UART parser on its ring of 512 bytes

`uart1_isr_ram` empties the receive FIFO of the device into the ring, a byte at a time, whenever it interrupts the
parser.  The parser on the ring then mirrors the one on the queue, so that `uart_interleaved` carries over to the code
as it runs (`uart_on_ring`): an interrupt must bring fewer bytes than are free, and the one skip that the ring gets
wrong must not happen.
-/

namespace Fr8012haLock.Uart

open Buffer Common Receive Runs

/-- `uart1_isr_ram`, with the interrupt `int_id` of the device, the bytes in its receive FIFO, and `uart_buffer`, which
is `none` for a null pointer.  Returns the ring, and what is left in the FIFO. -/
def uart1IsrRam {R : Type} [ByteRing R] (intId : UInt8) (fifo : List UInt8) (uartBuffer : Option R) :
    Option R × List UInt8 :=
  -- Receiver data available or Character time-out indication
  if intId = 0x04 ∨ intId = 0x0c then
    (uartBuffer.map fun rb => fifo.foldl (fun rb data => ringWrite rb [data]) rb, [])
  else (uartBuffer, fifo)

/-- `uart_protocol_init`, where the allocation succeeds; `mem` is what is in the block allocated. -/
def uartProtocolInit (mem : Vector UInt8 uartBufferSize.toNat) : Micro RingBuffer UartProHead :=
  ⟨⟨ringBufferInit uartBufferSize mem, uartStatics, []⟩, .idle⟩

/-- What happens to the parser: an interrupt of the device, or it goes on by a ring operation. -/
inductive UartEvent where
  | interrupt (intId : UInt8) (fifo : List UInt8)
  | advance

/-- The bytes that an event takes from the FIFO. -/
def UartEvent.bytes : UartEvent → List UInt8
  | .interrupt intId fifo => if intId = 0x04 ∨ intId = 0x0c then fifo else []
  | .advance => []

/-- The parser after `uart1_isr_ram`. -/
def interrupted (m : Micro RingBuffer UartProHead) (intId : UInt8) (fifo : List UInt8) : Micro RingBuffer UartProHead :=
  { m with state.ring := (uart1IsrRam intId fifo (some m.state.ring)).1.getD m.state.ring }

/-- One event. -/
def uartRingStep (m : Micro RingBuffer UartProHead) : UartEvent → Option (Micro RingBuffer UartProHead)
  | .interrupt intId fifo => some (interrupted m intId fifo)
  | .advance => uartStep m .advance

/-- An interrupt brings fewer bytes than are free, and no skip of a head drops everything at the end of the ring. -/
def UartSafe (m : Micro RingBuffer UartProHead) : UartEvent → Prop
  | .interrupt intId fifo => (UartEvent.interrupt intId fifo).bytes.length < m.state.ring.free
  | .advance => ¬ DropsAtEnd uartProtocol m

instance : ∀ (m : Micro RingBuffer UartProHead) (e : UartEvent), Decidable (UartSafe m e)
  | m, .interrupt intId fifo =>
    inferInstanceAs (Decidable ((UartEvent.interrupt intId fifo).bytes.length < m.state.ring.free))
  | m, .advance => inferInstanceAs (Decidable (¬ DropsAtEnd uartProtocol m))

/-- The bytes that the interrupts took from the FIFO, in order. -/
def taken (es : List UartEvent) : List UInt8 := es.flatMap UartEvent.bytes

/-- What an event is for the parser: bytes that arrive one after another, or a ring operation. -/
def UartEvent.interleavings : UartEvent → List Interleaving
  | .interrupt intId fifo => (UartEvent.interrupt intId fifo).bytes.map .receive
  | .advance => [.advance]

/-! ### An interrupt is the arrival of its bytes -/

@[simp] theorem received_map_receive (bytes : List UInt8) : received (bytes.map .receive) = bytes := by
  induction bytes with
  | nil => rfl
  | cons b bytes ih => exact congrArg (b :: ·) ih

theorem received_interleavings (es : List UartEvent) : received (es.flatMap UartEvent.interleavings) = taken es := by
  induction es with
  | nil => rfl
  | cons e es ih =>
    rw [List.flatMap_cons, received_append, ih]
    cases e with
    | interrupt intId fifo => exact congrArg (· ++ taken es) (received_map_receive _)
    | advance => rfl

theorem run_receive (bytes : List UInt8) (m : Micro RingBuffer UartProHead) :
    run uartStep m (bytes.map .receive) =
      some { m with state.ring := bytes.foldl (fun rb data => ringWrite rb [data]) m.state.ring } := by
  induction bytes generalizing m with
  | nil => rfl
  | cons b bytes ih =>
    rw [List.map_cons, run_cons (show uartStep m (.receive b) = some _ from rfl), ih]
    rfl

/-- **`uart1_isr_ram` writes the bytes one after another**, so an event is what it is for the parser. -/
theorem run_interleavings (m : Micro RingBuffer UartProHead) (e : UartEvent) :
    run uartStep m e.interleavings = uartRingStep m e := by
  cases e with
  | interrupt intId fifo =>
    show run uartStep m ((UartEvent.interrupt intId fifo).bytes.map .receive) = some (interrupted m intId fifo)
    rw [run_receive, interrupted, uart1IsrRam, UartEvent.bytes]
    by_cases hi : intId = 0x04 ∨ intId = 0x0c
    · simp only [if_pos hi]
      rfl
    · simp only [if_neg hi]
      rfl
  | advance => rfl

/-! ### The parser on the ring -/

section Mirrors

variable {m : Micro RingBuffer UartProHead} {n : Micro (ByteQueue uartBufferSize) UartProHead}

/-- **An event keeps the parser on the ring with the one on the queue.** -/
theorem mirrors_step (h : Mirrors m n) {ts : List Interleaving} (ht : Tends uartProtocol uartFraming ts n)
    {e : UartEvent} (hok : UartSafe m e) :
    ∃ m' n', uartRingStep m e = some m' ∧ run uartStep n e.interleavings = some n' ∧ Mirrors m' n' ∧
      Tends uartProtocol uartFraming (ts ++ e.interleavings) n' := by
  have hsmall : uartBufferSize.toNat + 255 < 2 ^ 32 := by decide
  cases e with
  | interrupt intId fifo =>
    obtain ⟨m', n', hm, hn, h', ht'⟩ := h.receiveAll uart_implements hsmall ht hok
    exact ⟨m', n', (run_interleavings m _).symm.trans hm, hn, h', ht'⟩
  | advance =>
    obtain ⟨m', n', hm, hn, h', ht'⟩ := h.step uart_implements hsmall ht (e := .advance) hok
    exact ⟨m', n', hm, by rw [UartEvent.interleavings, run_cons hn, run_nil], h', ht'⟩

end Mirrors

theorem mirrors_init (mem : Vector UInt8 uartBufferSize.toNat) : Mirrors (uartProtocolInit mem) uartQueueInit :=
  ⟨represents_init (by decide) mem, rfl, rfl, rfl⟩

/-- **The UART parser on its ring.**  Let interrupts come between any ring operations of the calls, each with fewer
bytes than are free.  As long as no head is skipped that is all that is unread while `write_idx` is 512, the parser is
where the one on the queue is that received the same bytes.  So the commands executed are a prefix of the reference
decoding of the bytes taken from the device, and all of it when the parser waits for more. -/
theorem uart_on_ring (mem : Vector UInt8 uartBufferSize.toNat) (es : List UartEvent)
    (ha : Admits uartRingStep UartSafe (uartProtocolInit mem) es) :
    ∃ m, run uartRingStep (uartProtocolInit mem) es = some m ∧
      (∃ n, run uartStep uartQueueInit (es.flatMap UartEvent.interleavings) = some n ∧ Mirrors m n) ∧
      m.state.calls <+: uartFraming.decode (taken es) ∧
      (Waits uartProtocol m.state → m.state.calls = uartFraming.decode (taken es)) := by
  have hstep : ∀ (past : List UartEvent) (m : Micro RingBuffer UartProHead) (e : UartEvent),
      (∃ n, run uartStep uartQueueInit (past.flatMap UartEvent.interleavings) = some n ∧ Mirrors m n ∧
        Tends uartProtocol uartFraming (past.flatMap UartEvent.interleavings) n) → UartSafe m e →
      ∃ m', uartRingStep m e = some m' ∧
        ∃ n, run uartStep uartQueueInit ((past ++ [e]).flatMap UartEvent.interleavings) = some n ∧ Mirrors m' n ∧
          Tends uartProtocol uartFraming ((past ++ [e]).flatMap UartEvent.interleavings) n := by
    rintro past m e ⟨n, hn, hm, ht⟩ hok
    obtain ⟨m', n', hs, hn', hm', ht'⟩ := mirrors_step hm ht hok
    rw [List.flatMap_append, List.flatMap_singleton]
    exact ⟨m', hs, n', by rw [run_append hn, hn'], hm', ht'⟩
  obtain ⟨m, hr, n, hn, hm, ht⟩ := run_keeps hstep [] ⟨uartQueueInit, rfl, mirrors_init mem, tends_init⟩ ha
  have hcalls := hm.calls_prefix uart_implements ht
  rw [List.nil_append, received_interleavings] at hcalls
  exact ⟨m, hr, ⟨n, hn, hm⟩, hcalls⟩

/-- A frame in two interrupts, the second in front of the first read. -/
def twoInterrupts : List UartEvent :=
  [.interrupt 0x04 [0x55, 1, 1, 0, 0, 0, 9], .advance, .advance, .interrupt 0x06 [7], .interrupt 0x0c [7, 0x67], .advance,
    .advance, .advance, .advance, .advance]

theorem uart_on_ring_two :
    ∃ m, run uartRingStep (uartProtocolInit (Vector.replicate 512 0)) twoInterrupts = some m ∧
      (∃ n, run uartStep uartQueueInit (twoInterrupts.flatMap UartEvent.interleavings) = some n ∧ Mirrors m n) ∧
      m.state.calls <+: uartFraming.decode (taken twoInterrupts) ∧
      (Waits uartProtocol m.state → m.state.calls = uartFraming.decode (taken twoInterrupts)) :=
  uart_on_ring (Vector.replicate 512 0) twoInterrupts (by decide +kernel)

end Fr8012haLock.Uart
