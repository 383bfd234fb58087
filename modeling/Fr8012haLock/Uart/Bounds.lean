import Fr8012haLock.Receive.Bounds
import Fr8012haLock.Uart.Defs

/-!
# What a sender can make the UART parser access

The size of a payload is a field of 32 bits that arrives in one call and is used in a later one.  Whatever the ring
holds, at whatever ring operation, the parser accesses nothing outside `recv_data` (`uart_stays_inside`).
-/

namespace Fr8012haLock.Uart

open Buffer Receive

theorem uart_bounded : Bounded uartProtocol where
  headSize_lt := by decide
  length_toBytes head := by
    show ([head.start, head.version] ++ LittleEndian.bytes 4 head.payloadSize.toNat ++ [head.cmd]).length = 7
    simp
  payload_le _ hc := (of_decide_eq_true hc).2.2

/-- The parser before its first call, with any ring and any saved head. -/
def uartStart (rb : BoundedRing uartBufferSize) (head : UartProHead) : Micro RingBuffer UartProHead :=
  ⟨⟨rb.1, ⟨0, head⟩, []⟩, .idle⟩

/-- **The parser stays inside `recv_data`.**  The ring is replaced by any other, with any bytes and with both indices
at most 512, before any of the ring operations of any number of calls.  Then `read_step` is `0` or `1`; if it is `1`
the saved head has passed the test, and one more than the size of its payload does not wrap; and whatever the next
step accesses is inside the 264 bytes of `recv_data`: the copies of `ring_buffer_read`, the bytes summed up and the
checksum, and a payload handed on, which has at most 256 bytes. -/
theorem uart_stays_inside (rb : BoundedRing uartBufferSize) (head : UartProHead)
    (es : List (Disturbance uartBufferSize)) :
    let m := (uartStart rb head).disturbAll uartProtocol es
    let s := m.state.statics
    (s.readStep = 0 ∨ s.readStep = 1) ∧
      (s.readStep = 1 → uartProtocolCheckHead s.head = true ∧
        (s.head.payloadSize + 1).toNat = s.head.payloadSize.toNat + 1) ∧
      (m.accesses uartProtocol).Inside (7 + 256 + 1) := by
  intro m s
  have h : Guarded uartProtocol m :=
    Guarded.disturbAll uart_bounded (m := uartStart rb head) ⟨rb.2.1, Or.inl rfl⟩ es
  refine ⟨h.place.step.imp_right And.left, ?_, h.inside uart_bounded⟩
  intro hs
  rcases h.place.step with h0 | ⟨-, hc⟩
  · rw [h0] at hs
    exact absurd hs (by decide)
  · exact ⟨hc, (uart_bounded.toNat_size hc).1⟩

end Fr8012haLock.Uart
