import Fr8012haLock.Ble.Frames
import Fr8012haLock.Receive.Search
import Fr8012haLock.Uart.Reception

/-!
# What holds of both parsers

Heads have six bytes in the one protocol and seven in the other; the loop that searches for them is the same.
-/

namespace Fr8012haLock

open Ble Buffer Receive Uart

/-- **Both parsers search exactly.**  On every ring of 1 to `2 ^ 31` bytes, with any contents and both indices at most
its size, a call that finds no head saved and enough bytes for one leaves its loop, with exact progress in every
round. -/
theorem heads_searched_exactly {rb : RingBuffer} (h : rb.Wf) (hN : rb.size.toNat ≤ 2 ^ 31) :
    (∀ s : Statics BleProHead, s.readStep = 0 → 6 ≤ (ringBufferValidSize rb).toNat → SearchesExactly bleProtocol rb s) ∧
      ∀ s : Statics UartProHead, s.readStep = 0 → 7 ≤ (ringBufferValidSize rb).toNat →
        SearchesExactly uartProtocol rb s := by
  constructor
  · intro s hs hv
    exact search_exact ble_implements h hN hs hv
  · intro s hs hv
    exact search_exact uart_implements h hN hs hv

/-- A ring of ten whose read index rests at the end: the eight unread bytes begin at the front. -/
def restingRing : RingBuffer := ⟨10, 8, 10, [0, 0x55, 1, 0, 0, 0, 0, 9, 0, 0]⟩

theorem heads_searched_exactly_resting :
    SearchesExactly bleProtocol restingRing bleStatics ∧ SearchesExactly uartProtocol restingRing uartStatics := by
  have hw : restingRing.Wf := ⟨by decide, by decide, by decide, by decide⟩
  obtain ⟨hble, huart⟩ := heads_searched_exactly hw (by decide)
  exact ⟨hble bleStatics rfl (by decide), huart uartStatics rfl (by decide)⟩

end Fr8012haLock
