import Fr8012haLock.Uart.Defs

/-!
# Receiving UART frames under the interrupt

`uartFraming` is the protocol as a framing of byte streams, stated on the bytes themselves.  On the queue of 512 bytes
that the ring stands for, the commands executed are a prefix of the reference decoding of the bytes received, wherever
in a call they arrive; and all of it once nothing more is consumed (`uart_interleaved`).
-/

namespace Fr8012haLock.Uart

open Buffer Common Receive Runs

/-- The size of the payload, as the bytes of a head have it. -/
def payloadSizeOf (h : List UInt8) : ℕ := LittleEndian.value ((h.drop 2).take 4)

/-- The frames of the protocol in a stream of bytes. -/
def uartFraming : Framing UInt8 Call where
  headSize := 7
  isHead h := h.getD 0 0 = 0x55 ∧ h.getD 1 0 ≠ 0 ∧ payloadSizeOf h ≤ 256
  bodySize h := payloadSizeOf h + 1
  emit h b :=
    let n := payloadSizeOf h
    if appCommChecksum (h ++ b) (7 + n) = b.getD n 0 then some (h.getD 6 0, b.take n) else none
  headSize_pos := by decide
  bodySize_pos _ := Nat.succ_pos _

theorem exists_of_length_seven {h : List UInt8} (hl : h.length = 7) :
    ∃ start version a b c d cmd, h = [start, version, a, b, c, d, cmd] := by
  match h, hl with
  | [start, version, a, b, c, d, cmd], _ => exact ⟨start, version, a, b, c, d, cmd, rfl⟩

theorem ofBytes_payloadSize {h : List UInt8} : (UartProHead.ofBytes h).payloadSize.toNat = payloadSizeOf h := by
  have hv := LittleEndian.value_lt ((h.drop 2).take 4)
  have hl : ((h.drop 2).take 4).length ≤ 4 := List.length_take_le _ _
  have hp : 256 ^ ((h.drop 2).take 4).length ≤ 256 ^ 4 := Nat.pow_le_pow_right (by decide) hl
  rw [UartProHead.ofBytes, UInt32.toNat_ofNat', payloadSizeOf]
  omega

theorem appCommChecksum_append {d : List UInt8} {n : ℕ} (h : n ≤ d.length) (t : List UInt8) :
    appCommChecksum (d ++ t) n = appCommChecksum d n := by
  rw [appCommChecksum, List.take_append_of_le_length h, appCommChecksum]

/-- **The code knows the protocol that the framing states.** -/
theorem uart_implements : Implements uartProtocol uartFraming where
  headSize := rfl
  headSize_ge := by decide
  headSize_lt := by decide
  toBytes_ofBytes h hl := by
    obtain ⟨start, version, a, b, c, d, cmd, rfl⟩ := exists_of_length_seven hl
    show [start, version] ++ LittleEndian.bytes 4 (UartProHead.ofBytes _).payloadSize.toNat ++ [cmd] = _
    have hsize : LittleEndian.bytes 4 (LittleEndian.value [a, b, c, d]) = [a, b, c, d] :=
      LittleEndian.bytes_value [a, b, c, d]
    rw [ofBytes_payloadSize]
    show [start, version] ++ LittleEndian.bytes 4 (LittleEndian.value [a, b, c, d]) ++ [cmd] = _
    rw [hsize]
    rfl
  ofBytes_append h t hl := by
    obtain ⟨start, version, a, b, c, d, cmd, rfl⟩ := exists_of_length_seven hl
    rfl
  checkHead h hl := by
    have hmax : maxPayloadSize = 256 := rfl
    refine decide_eq_decide.mpr ?_
    rw [show uartProtocol.ofBytes h = UartProHead.ofBytes h from rfl, ofBytes_payloadSize, hmax]
    rfl
  bodySize h _ _ := congrArg (· + 1) ofBytes_payloadSize
  payload_le h _ hh := by
    show (UartProHead.ofBytes h).payloadSize.toNat ≤ 256
    rw [ofBytes_payloadSize]
    exact (of_decide_eq_true hh).2.2
  checksum_append d t n hn := appCommChecksum_append hn t
  emit h b _ _ _ := by
    have hsize : (uartProtocol.payloadSize (uartProtocol.ofBytes h)).toNat = payloadSizeOf h := ofBytes_payloadSize
    rw [hsize]
    rfl

/-- A byte arrives only while the queue has room for it. -/
def HasRoom (m : Micro (ByteQueue uartBufferSize) UartProHead) : Interleaving → Prop
  | .receive _ => 1 ≤ (ByteRing.freeSize m.state.ring).toNat
  | .advance => True

instance : ∀ (m : Micro (ByteQueue uartBufferSize) UartProHead) (e : Interleaving), Decidable (HasRoom m e)
  | m, .receive _ => inferInstanceAs (Decidable (1 ≤ (ByteRing.freeSize m.state.ring).toNat))
  | _, .advance => isTrue trivial

theorem HasRoom.arrives {m : Micro (ByteQueue uartBufferSize) UartProHead} {e : Interleaving} (h : HasRoom m e) :
    Arrives m e := by
  cases e with
  | receive b => exact appends_of_le_room (h.trans (ByteQueue.toNat_freeSize _).le)
  | advance => trivial

theorem tends_init : Tends uartProtocol uartFraming [] uartQueueInit :=
  ⟨⟨none, []⟩, ⟨trivial, rfl, Or.inl ⟨rfl, rfl⟩⟩, trivial, fun _ => rfl⟩

/-- **The parser under its interrupt.**  In every interleaving of arriving bytes with the ring operations of the calls,
in which no byte arrives while the queue is full, the commands executed are a prefix of the reference decoding of the
bytes received.  They are all of it when the parser is between two calls and a call would consume nothing; and it gets
there if no more bytes arrive. -/
theorem uart_interleaved (es : List Interleaving) (ha : Admits uartStep HasRoom uartQueueInit es) :
    ∃ m, run uartStep uartQueueInit es = some m ∧ m.state.calls <+: uartFraming.decode (received es) ∧
      (m.place = .idle → Settled uartProtocol m.state → m.state.calls = uartFraming.decode (received es)) ∧
      ∃ n m', run uartStep m (List.replicate n .advance) = some m' ∧ m'.place = .idle ∧
        Settled uartProtocol m'.state ∧ m'.state.calls = uartFraming.decode (received es) := by
  have hend : ∀ q : ByteQueue uartBufferSize, ¬ LawfulRing.AtEnd q := fun _ h => h
  obtain ⟨m, hr, ht⟩ := run_keeps (fun es m e h hok => Tends.step uart_implements hend h (HasRoom.arrives hok)) []
    tends_init ha
  rw [List.nil_append] at ht
  have hw : written [.write (received es)] = received es := written_write _
  obtain ⟨m', ⟨n, hn⟩, hi, hset, hc⟩ := ht.settles uart_implements hend
  refine ⟨m, hr, hw ▸ ht.follows.calls_prefix, fun _ hs => ?_, n, m', hn, hi, hset, hc⟩
  rw [ht.follows.settled uart_implements (fun _ h => absurd h (hend _)) hs, hw]

/-- A frame whose last bytes arrive while the head is looked for. -/
def splitArrival : List Interleaving :=
  [0x55, 1, 1, 0, 0, 0, 9].map .receive ++ [.advance, .advance, .receive 7, .advance, .receive 0x67]

theorem uart_interleaved_split :
    ∃ m, run uartStep uartQueueInit splitArrival = some m ∧
      m.state.calls <+: uartFraming.decode (received splitArrival) ∧
      (m.place = .idle → Settled uartProtocol m.state →
        m.state.calls = uartFraming.decode (received splitArrival)) ∧
      ∃ n m', run uartStep m (List.replicate n .advance) = some m' ∧ m'.place = .idle ∧
        Settled uartProtocol m'.state ∧ m'.state.calls = uartFraming.decode (received splitArrival) :=
  uart_interleaved splitArrival (by decide +kernel)

example : uartFraming.decode [0x55, 1, 1, 0, 0, 0, 9, 7, 0x67] = [(9, [7])] := by decide +kernel

end Fr8012haLock.Uart
