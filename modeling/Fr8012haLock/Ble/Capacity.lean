import Fr8012haLock.Ble.Service

/-!
# What the ring has room for while the parser waits

A parser that has caught up waits for the rest of a head, or for the rest of a body of at most 256 bytes.  So up to 255
bytes stay unread, and a ring of 512 has room for 257 more, but not for the 300 that the attribute table allows in a
write (`caught_up_write_iff`).
-/

namespace Fr8012haLock.Ble

open Buffer Receive Runs

/-! ### What no operation on the ring changes -/

section

variable {Head R γ : Type} [ByteRing R] {P : Protocol Head} {c : R → γ}

theorem findHead_keeps (hr : ∀ (r : R) d off n u, c (ByteRing.read r d off n u).1 = c r)
    (hk : ∀ (r : R) k, c (ByteRing.updateReadIdx r k) = c r) {fuel : ℕ} {r r' : R} {d : List UInt8}
    {out : Option (List UInt8)} (h : findHead P fuel r d = some (r', out)) : c r' = c r := by
  induction fuel generalizing r d with
  | zero => cases h
  | succ fuel ih =>
    rw [findHead] at h
    by_cases hh : P.checkHead (P.ofBytes d)
    · rw [if_pos hh] at h
      cases h
      rfl
    · rw [if_neg hh] at h
      by_cases hs : ByteRing.validSize (ByteRing.updateReadIdx r 1) < P.headSize
      · simp only [if_pos hs] at h
        cases h
        exact hk r 1
      · simp only [if_neg hs] at h
        exact (ih h).trans ((hr ..).trans (hk r 1))

theorem protocolProcess_keeps (hr : ∀ (r : R) d off n u, c (ByteRing.read r d off n u).1 = c r)
    (hk : ∀ (r : R) k, c (ByteRing.updateReadIdx r k) = c r) {r r' : R} {s s' : Statics Head} {call : Option Call}
    (h : protocolProcess P r s = some (r', s', call)) : c r' = c r := by
  rw [protocolProcess] at h
  by_cases hs0 : s.readStep = 0
  · rw [if_pos hs0] at h
    by_cases hv : ByteRing.validSize r < P.headSize
    · rw [if_pos hv] at h
      cases h
      rfl
    · simp only [if_neg hv] at h
      split at h
      · cases h
      · rename_i hf
        cases h
        exact (findHead_keeps hr hk hf).trans (hr ..)
      · rename_i hf
        cases h
        exact (hk ..).trans ((findHead_keeps hr hk hf).trans (hr ..))
  · rw [if_neg hs0] at h
    by_cases hs1 : s.readStep = 1
    · rw [if_pos hs1] at h
      by_cases hv : ByteRing.validSize r < P.payloadSize s.head + 1
      · rw [if_pos hv] at h
        cases h
        rfl
      · rw [if_neg hv, takeBody] at h
        cases h
        exact hr ..
    · rw [if_neg hs1] at h
      cases h
      rfl

end

theorem size_step {s s' : State RingBuffer BleProHead} {e : Event} (h : bleStep s e = some s') :
    s'.ring.size = s.ring.size := by
  cases e with
  | write bytes =>
    cases h
    exact size_write ..
  | process =>
    obtain ⟨⟨r', st, call⟩, hp, rfl⟩ := Option.map_eq_some_iff.mp h
    exact protocolProcess_keeps size_read size_updateReadIdx hp

theorem lawful_of_run {mem : Vector UInt8 bleBufferSize.toNat} {es : List Event} {s : State RingBuffer BleProHead}
    (h : run bleStep (bleProtocolInit mem) es = some s) :
    Lawful bleProtocol bleFraming s ∧ s.ring.size = bleBufferSize := by
  have hstep : ∀ (past : List Event) (s : State RingBuffer BleProHead) (e : Event),
      (Lawful bleProtocol bleFraming s ∧ s.ring.size = bleBufferSize) → True →
      ∃ s', bleStep s e = some s' ∧ (Lawful bleProtocol bleFraming s' ∧ s'.ring.size = bleBufferSize) := by
    rintro past s e ⟨hl, hsize⟩ -
    obtain ⟨s', hs, hl'⟩ := hl.step ble_implements e
    exact ⟨s', hs, hl', (size_step hs).trans hsize⟩
  obtain ⟨s', hr, hs'⟩ := run_keeps hstep [] ⟨lawful_init mem, rfl⟩ (admits_of_forall (fun _ _ => trivial) _ es)
  rw [h] at hr
  cases hr
  exact hs'

/-! ### Caught up -/

/-- A further call of `ble_protocol_process` consumes no byte: it leaves everything as it is. -/
def CaughtUp (s : State RingBuffer BleProHead) : Prop := bleStep s .process = some s

/-- **A parser that has caught up** leaves at most 255 bytes unread, so that at least 257 are free. -/
theorem free_of_caughtUp {s : State RingBuffer BleProHead} (hl : Lawful bleProtocol bleFraming s)
    (hsize : s.ring.size = bleBufferSize) (hs : CaughtUp s) : 257 ≤ s.ring.free := by
  have hunread : s.ring.unread.length ≤ 255 := by
    rcases hl.waits ble_implements hs with hq | ⟨hd, -, hq⟩
    · have hq : s.ring.unread.length < 6 := hq
      omega
    · have hq : s.ring.unread.length < (hd.getD 2 0).toNat + 1 := hq
      have := (hd.getD 2 0).toNat_lt
      omega
  obtain ⟨rc, ht⟩ := hl
  have h512 : bleBufferSize.toNat = 512 := rfl
  rw [ht.wf.1.free_eq, ← ht.wf.1.length_unread, hsize, h512]
  omega

theorem caughtUp_of_body {s : State RingBuffer BleProHead} (hs : s.statics.readStep = 1)
    (hv : ringBufferValidSize s.ring < bleProtocol.payloadSize s.statics.head + 1) : CaughtUp s := by
  have hs0 : s.statics.readStep ≠ 0 := by
    rw [hs]
    decide
  have hp : protocolProcess bleProtocol s.ring s.statics = some (s.ring, s.statics, none) := by
    rw [protocolProcess, if_neg hs0, if_pos hs]
    exact if_pos hv
  have hstep := State.step_process hp
  rwa [Option.toList_none, List.append_nil] at hstep

/-- The head of a frame with 255 bytes of payload, taken, and then the payload. -/
def heldRun : List Event :=
  [.write [0xA4, 0xA3, 0xff, 0, 0, 5], .process, .write (List.replicate 255 0)]

/-- The parser waits for the last byte of the longest frame, and 257 bytes are free. -/
theorem heldRun_state : ∃ s, run bleStep (bleProtocolInit (Vector.replicate 512 0)) heldRun = some s ∧ CaughtUp s ∧
    s.ring.free = 257 ∧ s.ring.readIdx.toNat = 6 := by
  have hrun : (run bleStep (bleProtocolInit (Vector.replicate 512 0)) heldRun).map (fun s =>
      (s.statics.readStep, decide (ringBufferValidSize s.ring < bleProtocol.payloadSize s.statics.head + 1),
        s.ring.free, s.ring.readIdx.toNat)) = some (1, true, 257, 6) := by
    decide +kernel
  obtain ⟨s, hs, h⟩ := Option.map_eq_some_iff.mp hrun
  injection h with h1 h
  injection h with h2 h
  injection h with h3 h4
  exact ⟨s, hs, caughtUp_of_body h1 (of_decide_eq_true h2), h3, h4⟩

theorem ringWrite_of_free_lt {rb : RingBuffer} {bytes : List UInt8}
    (h : rb.free < (UInt32.ofNat bytes.length).toNat) : ringWrite rb bytes = rb := write_of_free_lt h

/-- A write of as many bytes as are free, or of more, adds nothing to a ring that has been read from. -/
theorem length_unread_write_le {rb : RingBuffer} (hw : rb.Wf) (hr : 0 < rb.readIdx.toNat) (bytes : List UInt8)
    (h0 : 0 < bytes.length) (hlt : bytes.length < 2 ^ 32) (hfree : rb.free ≤ bytes.length) :
    (ringWrite rb bytes).unread.length ≤ rb.unread.length := by
  have hsize : (UInt32.ofNat bytes.length).toNat = bytes.length := by
    rw [UInt32.toNat_ofNat']
    omega
  rcases hfree.eq_or_lt with heq | hgt
  · show (ringBufferWrite rb bytes (UInt32.ofNat bytes.length)).unread.length ≤ _
    have hvalid := hw.valid_write hsize.le (by omega)
    rw [if_pos (by omega)] at hvalid
    rw [(hw.write hsize.le).length_unread, hvalid]
    exact Nat.zero_le _
  · rw [ringWrite_of_free_lt (by omega)]

/-- **Which writes a parser that has caught up never refuses.**  Those of up to 257 bytes pass the test of the free
size in every such state; those of up to 256 are also kept whole, while the 257 bytes that fill the ring make it look
empty. -/
theorem caught_up_write_iff (n : UInt16) :
    ((∀ mem es s, run bleStep (bleProtocolInit mem) es = some s → CaughtUp s →
        ¬ ringBufferFreeSize s.ring < n.toUInt32) ↔ n.toNat ≤ 257) ∧
      ((∀ mem es s, run bleStep (bleProtocolInit mem) es = some s → CaughtUp s →
        ∀ bytes : List UInt8, bytes.length = n.toNat →
          (ringWrite s.ring bytes).unread = s.ring.unread ++ bytes) ↔ n.toNat ≤ 256) := by
  obtain ⟨held, hrun, hcaught, hfree, hread⟩ := heldRun_state
  have hn := n.toNat_lt
  constructor
  · constructor
    · intro h
      have hpass := h _ _ held hrun hcaught
      rw [UInt32.lt_iff_toNat_lt, UInt16.toNat_toUInt32] at hpass
      change ¬ held.ring.free < _ at hpass
      omega
    · intro h mem es s hs hc
      obtain ⟨hl, hsize⟩ := lawful_of_run hs
      have h257 := free_of_caughtUp hl hsize hc
      rw [UInt32.lt_iff_toNat_lt, UInt16.toNat_toUInt32]
      show ¬ s.ring.free < _
      omega
  · constructor
    · intro h
      by_contra hlt
      have hkept := h _ _ held hrun hcaught (List.replicate n.toNat 0) List.length_replicate
      obtain ⟨⟨rc, ht⟩, -⟩ := lawful_of_run hrun
      have hle := length_unread_write_le ht.wf.1 (by omega) (List.replicate n.toNat 0)
        (by rw [List.length_replicate]; omega) (by rw [List.length_replicate]; omega)
        (by rw [List.length_replicate]; omega)
      rw [hkept, List.length_append, List.length_replicate] at hle
      omega
    · intro h mem es s hs hc bytes hb
      obtain ⟨hl, hsize⟩ := lawful_of_run hs
      have h257 := free_of_caughtUp hl hsize hc
      obtain ⟨rc, ht⟩ := hl
      exact (appends_of_lt_free ht.wf (by omega)).2

/-- `GATT_CHAR1_VALUE_LEN`, which the attribute table declares for the characteristic that commands are written to. -/
def gattChar1ValueLen : ℕ := 300

/-- A write of the size declared is dropped as a whole. -/
theorem declared_write_dropped : ∃ s, run bleStep (bleProtocolInit (Vector.replicate 512 0)) heldRun = some s ∧
    CaughtUp s ∧ ringBufferFreeSize s.ring < UInt32.ofNat gattChar1ValueLen ∧
    ringWrite s.ring (List.replicate gattChar1ValueLen 0) = s.ring := by
  obtain ⟨s, hs, hc, hfree, -⟩ := heldRun_state
  have hlt : s.ring.free < (UInt32.ofNat gattChar1ValueLen).toNat := by
    rw [hfree]
    decide
  refine ⟨s, hs, hc, UInt32.lt_iff_toNat_lt.mpr hlt, ringWrite_of_free_lt ?_⟩
  rwa [List.length_replicate]

end Fr8012haLock.Ble
