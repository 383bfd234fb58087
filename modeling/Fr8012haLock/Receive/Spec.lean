import Fr8012haLock.Receive.Defs
import Mathlib.Data.List.GetD

/-!
# The receive loop polls a receiver

`Implements P F` connects what the code knows about a protocol with a framing of byte streams.  On a lawful ring a
call of `protocolProcess` then is a call of the receiver of the framing (`Tracks.process`): the unread bytes are its
queue, the static variables its head.  The one proviso is that the call does not skip a head that is all that is
unread while the ring is `AtEnd`.
-/

namespace Fr8012haLock.Receive

open Cyclic Buffer

variable {Head R : Type} [LawfulRing R] {P : Protocol Head} {F : Framing UInt8 Call}

/-- The protocol, as the code has it, cuts a stream of bytes the way the framing does. -/
structure Implements (P : Protocol Head) (F : Framing UInt8 Call) : Prop where
  headSize : P.headSize.toNat = F.headSize
  headSize_ge : 2 ≤ F.headSize
  headSize_lt : F.headSize < 256
  toBytes_ofBytes : ∀ h, h.length = F.headSize → P.toBytes (P.ofBytes h) = h
  ofBytes_append : ∀ h t, h.length = F.headSize → P.ofBytes (h ++ t) = P.ofBytes h
  checkHead : ∀ h, h.length = F.headSize → P.checkHead (P.ofBytes h) = F.isHead h
  bodySize : ∀ h, h.length = F.headSize → F.isHead h = true →
    (P.payloadSize (P.ofBytes h)).toNat + 1 = F.bodySize h
  payload_le : ∀ h, h.length = F.headSize → F.isHead h = true →
    (P.payloadSize (P.ofBytes h)).toNat ≤ maxPayloadSize
  checksum_append : ∀ d t n, n ≤ d.length → P.checksum (d ++ t) n = P.checksum d n
  emit : ∀ h b, h.length = F.headSize → F.isHead h = true → b.length = F.bodySize h →
    F.emit h b = if P.checksum (h ++ b) (F.headSize + (P.payloadSize (P.ofBytes h)).toNat) =
      b.getD (P.payloadSize (P.ofBytes h)).toNat 0
    then some (P.cmd (P.ofBytes h), b.take (P.payloadSize (P.ofBytes h)).toNat) else none

theorem Implements.length_recvData (hI : Implements P F) :
    P.recvData.length = F.headSize + maxPayloadSize + 1 := by
  simp [Protocol.recvData, hI.headSize]

theorem Implements.ofBytes_take (hI : Implements P F) {d : List UInt8} (hd : F.headSize ≤ d.length) :
    P.ofBytes d = P.ofBytes (d.take F.headSize) := by
  conv_lhs => rw [← List.take_append_drop F.headSize d]
  exact hI.ofBytes_append _ _ (by simp [hd])

theorem validSize_lt {r : R} (hw : LawfulRing.Wf r) {n : UInt32} :
    ByteRing.validSize r < n ↔ (LawfulRing.unread r).length < n.toNat := by
  rw [UInt32.lt_iff_toNat_lt, LawfulRing.validSize_toNat hw]

theorem peeked {d q : List UInt8} (hd : d.length = F.headSize + maxPayloadSize + 1) (hq : F.headSize ≤ q.length) :
    (memcpy d 0 (q.take F.headSize)).length = F.headSize + maxPayloadSize + 1 ∧
      (memcpy d 0 (q.take F.headSize)).take F.headSize = q.take F.headSize := by
  have hn : (q.take F.headSize).length = F.headSize := by simp [hq]
  refine ⟨by rw [length_memcpy (by omega), hd], ?_⟩
  rw [memcpy_zero, List.take_append_of_le_length hn.ge, List.take_of_length_le hn.le]

/-- **The search loop is the search of the receiver**: it ends, and stops at the first head or when too few bytes
are left for one. -/
theorem findHead_spec (hI : Implements P F) (fuel : ℕ) {r : R} (hw : LawfulRing.Wf r) {recvData : List UInt8}
    (hlen : recvData.length = F.headSize + maxPayloadSize + 1)
    (hrecv : recvData.take F.headSize = (LawfulRing.unread r).take F.headSize)
    (henough : F.headSize ≤ (LawfulRing.unread r).length) (hfuel : (LawfulRing.unread r).length ≤ fuel) :
    ∃ r' out, findHead P fuel r recvData = some (r', out) ∧ LawfulRing.Wf r' ∧
      LawfulRing.unread r' = F.scan (LawfulRing.unread r) ∧ (LawfulRing.AtEnd r' ↔ LawfulRing.AtEnd r) ∧
      ((out = none ∧ (LawfulRing.unread r').length < F.headSize) ∨
        ∃ d, out = some d ∧ F.HeadAt (LawfulRing.unread r') ∧
          P.ofBytes d = P.ofBytes ((LawfulRing.unread r').take F.headSize)) := by
  have hge := hI.headSize_ge
  induction fuel generalizing r recvData with
  | zero => omega
  | succ fuel ih =>
    have hof : P.ofBytes recvData = P.ofBytes ((LawfulRing.unread r).take F.headSize) := by
      rw [hI.ofBytes_take (by omega), hrecv]
    have hcheck : P.checkHead (P.ofBytes recvData) = F.isHead ((LawfulRing.unread r).take F.headSize) := by
      rw [hof]
      exact hI.checkHead _ (by simp [henough])
    rw [findHead, hcheck]
    by_cases hh : F.isHead ((LawfulRing.unread r).take F.headSize) = true
    · have hat : F.HeadAt (LawfulRing.unread r) := ⟨henough, hh⟩
      rw [if_pos hh]
      exact ⟨r, some recvData, rfl, hw, (F.scan_of_headAt hat).symm, Iff.rfl, Or.inr ⟨recvData, rfl, hat, hof⟩⟩
    · rw [if_neg hh]
      have hk : (1 : UInt8).toNat = 1 := rfl
      obtain ⟨hw', hun, hend⟩ := LawfulRing.skip (k := 1) hw (by omega) fun _ => by omega
      rw [hk] at hun
      -- the skipped byte is no head, so the search of the receiver skips it as well
      have hscan : F.scan (LawfulRing.unread (ByteRing.updateReadIdx r 1)) = F.scan (LawfulRing.unread r) := by
        rw [hun]
        cases hq : LawfulRing.unread r with
        | nil => rw [hq] at henough; simp at henough; omega
        | cons a s =>
          rw [hq] at henough hh
          exact (F.scan_skip henough fun hat => hh hat.2).symm
      simp only [validSize_lt hw', hI.headSize]
      by_cases hshort : (LawfulRing.unread (ByteRing.updateReadIdx r 1)).length < F.headSize
      · rw [if_pos hshort]
        refine ⟨_, none, rfl, hw', ?_, hend, Or.inl ⟨rfl, hshort⟩⟩
        rw [← hscan, F.scan_short hshort]
      · rw [if_neg hshort]
        have hsz := hI.headSize
        rw [LawfulRing.peek hw' (by omega) (by omega)]
        obtain ⟨hlen', hrecv'⟩ := peeked (q := LawfulRing.unread (ByteRing.updateReadIdx r 1)) hlen (by omega)
        rw [hsz]
        obtain ⟨r', out, hf, h⟩ := ih hw' hlen' hrecv' (by omega) (by rw [hun]; simp; omega)
        rw [hscan, hend] at h
        exact ⟨r', out, hf, h⟩

/-- The ring and the static variables hold what the receiver does. -/
structure Tracks (P : Protocol Head) (F : Framing UInt8 Call) (r : R) (s : Statics Head)
    (rc : Framing.Receiver UInt8) : Prop where
  wf : LawfulRing.Wf r
  queue : LawfulRing.unread r = rc.queue
  step : (s.readStep = 0 ∧ rc.head = none) ∨ ∃ h, s.readStep = 1 ∧ rc.head = some h ∧ h.length = F.headSize ∧
    F.isHead h = true ∧ s.head = P.ofBytes h

theorem Tracks.receiver_wf {r : R} {s : Statics Head} {rc : Framing.Receiver UInt8} (h : Tracks P F r s rc) :
    rc.Wf F := by
  intro hd hh
  rcases h.step with ⟨-, hn⟩ | ⟨hd', -, hs, hl, hi, -⟩
  · rw [hn] at hh
    cases hh
  · rw [hs] at hh
    cases hh
    exact ⟨hl, hi⟩

theorem Tracks.readStep_iff {r : R} {s : Statics Head} {rc : Framing.Receiver UInt8} (h : Tracks P F r s rc) :
    s.readStep = 0 ↔ rc.head = none := by
  rcases h.step with ⟨hs, hn⟩ | ⟨hd, hs, hh, -⟩
  · exact iff_of_true hs hn
  · apply iff_of_false
    · intro h0
      rw [h0] at hs
      exact absurd hs (by decide)
    · simp [hh]

/-- Before a call that searches for a head: if the ring is `AtEnd`, its first head is not all that is unread. -/
def HeadNotLast (F : Framing UInt8 Call) (r : R) (s : Statics Head) : Prop :=
  s.readStep = 0 → LawfulRing.AtEnd r → ¬ F.HeadIsLast (LawfulRing.unread r)

theorem Tracks.headNotLast_of_body {r : R} {s : Statics Head} {hd q : List UInt8} (h : Tracks P F r s ⟨some hd, q⟩) :
    HeadNotLast F r s := fun hs => absurd (h.readStep_iff.mp hs) (by simp)

/-- A call that searches for a head.  It does what the receiver does, unless it skips a head that is all that is
unread while the ring is `AtEnd`; then the head is taken all the same, but the ring is what that skip makes of it. -/
theorem process_head (hI : Implements P F) {r : R} {s : Statics Head} (hw : LawfulRing.Wf r) (hs0 : s.readStep = 0) :
    ∃ r' s', protocolProcess P r s = some (r', s', (F.poll ⟨none, LawfulRing.unread r⟩).2) ∧
      (¬ (LawfulRing.AtEnd r ∧ F.HeadIsLast (LawfulRing.unread r)) →
        Tracks P F r' s' (F.poll ⟨none, LawfulRing.unread r⟩).1) ∧
      (LawfulRing.AtEnd r ∧ F.HeadIsLast (LawfulRing.unread r) →
        ∃ hd r₀, Tracks P F r' s' ⟨some hd, LawfulRing.unread r'⟩ ∧ LawfulRing.Wf r₀ ∧ LawfulRing.AtEnd r₀ ∧
          (LawfulRing.unread r₀).length = F.headSize ∧ r' = ByteRing.updateReadIdx r₀ P.headSize.toUInt8) := by
  have hsz := hI.headSize
  have hlt := hI.headSize_lt
  have hge := hI.headSize_ge
  simp only [protocolProcess, hs0, if_true, validSize_lt hw, hsz, Framing.poll]
  by_cases hshort : (LawfulRing.unread r).length < F.headSize
  · rw [if_pos hshort, F.scan_short hshort, if_pos hshort]
    refine ⟨r, s, rfl, fun _ => ⟨hw, rfl, Or.inl ⟨hs0, rfl⟩⟩, ?_⟩
    rintro ⟨-, hlast⟩
    rw [F.headIsLast_iff, F.scan_short hshort] at hlast
    omega
  · rw [if_neg hshort]
    have hrd := hI.length_recvData
    obtain ⟨hlen', hrecv'⟩ := peeked (q := LawfulRing.unread r) hrd (by omega)
    rw [LawfulRing.peek hw (by omega) (by omega), hsz]
    obtain ⟨r', out, hf, hw', hun, hend, hout⟩ := findHead_spec hI (ByteRing.validSize r).toNat hw hlen' hrecv'
      (by omega) (by rw [LawfulRing.validSize_toNat hw])
    simp only [hf]
    rw [hun] at hout
    rcases hout with ⟨rfl, hs⟩ | ⟨d, rfl, hat, hd⟩
    · rw [if_pos hs]
      refine ⟨r', s, rfl, fun _ => ⟨hw', hun, Or.inl ⟨hs0, rfl⟩⟩, ?_⟩
      rintro ⟨-, hlast⟩
      rw [F.headIsLast_iff] at hlast
      omega
    · have hle := hat.1
      have hk : P.headSize.toUInt8.toNat = F.headSize := by simp [hsz]; omega
      rw [if_neg (by omega)]
      have htaken : ∀ r'' : R, LawfulRing.Wf r'' → Tracks P F r'' ⟨0 + 1, P.ofBytes d⟩
          ⟨some ((F.scan (LawfulRing.unread r)).take F.headSize), LawfulRing.unread r''⟩ := fun r'' hw'' =>
        ⟨hw'', rfl, Or.inr ⟨_, rfl, rfl, by simp [hle], hat.2, hd⟩⟩
      refine ⟨_, _, rfl, ?_, ?_⟩
      · intro hlast
        have hskip : LawfulRing.AtEnd r' → P.headSize.toUInt8.toNat ≠ (LawfulRing.unread r').length := by
          intro hae h
          rw [hk, hun] at h
          exact hlast ⟨hend.mp hae, (F.headIsLast_iff _).mpr h.symm⟩
        obtain ⟨hw'', hun', -⟩ := LawfulRing.skip (k := P.headSize.toUInt8) hw' (by rw [hk, hun]; exact hle) hskip
        have ht := htaken _ hw''
        rwa [hun', hk, hun] at ht
      · rintro ⟨hae, hlast⟩
        rw [F.headIsLast_iff] at hlast
        exact ⟨_, r', htaken _ (LawfulRing.skip_wf _ hw'), hw', hend.mpr hae, by rw [hun, hlast], rfl⟩

theorem toNat_size_add_one {size : UInt32} (h : size.toNat ≤ maxPayloadSize) : (size + 1).toNat = size.toNat + 1 := by
  have hmax : maxPayloadSize = 256 := rfl
  rw [UInt32.toNat_add, UInt32.toNat_one]
  omega

theorem Implements.toNat_bodySize (hI : Implements P F) {hd : List UInt8} (hl : hd.length = F.headSize)
    (hh : F.isHead hd = true) : (P.payloadSize (P.ofBytes hd) + 1).toNat = F.bodySize hd := by
  rw [← hI.bodySize hd hl hh]
  exact toNat_size_add_one (hI.payload_le hd hl hh)

theorem takeBody_spec (hI : Implements P F) {r : R} {s : Statics Head} (hw : LawfulRing.Wf r) {hd : List UInt8}
    (hl : hd.length = F.headSize) (hh : F.isHead hd = true) (hsh : s.head = P.ofBytes hd)
    (henough : F.bodySize hd ≤ (LawfulRing.unread r).length) :
    ∃ r', takeBody P r s = (r', { s with readStep := 0 }, F.emit hd ((LawfulRing.unread r).take (F.bodySize hd))) ∧
      LawfulRing.Wf r' ∧ LawfulRing.unread r' = (LawfulRing.unread r).drop (F.bodySize hd) := by
  have hsz := hI.headSize
  have hbody := hI.bodySize hd hl hh
  have hpay := hI.payload_le hd hl hh
  have hsucc := hI.toNat_bodySize hl hh
  have hrd := hI.length_recvData
  have hoff : P.headSize.toNat + (P.payloadSize (P.ofBytes hd) + 1).toNat ≤ (memcpy P.recvData 0 hd).length := by
    rw [length_memcpy (by omega)]
    omega
  obtain ⟨r', hr, hw', hun⟩ := LawfulRing.consume hw (show (1 : UInt8) ≠ 0 by decide) (by omega) hoff
  rw [hsucc] at hr hun
  have hblen : ((LawfulRing.unread r).take (F.bodySize hd)).length = F.bodySize hd := by simp [henough]
  rw [hI.emit hd _ hl hh hblen]
  generalize (LawfulRing.unread r).take (F.bodySize hd) = body at hr hblen ⊢
  rw [hsz, ← hl, memcpy_front (by omega), hl] at hr
  simp only [takeBody, hsh, hI.toBytes_ofBytes hd hl, hsz, hr]
  have hget : (hd ++ body ++ P.recvData.drop (F.headSize + body.length)).getD
      (F.headSize + (P.payloadSize (P.ofBytes hd)).toNat) 0 = body.getD (P.payloadSize (P.ofBytes hd)).toNat 0 := by
    rw [List.getD_append _ _ _ _ (by simp; omega), ← hl, List.getD_append_right _ _ _ _ (by omega),
      Nat.add_sub_cancel_left]
  have htake : ((hd ++ body ++ P.recvData.drop (F.headSize + body.length)).drop F.headSize).take
      (P.payloadSize (P.ofBytes hd)).toNat = body.take (P.payloadSize (P.ofBytes hd)).toNat := by
    rw [List.append_assoc, ← hl, List.drop_left, List.take_append_of_le_length (by omega)]
  rw [hI.checksum_append _ _ _ (by simp; omega), hget, htake]
  exact ⟨r', rfl, hw', hun⟩

theorem process_body (hI : Implements P F) {r : R} {s : Statics Head} (hw : LawfulRing.Wf r) {hd : List UInt8}
    (hs1 : s.readStep = 1) (hl : hd.length = F.headSize) (hh : F.isHead hd = true) (hsh : s.head = P.ofBytes hd) :
    ∃ r' s', protocolProcess P r s = some (r', s', (F.poll ⟨some hd, LawfulRing.unread r⟩).2) ∧
      Tracks P F r' s' (F.poll ⟨some hd, LawfulRing.unread r⟩).1 := by
  have hs0 : s.readStep ≠ 0 := by rw [hs1]; decide
  unfold protocolProcess
  simp only [if_neg hs0, if_pos hs1, validSize_lt hw, hsh, hI.toNat_bodySize hl hh, Framing.poll]
  by_cases hshort : (LawfulRing.unread r).length < F.bodySize hd
  · rw [if_pos hshort, if_pos hshort]
    exact ⟨r, s, rfl, hw, rfl, Or.inr ⟨hd, hs1, rfl, hl, hh, hsh⟩⟩
  · rw [if_neg hshort, if_neg hshort]
    obtain ⟨r', hr, hw', hun⟩ := takeBody_spec hI hw hl hh hsh (Nat.not_lt.mp hshort)
    exact ⟨r', _, by rw [hr], hw', hun, Or.inl ⟨rfl, rfl⟩⟩

/-- **A call polls the receiver**, unless it skips a head that is all that is unread while the ring is `AtEnd`. -/
theorem Tracks.process (hI : Implements P F) {r : R} {s : Statics Head} {rc : Framing.Receiver UInt8}
    (h : Tracks P F r s rc) (hlast : HeadNotLast F r s) :
    ∃ r' s', protocolProcess P r s = some (r', s', (F.poll rc).2) ∧ Tracks P F r' s' (F.poll rc).1 := by
  obtain ⟨hw, hq, hstep⟩ := h
  obtain ⟨head, queue⟩ := rc
  simp only at hq hstep
  subst hq
  rcases hstep with ⟨hs0, rfl⟩ | ⟨hd, hs1, rfl, hl, hh, hsh⟩
  · obtain ⟨r', s', hp, ht, -⟩ := process_head hI hw hs0
    exact ⟨r', s', hp, ht fun ⟨hend, hhead⟩ => hlast hs0 hend hhead⟩
  · exact process_body hI hw hs1 hl hh hsh

/-- Whatever a call does, it returns, and the parser is where some receiver is. -/
theorem Tracks.process_any (hI : Implements P F) {r : R} {s : Statics Head} {rc : Framing.Receiver UInt8}
    (h : Tracks P F r s rc) :
    ∃ r' s' rc', protocolProcess P r s = some (r', s', (F.poll rc).2) ∧ Tracks P F r' s' rc' := by
  obtain ⟨hw, hq, hstep⟩ := h
  obtain ⟨head, queue⟩ := rc
  simp only at hq hstep
  subst hq
  rcases hstep with ⟨hs0, rfl⟩ | ⟨hd, hs1, rfl, hl, hh, hsh⟩
  · obtain ⟨r', s', hp, ht, ht'⟩ := process_head hI hw hs0
    by_cases hlast : LawfulRing.AtEnd r ∧ F.HeadIsLast (LawfulRing.unread r)
    · obtain ⟨hd, -, ht, -⟩ := ht' hlast
      exact ⟨r', s', _, hp, ht⟩
    · exact ⟨r', s', _, hp, ht hlast⟩
  · obtain ⟨r', s', hp, ht⟩ := process_body hI hw hs1 hl hh hsh
    exact ⟨r', s', _, hp, ht⟩

end Fr8012haLock.Receive
