import Fr8012haLock.Lib.Loops
import Fr8012haLock.Receive.Spec

/-!
# The search for a head, round by round

The `while` loop has no counter of its own.  On a ring of at most `2 ^ 31` bytes each round skips exactly one unread
byte, so the unread bytes run out: the loop stops at the first head, or with one byte less than a head left
(`search_exact`).
-/

namespace Fr8012haLock.Receive

open Cyclic Buffer Loops

/-- One round of the loop: the test, and if it fails the skip of a byte, the check whether enough are left, and the
read. -/
def searchRound {Head R : Type} [ByteRing R] (P : Protocol Head) (st : R × List UInt8) :
    (R × List UInt8) ⊕ (R × Option (List UInt8)) :=
  if P.checkHead (P.ofBytes st.2) then .inr (st.1, some st.2)
  else
    let rb := ByteRing.updateReadIdx st.1 1
    if ByteRing.validSize rb < P.headSize then .inr (rb, none) else .inl (ByteRing.read rb st.2 0 P.headSize 0)

theorem findHead_eq_run {Head R : Type} [ByteRing R] (P : Protocol Head) (fuel : ℕ) (rb : R) (recvData : List UInt8) :
    findHead P fuel rb recvData = run (searchRound P) fuel (rb, recvData) := by
  induction fuel generalizing rb recvData with
  | zero => rfl
  | succ fuel ih =>
    rw [findHead, run, searchRound]
    split
    · rfl
    · dsimp only
      split
      · rfl
      · exact ih ..

variable {Head : Type} (P : Protocol Head)

/-- A head that passes the test is at the front of a list of bytes. -/
def ValidHeadAt (s : List UInt8) : Prop :=
  P.headSize.toNat ≤ s.length ∧ P.checkHead (P.ofBytes (s.take P.headSize.toNat)) = true

/-- The ring and `recv_data` in front of the rounds of the loop, in a call that comes to it. -/
def searchRounds (rb : RingBuffer) : List (RingBuffer × List UInt8) :=
  rounds (searchRound P) rb.valid (ringBufferRead rb P.recvData 0 P.headSize 0)

/-- The ring behind a round. -/
def ringBehind (st : RingBuffer × List UInt8) : RingBuffer := (searchRound P st).elim Prod.fst Prod.fst

/-- **The search makes exact progress.**  The read in front of a round is not refused; a round whose test fails lowers
`ring_buffer_valid_size` by one; and the call returns, with `n` bytes skipped, at none of which a valid head began:
because a valid head begins there, or because one byte less than a head is left. -/
structure SearchesExactly (rb : RingBuffer) (s : Statics Head) : Prop where
  reads : ∀ st ∈ searchRounds P rb, ¬ ringBufferValidSize st.1 < P.headSize
  skips : ∀ st ∈ searchRounds P rb, ¬ P.checkHead (P.ofBytes st.2) = true →
    (ringBehind P st).valid + 1 = st.1.valid
  stops : ∃ n r, r.unread = rb.unread.drop n ∧ (∀ j < n, ¬ ValidHeadAt P (rb.unread.drop j)) ∧
    (ValidHeadAt P r.unread ∧ protocolProcess P rb s = some (ringBufferUpdateReadIdx r P.headSize.toUInt8,
        ⟨1, P.ofBytes (r.unread.take P.headSize.toNat)⟩, none) ∨
      r.valid + 1 = P.headSize.toNat ∧ protocolProcess P rb s = some (r, s, none))

/-- What holds in front of the round `k` of the loop, in a call that finds the bytes `unread`. -/
structure AtRound (unread : List UInt8) (k : ℕ) (st : RingBuffer × List UInt8) : Prop where
  wf : st.1.Wf
  small : st.1.size.toNat ≤ 2 ^ 31
  enough : P.headSize.toNat ≤ st.1.valid
  recv_length : st.2.length = P.headSize.toNat + maxPayloadSize + 1
  recv : st.2.take P.headSize.toNat = st.1.unread.take P.headSize.toNat
  skipped : st.1.unread = unread.drop k
  none_before : ∀ j < k, ¬ ValidHeadAt P (unread.drop j)

/-- What holds when the loop is left. -/
def AtEndOfSearch (unread : List UInt8) (out : RingBuffer × Option (List UInt8)) : Prop :=
  ∃ n, out.1.unread = unread.drop n ∧ (∀ j < n, ¬ ValidHeadAt P (unread.drop j)) ∧
    ((∃ d, out.2 = some d ∧ ValidHeadAt P out.1.unread ∧
        P.ofBytes d = P.ofBytes (out.1.unread.take P.headSize.toNat)) ∨
      out.2 = none ∧ out.1.valid + 1 = P.headSize.toNat)

section

variable {P} {F : Framing UInt8 Call} {unread : List UInt8} {k : ℕ} {st : RingBuffer × List UInt8}

theorem AtRound.ofBytes (hI : Implements P F) (h : AtRound P unread k st) :
    P.ofBytes st.2 = P.ofBytes (st.1.unread.take P.headSize.toNat) := by
  have hlen := h.recv_length
  rw [← h.recv, hI.headSize]
  apply hI.ofBytes_take
  rw [hlen, hI.headSize]
  omega

theorem AtRound.checkHead_iff (hI : Implements P F) (h : AtRound P unread k st) :
    P.checkHead (P.ofBytes st.2) = true ↔ ValidHeadAt P st.1.unread := by
  rw [ValidHeadAt, h.ofBytes hI, h.wf.length_unread]
  exact (and_iff_right h.enough).symm

theorem AtRound.skip (hI : Implements P F) (h : AtRound P unread k st) :
    (ringBufferUpdateReadIdx st.1 1).Wf ∧ (ringBufferUpdateReadIdx st.1 1).valid + 1 = st.1.valid ∧
      (ringBufferUpdateReadIdx st.1 1).unread = unread.drop (k + 1) := by
  have hge := hI.headSize_ge
  have hsz := hI.headSize
  have henough := h.enough
  have hk : (1 : UInt8).toNat = 1 := rfl
  have hover : st.1.readIdx.toNat + (1 : UInt8).toNat < 2 ^ 32 := by
    have := h.wf.read_le
    have := h.small
    omega
  -- at least two bytes are unread, so it does not matter where the write index rests
  obtain ⟨hw, hval, hun⟩ := h.wf.skip (k := 1) (by omega) hover fun _ => by omega
  refine ⟨hw, by omega, ?_⟩
  rw [hun, h.skipped, hk, List.drop_drop]

theorem AtRound.none_before_succ (hI : Implements P F) (h : AtRound P unread k st)
    (hc : ¬ P.checkHead (P.ofBytes st.2) = true) : ∀ j < k + 1, ¬ ValidHeadAt P (unread.drop j) := by
  intro j hj hat
  rcases Nat.lt_succ_iff_lt_or_eq.mp hj with hj | rfl
  · exact h.none_before j hj hat
  · rw [← h.skipped] at hat
    exact hc ((h.checkHead_iff hI).mpr hat)

/-- What a round does whose test fails; its read, if it makes one, is not refused. -/
theorem AtRound.searchRound_eq (hI : Implements P F) (h : AtRound P unread k st)
    (hc : ¬ P.checkHead (P.ofBytes st.2) = true) :
    let rb := ringBufferUpdateReadIdx st.1 1
    searchRound P st = if rb.valid < P.headSize.toNat then .inr (rb, none)
      else .inl (rb, memcpy st.2 0 (rb.unread.take P.headSize.toNat)) := by
  intro rb
  have hlen := h.recv_length
  obtain ⟨hw, -, -⟩ := h.skip hI
  rw [searchRound, if_neg hc]
  show (if ringBufferValidSize rb < P.headSize then _ else Sum.inl (ringBufferRead rb st.2 0 P.headSize 0)) = _
  by_cases hshort : rb.valid < P.headSize.toNat
  · rw [if_pos hshort, if_pos (ringBufferValidSize_lt.mpr hshort)]
    rfl
  · rw [if_neg hshort, if_neg (mt ringBufferValidSize_lt.mp hshort), hw.peek (Nat.not_lt.mp hshort) (by omega)]

theorem AtRound.ringBehind_eq (hI : Implements P F) (h : AtRound P unread k st)
    (hc : ¬ P.checkHead (P.ofBytes st.2) = true) : ringBehind P st = ringBufferUpdateReadIdx st.1 1 := by
  rw [ringBehind, h.searchRound_eq hI hc]
  split <;> rfl

/-- **A round that goes on** has read the next head. -/
theorem AtRound.next (hI : Implements P F) (h : AtRound P unread k st) {st' : RingBuffer × List UInt8}
    (hb : searchRound P st = .inl st') : AtRound P unread (k + 1) st' := by
  have hsz := hI.headSize
  have hlen := h.recv_length
  obtain ⟨hw, -, hun⟩ := h.skip hI
  by_cases hc : P.checkHead (P.ofBytes st.2) = true
  · rw [searchRound, if_pos hc] at hb
    cases hb
  · rw [h.searchRound_eq hI hc] at hb
    split at hb
    · cases hb
    · rename_i hshort
      have henough := Nat.not_lt.mp hshort
      have hq := hw.length_unread
      rw [hsz] at hlen
      obtain ⟨hlen', hrecv'⟩ := peeked (F := F) (q := (ringBufferUpdateReadIdx st.1 1).unread) hlen (by omega)
      rw [← hsz] at hlen' hrecv'
      cases hb
      exact ⟨hw, h.small, henough, hlen', hrecv', hun, h.none_before_succ hI hc⟩

/-- **A round that leaves the loop** has found a head, or has skipped the last byte but a head. -/
theorem AtRound.stop (hI : Implements P F) (h : AtRound P unread k st) {out : RingBuffer × Option (List UInt8)}
    (hb : searchRound P st = .inr out) : AtEndOfSearch P unread out := by
  obtain ⟨hw, hval, hun⟩ := h.skip hI
  by_cases hc : P.checkHead (P.ofBytes st.2) = true
  · rw [searchRound, if_pos hc] at hb
    cases hb
    exact ⟨k, h.skipped, h.none_before, Or.inl ⟨st.2, rfl, (h.checkHead_iff hI).mp hc, h.ofBytes hI⟩⟩
  · rw [h.searchRound_eq hI hc] at hb
    split at hb
    · rename_i hshort
      have henough := h.enough
      have hlast : (ringBufferUpdateReadIdx st.1 1).valid + 1 = P.headSize.toNat := by omega
      cases hb
      exact ⟨k + 1, hun, h.none_before_succ hI hc, Or.inr ⟨rfl, hlast⟩⟩
    · cases hb

/-- The loop does not go round as often as there are bytes. -/
theorem not_atRound_length (hI : Implements P F) (st : RingBuffer × List UInt8) :
    ¬ AtRound P unread (0 + unread.length) st := by
  intro h
  have hq := h.wf.length_unread
  have henough := h.enough
  have hge := hI.headSize_ge
  have hsz := hI.headSize
  rw [h.skipped, List.length_drop] at hq
  omega

theorem atRound_start (hI : Implements P F) {rb : RingBuffer} (hw : rb.Wf) (hN : rb.size.toNat ≤ 2 ^ 31)
    (hv : P.headSize.toNat ≤ rb.valid) :
    AtRound P rb.unread 0 (ringBufferRead rb P.recvData 0 P.headSize 0) := by
  have hsz := hI.headSize
  have hrd := hI.length_recvData
  have hq := hw.length_unread
  obtain ⟨hlen', hrecv'⟩ := peeked (F := F) (q := rb.unread) hrd (by omega)
  rw [← hsz] at hlen' hrecv'
  rw [hw.peek hv (by omega)]
  exact ⟨hw, hN, hv, hlen', hrecv', rfl, fun j hj => absurd hj (Nat.not_lt_zero j)⟩

theorem process_of_run (hI : Implements P F) {rb r : RingBuffer} (hw : rb.Wf) {s : Statics Head} (hs : s.readStep = 0)
    (hv : P.headSize.toNat ≤ rb.valid) {out : Option (List UInt8)}
    (hrun : run (searchRound P) rb.valid (ringBufferRead rb P.recvData 0 P.headSize 0) = some (r, out)) :
    protocolProcess P rb s = some (out.elim (r, s, none) fun d =>
      (ringBufferUpdateReadIdx r P.headSize.toUInt8, ⟨1, P.ofBytes d⟩, none)) := by
  have hsz := hI.headSize
  have hrd := hI.length_recvData
  have hvalid : ¬ ByteRing.validSize rb < P.headSize := mt ringBufferValidSize_lt.mp (Nat.not_lt.mpr hv)
  have hpeek : ByteRing.read rb P.recvData 0 P.headSize 0 = (rb, memcpy P.recvData 0 (rb.unread.take P.headSize.toNat)) :=
    hw.peek hv (by omega)
  have hfind : findHead P (ByteRing.validSize rb).toNat rb (memcpy P.recvData 0 (rb.unread.take P.headSize.toNat)) =
      some (r, out) := by
    rw [findHead_eq_run, ← hpeek]
    exact hrun
  rw [protocolProcess, if_pos hs, if_neg hvalid, hpeek]
  dsimp only
  rw [hfind]
  cases out with
  | none => rfl
  | some d =>
    rw [hs]
    rfl

/-- **The search for a head makes exact progress**, on any well-formed ring of at most `2 ^ 31` bytes. -/
theorem search_exact (hI : Implements P F) {rb : RingBuffer} (hw : rb.Wf) (hN : rb.size.toNat ≤ 2 ^ 31)
    {s : Statics Head} (hs : s.readStep = 0) (hv : P.headSize.toNat ≤ rb.valid) : SearchesExactly P rb s := by
  have hstart := atRound_start hI hw hN hv
  have hnext : ∀ k st st', AtRound P rb.unread k st → searchRound P st = .inl st' → AtRound P rb.unread (k + 1) st' :=
    fun k st st' h => h.next hI
  refine ⟨?_, ?_, ?_⟩
  · intro st hst
    obtain ⟨k, h⟩ := inv_of_mem_rounds hnext hstart hst
    rw [ringBufferValidSize_lt]
    exact Nat.not_lt.mpr h.enough
  · intro st hst hc
    obtain ⟨k, h⟩ := inv_of_mem_rounds hnext hstart hst
    rw [h.ringBehind_eq hI hc]
    exact (h.skip hI).2.1
  · have hfuel : ∀ st, ¬ AtRound P rb.unread (0 + rb.unread.length) st := not_atRound_length hI
    rw [hw.length_unread] at hfuel
    obtain ⟨⟨r, out⟩, hrun, n, hun, hno, hout⟩ :=
      run_of_inv hnext (fun k st out h => h.stop hI) hfuel hstart
    have hp := process_of_run hI hw hs hv hrun
    refine ⟨n, r, hun, hno, ?_⟩
    rcases hout with ⟨d, rfl, hat, hd⟩ | ⟨rfl, hlast⟩
    · left
      refine ⟨hat, ?_⟩
      rw [← hd]
      exact hp
    · right
      exact ⟨hlast, hp⟩

end

end Fr8012haLock.Receive
