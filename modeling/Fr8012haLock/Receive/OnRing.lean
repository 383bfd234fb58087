import Fr8012haLock.Receive.Interrupt

/-!
# The interrupted parser on the ring

What the machine of `Interrupt` does on the queue of bytes is known, since no skip goes wrong there.  On the ring buffer
it stands at the same place, with the same static variables, the same unread bytes and the same commands handed on
(`Mirrors`), as long as

* a byte arrives only while two bytes of the ring are free, so that none fills it;
* the machine does not skip a head that is all that is unread while the write index rests at `size` (`DropsAtEnd`).

So the commands handed on are a prefix of the reference decoding on the ring as well (`Mirrors.calls_prefix`).
-/

namespace Fr8012haLock.Receive

open Cyclic Buffer Runs

variable {Head : Type} {cap : UInt32} {P : Protocol Head} {F : Framing UInt8 Call}

/-- The machine on the ring is where the one on the queue is. -/
structure Mirrors (m : Micro RingBuffer Head) (n : Micro (ByteQueue cap) Head) : Prop where
  ring : Represents m.state.ring n.state.ring
  statics : m.state.statics = n.state.statics
  calls : m.state.calls = n.state.calls
  place : m.place = n.place

/-- The machine is in front of the skip of a head that is all that is unread, and the write index rests at `size`. -/
def DropsAtEnd (P : Protocol Head) (m : Micro RingBuffer Head) : Prop :=
  match m.place with
  | .skipHead _ => m.state.ring.writeIdx = m.state.ring.size ∧ m.state.ring.valid = P.headSize.toNat
  | _ => False

instance (P : Protocol Head) (m : Micro RingBuffer Head) : Decidable (DropsAtEnd P m) := by
  unfold DropsAtEnd
  split <;> infer_instance

/-- The events under which the ring serves the machine as the queue does. -/
def RingUse (P : Protocol Head) (m : Micro RingBuffer Head) : Interleaving → Prop
  | .receive _ => 2 ≤ m.state.ring.free
  | .advance => ¬ DropsAtEnd P m

instance : ∀ (P : Protocol Head) (m : Micro RingBuffer Head) (e : Interleaving), Decidable (RingUse P m e)
  | _, m, .receive _ => inferInstanceAs (Decidable (2 ≤ m.state.ring.free))
  | P, m, .advance => inferInstanceAs (Decidable (¬ DropsAtEnd P m))

/-! ### One event -/

theorem takeBody_mirrors (hI : Implements P F) {rb : RingBuffer} {q : ByteQueue cap} (h : Represents rb q)
    {s : Statics Head} {hd : List UInt8} (hl : hd.length = F.headSize) (hh : F.isHead hd = true)
    (hsh : s.head = P.ofBytes hd) :
    Represents (takeBody P rb s).1 (takeBody P q s).1 ∧ (takeBody P rb s).2 = (takeBody P q s).2 := by
  have hrd := hI.length_recvData
  have hpay := hI.payload_le hd hl hh
  have hsucc := hI.toNat_bodySize hl hh
  have hbody := hI.bodySize hd hl hh
  have hsz := hI.headSize
  have hoff : P.headSize.toNat + (P.payloadSize s.head + 1).toNat ≤
      (memcpy P.recvData 0 (P.toBytes s.head)).length := by
    rw [hsh, hsucc, hI.toBytes_ofBytes hd hl, length_memcpy (by omega)]
    omega
  obtain ⟨hrep, hdata⟩ := h.read (u := 1) hoff
  constructor
  · exact hrep
  · have hdata' : (ByteRing.read rb (memcpy P.recvData 0 (P.toBytes s.head)) P.headSize.toNat
        (P.payloadSize s.head + 1) 1).2 = (ByteRing.read q (memcpy P.recvData 0 (P.toBytes s.head)) P.headSize.toNat
        (P.payloadSize s.head + 1) 1).2 := hdata
    simp only [takeBody, hdata']

/-- **A ring operation keeps the two machines together.** -/
theorem Mirrors.advance (hI : Implements P F) (hsmall : cap.toNat + 255 < 2 ^ 32) {m : Micro RingBuffer Head}
    {n : Micro (ByteQueue cap) Head} (h : Mirrors m n) {rc : Framing.Receiver UInt8}
    (ht : Tracks P F n.state.ring n.state.statics rc) (hp : AtPlace P F rc n.place) (hok : ¬ DropsAtEnd P m) :
    Mirrors (advance P m) (advance P n) := by
  obtain ⟨⟨rb, st, c⟩, p⟩ := m
  obtain ⟨⟨q, st', c'⟩, p'⟩ := n
  obtain ⟨hr, hst, hc, hpl⟩ := h
  simp only at hr hst hc hpl ht hp
  subst hst hc hpl
  have hq : q.bytes.length = rc.queue.length := congrArg List.length ht.queue
  have hsz := hI.headSize
  have hge := hI.headSize_ge
  have hlt := hI.headSize_lt
  cases p with
  | idle =>
    simp only [Receive.advance]
    split_ifs <;> exact ⟨hr, rfl, rfl, rfl⟩
  | headCheck d =>
    simp only [Receive.advance, hr.validSize_eq]
    split_ifs <;> exact ⟨hr, rfl, rfl, rfl⟩
  | headRead d =>
    obtain ⟨-, hd, henough⟩ := hp
    have hfits : 0 + P.headSize.toNat ≤ d.length := by omega
    obtain ⟨hrep, hdata⟩ := hr.read (u := 0) hfits
    exact ⟨hrep, rfl, rfl, congrArg (afterRead P) hdata⟩
  | skipByte d =>
    obtain ⟨-, -, henough, -⟩ := hp
    have hk : (1 : UInt8).toNat = 1 := rfl
    refine ⟨hr.skip hsmall (k := 1) (by omega) ?_, rfl, rfl, rfl⟩
    intro hend
    omega
  | skipHead d =>
    obtain ⟨-, hat, -⟩ := hp
    have hle := hat.1
    have hk : P.headSize.toUInt8.toNat = F.headSize := by simp [hsz]; omega
    refine ⟨hr.skip hsmall (k := P.headSize.toUInt8) (by omega) ?_, rfl, rfl, rfl⟩
    intro hend hall
    have hvalid := hr.valid
    exact hok ⟨hend, by show rb.valid = _; omega⟩
  | bodyCheck =>
    simp only [Receive.advance, hr.validSize_eq]
    split_ifs <;> exact ⟨hr, rfl, rfl, rfl⟩
  | bodyRead =>
    obtain ⟨hd, hh, -⟩ := hp
    rcases ht.step with ⟨-, hn⟩ | ⟨hd', -, hh', hl, hi, hsh⟩
    · rw [hn] at hh
      cases hh
    · obtain ⟨hrep, hout⟩ := takeBody_mirrors hI hr hl hi hsh
      refine ⟨hrep, congrArg Prod.fst hout, ?_, rfl⟩
      show c ++ (takeBody P rb st).2.2.toList = c ++ (takeBody P q st).2.2.toList
      rw [hout]

theorem Mirrors.receive {m : Micro RingBuffer Head} {n : Micro (ByteQueue cap) Head} (h : Mirrors m n) {b : UInt8}
    (hfree : 2 ≤ m.state.ring.free) :
    Mirrors ⟨{ m.state with ring := ringWrite m.state.ring [b] }, m.place⟩
      ⟨{ n.state with ring := ringWrite n.state.ring [b] }, n.place⟩ := by
  refine ⟨h.ring.write (c := ⟨[b], by simp⟩) ?_, h.statics, h.calls, h.place⟩
  intro _
  exact hfree

/-! ### Runs -/

/-- **One event keeps the two machines together**, and the one on the queue with the receiver. -/
theorem Mirrors.step (hI : Implements P F) (hsmall : cap.toNat + 255 < 2 ^ 32) {es : List Interleaving}
    {m : Micro RingBuffer Head} {n : Micro (ByteQueue cap) Head} {e : Interleaving} (h : Mirrors m n)
    (ht : Tends P F es n) (hok : RingUse P m e) :
    ∃ m' n', m.step P e = some m' ∧ n.step P e = some n' ∧ Mirrors m' n' ∧ Tends P F (es ++ [e]) n' := by
  have hend : ∀ q : ByteQueue cap, ¬ LawfulRing.AtEnd q := by
    intro q h
    exact h
  cases e with
  | receive b =>
    have hroom : 2 ≤ n.state.ring.room := h.ring.free ▸ hok
    have hfits : [b].length ≤ n.state.ring.room := Nat.le_of_succ_le hroom
    obtain ⟨n', hn, ht'⟩ := ht.step hI hend (e := .receive b) (appends_of_le_room hfits)
    cases hn
    exact ⟨_, _, rfl, rfl, h.receive hok, ht'⟩
  | advance =>
    obtain ⟨rc, htr, hp, -⟩ := id ht
    obtain ⟨n', hn, ht'⟩ := ht.step hI hend (e := .advance) trivial
    cases hn
    exact ⟨_, _, rfl, rfl, h.advance hI hsmall htr hp hok, ht'⟩

theorem Mirrors.receiveAll (hI : Implements P F) (hsmall : cap.toNat + 255 < 2 ^ 32) {bytes : List UInt8}
    {es : List Interleaving} {m : Micro RingBuffer Head} {n : Micro (ByteQueue cap) Head} (h : Mirrors m n)
    (ht : Tends P F es n) (hlt : bytes.length < m.state.ring.free) :
    ∃ m' n', run (Micro.step P) m (bytes.map .receive) = some m' ∧
      run (Micro.step P) n (bytes.map .receive) = some n' ∧ Mirrors m' n' ∧
      Tends P F (es ++ bytes.map .receive) n' := by
  induction bytes generalizing es m n with
  | nil => exact ⟨m, n, rfl, rfl, h, by simpa using ht⟩
  | cons b bytes ih =>
    rw [List.length_cons] at hlt
    obtain ⟨m₁, n₁, hm, hn, h₁, ht₁⟩ := h.step hI hsmall ht (e := .receive b) (show 2 ≤ m.state.ring.free by omega)
    have hroom : n₁.state.ring.room + 1 = n.state.ring.room := by
      have hfree := h.ring.free
      have hfits : [b].length ≤ n.state.ring.room := by
        rw [List.length_singleton]
        omega
      obtain ⟨-, hun⟩ := appends_of_le_room hfits
      have hlen := congrArg List.length hun
      rw [List.length_append, List.length_singleton] at hlen
      cases hn
      change cap.toNat - (LawfulRing.unread (ringWrite n.state.ring [b])).length + 1 = _
      rw [hlen]
      change cap.toNat - (n.state.ring.bytes.length + 1) + 1 = cap.toNat - n.state.ring.bytes.length
      have hr : n.state.ring.room = cap.toNat - n.state.ring.bytes.length := rfl
      omega
    obtain ⟨m', n', hm', hn', h', ht'⟩ := ih h₁ ht₁ (by
      rw [h₁.ring.free]
      rw [h.ring.free] at hlt
      omega)
    refine ⟨m', n', ?_, ?_, h', ?_⟩
    · rw [List.map_cons, run_cons hm, hm']
    · rw [List.map_cons, run_cons hn, hn']
    · rwa [List.append_assoc] at ht'

/-- The parser has too few bytes for the head, or for the body, that comes next. -/
def Waits {R : Type} [ByteRing R] (P : Protocol Head) (s : State R Head) : Prop :=
  (s.statics.readStep = 0 ∧ ByteRing.validSize s.ring < P.headSize) ∨
    (s.statics.readStep = 1 ∧ ByteRing.validSize s.ring < P.payloadSize s.statics.head + 1)

instance {R : Type} [ByteRing R] (P : Protocol Head) (s : State R Head) : Decidable (Waits P s) := by
  unfold Waits
  infer_instance

theorem Waits.settled {R : Type} [LawfulRing R] {s : State R Head} (h : Waits P s) : Settled P s := by
  have hcall : protocolProcess P s.ring s.statics = some (s.ring, s.statics, none) := by
    unfold protocolProcess
    rcases h with ⟨h0, hlen⟩ | ⟨h1, hlen⟩
    · rw [if_pos h0, if_pos hlen]
    · have h0 : s.statics.readStep ≠ 0 := by rw [h1]; decide
      rw [if_neg h0, if_pos h1, if_pos hlen]
  intro s' hs'
  rw [State.step_process hcall] at hs'
  cases hs'
  rfl

theorem Mirrors.waits {m : Micro RingBuffer Head} {n : Micro (ByteQueue cap) Head} (h : Mirrors m n) :
    Waits P m.state ↔ Waits P n.state := by
  unfold Waits
  rw [h.statics, h.ring.validSize_eq]

/-- **What the machine on the ring has handed on** is a prefix of the reference decoding, and all of it when the parser
waits for bytes. -/
theorem Mirrors.calls_prefix (hI : Implements P F) {es : List Interleaving} {m : Micro RingBuffer Head}
    {n : Micro (ByteQueue cap) Head} (h : Mirrors m n) (ht : Tends P F es n) :
    m.state.calls <+: F.decode (received es) ∧ (Waits P m.state → m.state.calls = F.decode (received es)) := by
  have hw : written [.write (received es)] = received es := written_write _
  rw [h.calls]
  constructor
  · exact hw ▸ ht.follows.calls_prefix
  · intro hwait
    rw [ht.follows.settled hI (fun _ hae => absurd hae id) (h.waits.mp hwait).settled, hw]

end Fr8012haLock.Receive
