import Fr8012haLock.Receive.Runs

/-!
# A parser that is interrupted

The receive interrupt writes a byte into the ring between any two ring operations of a call.  `Micro` is a parser
together with the place in the call where it stands, which is always in front of a ring operation; `advance` makes that
operation and goes on to the next one.  What holds at each place (`AtPlace`) is not disturbed by bytes that arrive, so
the machine follows the receiver of the framing as the parser does whose calls are not interrupted (`Tends.step`).
Left alone between two calls, it makes exactly one call of that parser (`call_reaches`).
-/

namespace Fr8012haLock.Receive

open Cyclic Buffer Runs

/-! ### The machine -/

/-- A place in a call, in front of a ring operation; `recvData` is the local array. -/
inductive Place where
  /-- between two calls -/
  | idle
  /-- in front of `ring_buffer_valid_size`, before the loop or in it -/
  | headCheck (recvData : List UInt8)
  /-- in front of the `ring_buffer_read` that does not move the read index -/
  | headRead (recvData : List UInt8)
  /-- in front of the skip of a byte that begins no head -/
  | skipByte (recvData : List UInt8)
  /-- in front of the skip of the head that the loop has found -/
  | skipHead (recvData : List UInt8)
  /-- in front of `ring_buffer_valid_size`, with a head taken before -/
  | bodyCheck
  /-- in front of the `ring_buffer_read` of payload and checksum -/
  | bodyRead

/-- A parser, and where it is in a call. -/
structure Micro (R Head : Type) where
  state : State R Head
  place : Place

/-- What happens to it: a byte arrives, or it goes on by a ring operation. -/
inductive Interleaving where
  | receive (b : UInt8)
  | advance

/-- The bytes that arrived, in order. -/
def received (es : List Interleaving) : List UInt8 := es.flatMap fun
  | .receive b => [b]
  | .advance => []

section Machine

variable {Head R : Type} [ByteRing R] (P : Protocol Head)

/-- Where the loop goes on with what it has read. -/
def afterRead (recvData : List UInt8) : Place :=
  if P.checkHead (P.ofBytes recvData) then .skipHead recvData else .skipByte recvData

/-- One ring operation, and what follows it up to the next one.  Between two calls the next one begins. -/
def advance (m : Micro R Head) : Micro R Head :=
  let s := m.state
  match m.place with
  | .idle =>
    if s.statics.readStep = 0 then ⟨s, .headCheck P.recvData⟩
    else if s.statics.readStep = 1 then ⟨s, .bodyCheck⟩
    else ⟨s, .idle⟩
  | .headCheck recvData => if ByteRing.validSize s.ring < P.headSize then ⟨s, .idle⟩ else ⟨s, .headRead recvData⟩
  | .headRead recvData =>
    let (rb, recvData) := ByteRing.read s.ring recvData 0 P.headSize 0
    ⟨{ s with ring := rb }, afterRead P recvData⟩
  | .skipByte recvData => ⟨{ s with ring := ByteRing.updateReadIdx s.ring 1 }, .headCheck recvData⟩
  | .skipHead recvData =>
    ⟨{ s with ring := ByteRing.updateReadIdx s.ring P.headSize.toUInt8
              statics := ⟨s.statics.readStep + 1, P.ofBytes recvData⟩ }, .idle⟩
  | .bodyCheck =>
    if ByteRing.validSize s.ring < P.payloadSize s.statics.head + 1 then ⟨s, .idle⟩ else ⟨s, .bodyRead⟩
  | .bodyRead =>
    let (rb, statics, call) := takeBody P s.ring s.statics
    ⟨⟨rb, statics, s.calls ++ call.toList⟩, .idle⟩

/-- One event. -/
def Micro.step (m : Micro R Head) : Interleaving → Option (Micro R Head)
  | .receive b => some { m with state := { m.state with ring := ringWrite m.state.ring [b] } }
  | .advance => some (advance P m)

end Machine

variable {Head R : Type}

@[simp] theorem received_append (es fs : List Interleaving) : received (es ++ fs) = received es ++ received fs := by
  simp [received]

@[simp] theorem received_receive (b : UInt8) : received [.receive b] = [b] := rfl

@[simp] theorem received_advance : received [.advance] = [] := rfl

/-! ### What holds at each place -/

section Follows

variable [LawfulRing R] {P : Protocol Head} {F : Framing UInt8 Call}

/-- What a call has found out when it stands at a place. -/
def AtPlace (P : Protocol Head) (F : Framing UInt8 Call) (rc : Framing.Receiver UInt8) : Place → Prop
  | .idle => True
  | .headCheck recvData => rc.head = none ∧ recvData.length = F.headSize + maxPayloadSize + 1
  | .headRead recvData =>
    rc.head = none ∧ recvData.length = F.headSize + maxPayloadSize + 1 ∧ F.headSize ≤ rc.queue.length
  | .skipByte recvData => rc.head = none ∧ recvData.length = F.headSize + maxPayloadSize + 1 ∧
      F.headSize ≤ rc.queue.length ∧ ¬ F.HeadAt rc.queue
  | .skipHead recvData =>
    rc.head = none ∧ F.HeadAt rc.queue ∧ P.ofBytes recvData = P.ofBytes (rc.queue.take F.headSize)
  | .bodyCheck => rc.head ≠ none
  | .bodyRead => ∃ h, rc.head = some h ∧ F.bodySize h ≤ rc.queue.length

/-- **Nothing that a call has found out is disturbed by bytes that arrive.** -/
theorem AtPlace.feed {rc : Framing.Receiver UInt8} {p : Place} (h : AtPlace P F rc p) (bytes : List UInt8) :
    AtPlace P F (rc.feed bytes) p := by
  have hle : rc.queue.length ≤ (rc.queue ++ bytes).length := by simp
  cases p with
  | idle => trivial
  | headCheck recvData => exact h
  | headRead recvData => exact ⟨h.1, h.2.1, h.2.2.trans hle⟩
  | skipByte recvData =>
    refine ⟨h.1, h.2.1, h.2.2.1.trans hle, ?_⟩
    rw [Framing.Receiver.feed, F.headAt_append_left h.2.2.1]
    exact h.2.2.2
  | skipHead recvData =>
    refine ⟨h.1, (F.headAt_append_left h.2.1.1 bytes).mpr h.2.1, ?_⟩
    rw [Framing.Receiver.feed, List.take_append_of_le_length h.2.1.1]
    exact h.2.2
  | bodyCheck => exact h
  | bodyRead =>
    obtain ⟨hd, hh, hb⟩ := h
    exact ⟨hd, hh, hb.trans hle⟩

/-- What is left to do in a call before it ends or a byte is skipped. -/
def Place.rank : Place → ℕ
  | .headCheck _ => 2
  | .headRead _ => 1
  | .bodyCheck => 1
  | _ => 0

/-- What is left to do in a call. -/
def Micro.measure (m : Micro R Head) : ℕ := 4 * (LawfulRing.unread m.state.ring).length + m.place.rank

/-- A ring operation took the machine from `m`, which tracks `rc`, to `m'`: it tracks what it should, it handed on what
the decoding of the pending bytes has lost, and if it is still in the same call there is less to do. -/
def Advances (P : Protocol Head) (F : Framing UInt8 Call) (rc : Framing.Receiver UInt8) (m m' : Micro R Head) : Prop :=
  ∃ rc' out, Tracks P F m'.state.ring m'.state.statics rc' ∧ AtPlace P F rc' m'.place ∧
    m'.state.calls = m.state.calls ++ out ∧ (∀ t, F.decode (rc.pending ++ t) = out ++ F.decode (rc'.pending ++ t)) ∧
    (m.place = .idle ∨ m'.place = .idle ∨ m'.measure < m.measure)

theorem advances_place {rc : Framing.Receiver UInt8} {s : State R Head} {p p' : Place}
    (ht : Tracks P F s.ring s.statics rc) (hp' : AtPlace P F rc p')
    (hrank : p = .idle ∨ p' = .idle ∨ p'.rank < p.rank) : Advances P F rc ⟨s, p⟩ ⟨s, p'⟩ := by
  refine ⟨rc, [], ht, hp', by simp, fun t => rfl, hrank.imp_right (Or.imp_right fun h => ?_)⟩
  exact Nat.add_lt_add_left h _

theorem advances_headCheck (hI : Implements P F) {rc : Framing.Receiver UInt8} {s : State R Head} {d : List UInt8}
    (ht : Tracks P F s.ring s.statics rc) (hp : AtPlace P F rc (.headCheck d)) :
    Advances P F rc ⟨s, .headCheck d⟩ (advance P ⟨s, .headCheck d⟩) := by
  simp only [advance, validSize_lt ht.wf, hI.headSize, ht.queue]
  split
  · exact advances_place ht trivial (Or.inr (Or.inl rfl))
  · rename_i hlen
    exact advances_place ht ⟨hp.1, hp.2, Nat.not_lt.mp hlen⟩ (Or.inr (Or.inr (by simp [Place.rank])))

theorem advances_headRead (hI : Implements P F) {rc : Framing.Receiver UInt8} {s : State R Head} {d : List UInt8}
    (ht : Tracks P F s.ring s.statics rc) (hp : AtPlace P F rc (.headRead d)) :
    Advances P F rc ⟨s, .headRead d⟩ (advance P ⟨s, .headRead d⟩) := by
  obtain ⟨hn, hd, henough⟩ := hp
  obtain ⟨hlen', hrecv'⟩ := peeked hd henough
  have hsz := hI.headSize
  have hpeek := LawfulRing.peek (n := P.headSize) ht.wf (by rw [ht.queue, hsz]; exact henough)
    (show 0 + P.headSize.toNat ≤ d.length by omega)
  rw [hsz, ht.queue] at hpeek
  have hof : P.ofBytes (memcpy d 0 (rc.queue.take F.headSize)) = P.ofBytes (rc.queue.take F.headSize) := by
    rw [hI.ofBytes_take (by omega), hrecv']
  have hcheck : P.checkHead (P.ofBytes (rc.queue.take F.headSize)) = F.isHead (rc.queue.take F.headSize) :=
    hI.checkHead _ (by simp [henough])
  simp only [advance, hpeek, afterRead, hof, hcheck]
  split
  · rename_i hh
    exact advances_place ht ⟨hn, ⟨henough, hh⟩, hof⟩ (Or.inr (Or.inr (by simp [Place.rank])))
  · rename_i hh
    exact advances_place ht ⟨hn, hlen', henough, fun hat => hh hat.2⟩ (Or.inr (Or.inr (by simp [Place.rank])))

theorem advances_skipByte (hI : Implements P F) (hend : ∀ r : R, ¬ LawfulRing.AtEnd r) {rc : Framing.Receiver UInt8}
    {s : State R Head} {d : List UInt8} (ht : Tracks P F s.ring s.statics rc) (hp : AtPlace P F rc (.skipByte d)) :
    Advances P F rc ⟨s, .skipByte d⟩ (advance P ⟨s, .skipByte d⟩) := by
  obtain ⟨hn, hd, henough, hno⟩ := hp
  obtain ⟨head, queue⟩ := rc
  obtain rfl : head = none := hn
  have hge := hI.headSize_ge
  have hk : (1 : UInt8).toNat = 1 := rfl
  cases queue with
  | nil => simp at henough; omega
  | cons a q =>
    have hq := ht.queue
    obtain ⟨hw', hun, -⟩ := LawfulRing.skip (k := 1) ht.wf (by rw [hq, hk]; simp) fun hae => absurd hae (hend _)
    rw [hq, hk] at hun
    refine ⟨⟨none, q⟩, [], ⟨hw', hun, Or.inl ⟨ht.readStep_iff.mpr rfl, rfl⟩⟩, ⟨rfl, hd⟩, by simp [advance], fun t => ?_,
      Or.inr (Or.inr ?_)⟩
    · -- no head begins with the byte, whatever arrives later
      have hno' := (F.headAt_append_left henough t).not.mpr hno
      exact F.decode_skip hno'
    · simp only [Micro.measure, advance, hun, hq, Place.rank]
      simp
      omega

theorem advances_skipHead (hI : Implements P F) (hend : ∀ r : R, ¬ LawfulRing.AtEnd r) {rc : Framing.Receiver UInt8}
    {s : State R Head} {d : List UInt8} (ht : Tracks P F s.ring s.statics rc) (hp : AtPlace P F rc (.skipHead d)) :
    Advances P F rc ⟨s, .skipHead d⟩ (advance P ⟨s, .skipHead d⟩) := by
  obtain ⟨hn, hat, hof⟩ := hp
  obtain ⟨head, queue⟩ := rc
  obtain rfl : head = none := hn
  have hle := hat.1
  have hlt := hI.headSize_lt
  have hk : P.headSize.toUInt8.toNat = F.headSize := by simp [hI.headSize]; omega
  have hs0 : s.statics.readStep = 0 := ht.readStep_iff.mpr rfl
  have hq := ht.queue
  obtain ⟨hw', hun, -⟩ := LawfulRing.skip (k := P.headSize.toUInt8) ht.wf (by rw [hk, hq]; exact hle)
    fun hae => absurd hae (hend _)
  rw [hk, hq] at hun
  refine ⟨⟨some (queue.take F.headSize), queue.drop F.headSize⟩, [], ⟨hw', hun, Or.inr ⟨_, ?_, rfl, by simp [hle],
    hat.2, hof⟩⟩, trivial, by simp [advance], fun t => by simp [Framing.Receiver.pending], Or.inr (Or.inl rfl)⟩
  simp [advance, hs0]

theorem advances_bodyCheck (hI : Implements P F) {rc : Framing.Receiver UInt8} {s : State R Head}
    (ht : Tracks P F s.ring s.statics rc) (hp : AtPlace P F rc .bodyCheck) :
    Advances P F rc ⟨s, .bodyCheck⟩ (advance P ⟨s, .bodyCheck⟩) := by
  rcases ht.step with ⟨-, hn⟩ | ⟨hd, -, hh, hl, hi, hsh⟩
  · exact absurd hn hp
  · simp only [advance, validSize_lt ht.wf, hsh, hI.toNat_bodySize hl hi, ht.queue]
    split
    · exact advances_place ht trivial (Or.inr (Or.inl rfl))
    · rename_i hlen
      exact advances_place ht ⟨hd, hh, Nat.not_lt.mp hlen⟩ (Or.inr (Or.inr (by simp [Place.rank])))

theorem advances_bodyRead (hI : Implements P F) {rc : Framing.Receiver UInt8} {s : State R Head}
    (ht : Tracks P F s.ring s.statics rc) (hp : AtPlace P F rc .bodyRead) :
    Advances P F rc ⟨s, .bodyRead⟩ (advance P ⟨s, .bodyRead⟩) := by
  obtain ⟨hd, hh, hb⟩ := hp
  obtain ⟨head, queue⟩ := rc
  obtain rfl : head = some hd := hh
  rcases ht.step with ⟨-, hn⟩ | ⟨hd', -, hh', hl, hi, hsh⟩
  · cases hn
  · cases hh'
    have hq := ht.queue
    obtain ⟨r', hr, hw', hun⟩ := takeBody_spec hI ht.wf hl hi hsh (by rw [hq]; exact hb)
    rw [hq] at hr hun
    simp only [advance, hr]
    refine ⟨⟨none, queue.drop (F.bodySize hd)⟩, _, ⟨hw', hun, Or.inl ⟨rfl, rfl⟩⟩, trivial, rfl, fun t => ?_,
      Or.inr (Or.inl rfl)⟩
    have hsplit : hd ++ queue ++ t = hd ++ (queue.take (F.bodySize hd) ++ (queue.drop (F.bodySize hd) ++ t)) := by
      rw [← List.append_assoc (queue.take _), List.take_append_drop, List.append_assoc]
    show F.decode (hd ++ queue ++ t) = _
    rw [hsplit, F.decode_frame hl hi (by simp; exact hb)]
    rfl

/-- **Every ring operation of a call does what the place says.** -/
theorem advances (hI : Implements P F) (hend : ∀ r : R, ¬ LawfulRing.AtEnd r) {rc : Framing.Receiver UInt8}
    {m : Micro R Head} (ht : Tracks P F m.state.ring m.state.statics rc) (hp : AtPlace P F rc m.place) :
    Advances P F rc m (advance P m) := by
  obtain ⟨s, place⟩ := m
  cases place with
  | idle =>
    rcases ht.step with ⟨hs, hn⟩ | ⟨hd, hs, hh, -⟩
    · simp only [advance, if_pos hs]
      exact advances_place ht ⟨hn, hI.length_recvData⟩ (Or.inl rfl)
    · have hs0 : s.statics.readStep ≠ 0 := by
        change s.statics.readStep = 1 at hs
        rw [hs]
        decide
      simp only [advance, if_neg hs0, if_pos hs]
      exact advances_place ht (by simp [AtPlace, hh]) (Or.inl rfl)
  | headCheck d => exact advances_headCheck hI ht hp
  | headRead d => exact advances_headRead hI ht hp
  | skipByte d => exact advances_skipByte hI hend ht hp
  | skipHead d => exact advances_skipHead hI hend ht hp
  | bodyCheck => exact advances_bodyCheck hI ht hp
  | bodyRead => exact advances_bodyRead hI ht hp

/-- After the events `es` the machine is where a receiver is that was fed the bytes that arrived. -/
def Tends (P : Protocol Head) (F : Framing UInt8 Call) (es : List Interleaving) (m : Micro R Head) : Prop :=
  ∃ rc, Tracks P F m.state.ring m.state.statics rc ∧ AtPlace P F rc m.place ∧
    ∀ t, F.decode (received es ++ t) = m.state.calls ++ F.decode (rc.pending ++ t)

/-- A byte that arrives is appended. -/
def Arrives (m : Micro R Head) : Interleaving → Prop
  | .receive b => Appends m.state.ring [b]
  | .advance => True

/-- **One event keeps the machine with the receiver.** -/
theorem Tends.step (hI : Implements P F) (hend : ∀ r : R, ¬ LawfulRing.AtEnd r) {es : List Interleaving}
    {m : Micro R Head} {e : Interleaving} (h : Tends P F es m) (hok : Arrives m e) :
    ∃ m', m.step P e = some m' ∧ Tends P F (es ++ [e]) m' := by
  obtain ⟨rc, ht, hp, hdec⟩ := h
  cases e with
  | receive b =>
    refine ⟨_, rfl, rc.feed [b], ht.write hok, hp.feed [b], ?_⟩
    intro t
    rw [received_append, received_receive, Framing.Receiver.pending_feed, List.append_assoc, List.append_assoc]
    exact hdec ([b] ++ t)
  | advance =>
    obtain ⟨rc', out, ht', hp', hc, hout, -⟩ := advances hI hend ht hp
    refine ⟨_, rfl, rc', ht', hp', ?_⟩
    intro t
    rw [received_append, received_advance, List.append_nil, hdec, hout, hc, List.append_assoc]

/-- To the receiver it does not matter in which pieces the bytes arrived. -/
theorem Tends.follows {es : List Interleaving} {m : Micro R Head} (h : Tends P F es m) :
    Follows P F [.write (received es)] m.state := by
  obtain ⟨rc, ht, -, hdec⟩ := h
  exact ⟨rc, ht, by rwa [written_write]⟩

end Follows

/-! ### Left alone -/

section Alone

variable [ByteRing R] {P : Protocol Head}

/-- The machine gets from one state to another by ring operations alone. -/
def Reaches (P : Protocol Head) (m m' : Micro R Head) : Prop :=
  ∃ n, run (Micro.step P) m (List.replicate n .advance) = some m'

theorem Reaches.refl (m : Micro R Head) : Reaches P m m := ⟨0, rfl⟩

theorem Reaches.head {m m' : Micro R Head} (h : Reaches P (advance P m) m') : Reaches P m m' := by
  obtain ⟨n, hn⟩ := h
  exact ⟨n + 1, by rw [List.replicate_succ, run_cons rfl, hn]⟩

theorem Reaches.trans {m m' m'' : Micro R Head} (h : Reaches P m m') (h' : Reaches P m' m'') : Reaches P m m'' := by
  obtain ⟨n, hn⟩ := h
  obtain ⟨n', hn'⟩ := h'
  exact ⟨n + n', by rw [List.replicate_add, run_append hn, hn']⟩

theorem findHead_reaches {fuel : ℕ} {r r' : R} {d : List UInt8} {out : Option (List UInt8)}
    (h : findHead P fuel r d = some (r', out)) (st : Statics Head) (c : List Call) :
    Reaches P ⟨⟨r, st, c⟩, afterRead P d⟩ ⟨⟨r', st, c⟩, out.elim .idle .skipHead⟩ := by
  induction fuel generalizing r d with
  | zero => cases h
  | succ fuel ih =>
    rw [findHead] at h
    by_cases hc : P.checkHead (P.ofBytes d) = true
    · rw [if_pos hc] at h
      cases h
      rw [afterRead, if_pos hc]
      exact .refl _
    · rw [if_neg hc] at h
      rw [afterRead, if_neg hc]
      -- the skip, the check for a head, and the read
      refine .head (.head ?_)
      dsimp only [advance] at h ⊢
      split at h
      · rename_i hlen
        cases h
        rw [if_pos hlen]
        exact .refl _
      · rename_i hlen
        rw [if_neg hlen]
        exact .head (ih h)

/-- **Left alone between two calls, the machine makes a call.** -/
theorem call_reaches {s s' : State R Head} (h : State.step P s .process = some s') :
    Reaches P ⟨s, .idle⟩ ⟨s', .idle⟩ := by
  obtain ⟨r, st, c⟩ := s
  obtain ⟨⟨r', st', out⟩, hp, rfl⟩ := Option.map_eq_some_iff.mp h
  simp only [protocolProcess] at hp
  refine .head ?_
  simp only [advance]
  by_cases h0 : st.readStep = 0
  · rw [if_pos h0] at hp ⊢
    refine .head ?_
    simp only [advance]
    split at hp
    · rename_i hlen
      cases hp
      rw [if_pos hlen, Option.toList_none, List.append_nil]
      exact .refl _
    · rename_i hlen
      rw [if_neg hlen]
      refine .head ?_
      simp only [advance]
      cases hf : findHead P (ByteRing.validSize (ByteRing.read r P.recvData 0 P.headSize 0).1).toNat
          (ByteRing.read r P.recvData 0 P.headSize 0).1 (ByteRing.read r P.recvData 0 P.headSize 0).2 with
      | none => rw [hf] at hp; cases hp
      | some o =>
        obtain ⟨r₁, d⟩ := o
        rw [hf] at hp
        refine (findHead_reaches hf st c).trans ?_
        cases d with
        | none =>
          cases hp
          rw [Option.toList_none, List.append_nil]
          exact .refl _
        | some d =>
          cases hp
          refine .head ?_
          rw [Option.toList_none, List.append_nil]
          exact .refl _
  · rw [if_neg h0] at hp ⊢
    by_cases h1 : st.readStep = 1
    · rw [if_pos h1] at hp ⊢
      refine .head ?_
      simp only [advance]
      split at hp
      · rename_i hlen
        cases hp
        rw [if_pos hlen, Option.toList_none, List.append_nil]
        exact .refl _
      · rename_i hlen
        rw [if_neg hlen]
        refine .head ?_
        simp only [advance]
        cases hp
        exact .refl _
    · rw [if_neg h1] at hp ⊢
      cases hp
      rw [Option.toList_none, List.append_nil]
      exact .refl _

theorem calls_reach (n : ℕ) {s s' : State R Head}
    (h : run (State.step P) s (List.replicate n .process) = some s') : Reaches P ⟨s, .idle⟩ ⟨s', .idle⟩ := by
  induction n generalizing s with
  | zero =>
    cases h
    exact .refl _
  | succ n ih =>
    rw [List.replicate_succ] at h
    cases hs : State.step P s .process with
    | none => simp [run, hs] at h
    | some s₁ =>
      rw [run_cons hs] at h
      exact (call_reaches hs).trans (ih h)

end Alone

section Settling

variable [LawfulRing R] {P : Protocol Head} {F : Framing UInt8 Call}

/-- Left alone, the machine finishes the call it is in. -/
theorem Tends.finishes (hI : Implements P F) (hend : ∀ r : R, ¬ LawfulRing.AtEnd r) {es : List Interleaving}
    {m : Micro R Head} (h : Tends P F es m) :
    ∃ m', Reaches P m m' ∧ m'.place = .idle ∧ Follows P F [.write (received es)] m'.state := by
  induction hk : m.measure using Nat.strongRecOn generalizing es m with
  | ind k ih =>
    by_cases hidle : m.place = .idle
    · exact ⟨m, .refl m, hidle, h.follows⟩
    · obtain ⟨m₁, hm₁, h₁⟩ := h.step hI hend (e := .advance) trivial
      cases hm₁
      have hrec : received (es ++ [.advance]) = received es := by simp
      obtain ⟨rc, ht, hp, -⟩ := id h
      obtain ⟨-, -, -, -, -, -, hi | hi | hlt⟩ := advances hI hend ht hp
      · exact absurd hi hidle
      · exact ⟨_, .head (.refl _), hi, hrec ▸ h₁.follows⟩
      · obtain ⟨m', hr, hi, hf⟩ := ih _ (hk ▸ hlt) h₁ rfl
        exact ⟨m', hr.head, hi, hrec ▸ hf⟩

/-- **When no more bytes arrive, enough calls hand on everything** that the bytes decode to. -/
theorem Tends.settles (hI : Implements P F) (hend : ∀ r : R, ¬ LawfulRing.AtEnd r) {es : List Interleaving}
    {m : Micro R Head} (h : Tends P F es m) :
    ∃ m', Reaches P m m' ∧ m'.place = .idle ∧ Settled P m'.state ∧ m'.state.calls = F.decode (received es) := by
  obtain ⟨⟨s, place⟩, hr, hi, hf⟩ := h.finishes hI hend
  obtain rfl : place = .idle := hi
  obtain ⟨n, s', hrun, hf', hset⟩ := hf.settles hI hend
  refine ⟨⟨s', .idle⟩, hr.trans (calls_reach n hrun), rfl, hset, ?_⟩
  rw [hf'.settled hI (fun _ hae => absurd hae (hend _)) hset, written_append, written_write,
    written_replicate_process, List.append_nil]

end Settling

end Fr8012haLock.Receive
