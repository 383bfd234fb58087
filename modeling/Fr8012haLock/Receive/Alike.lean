import Fr8012haLock.Receive.Runs
import Fr8012haLock.Lib.Noise

/-!
# Two parsers that hand on the same commands

`AlikeSince c₁ c₂ p q` relates two parsers that had handed on `c₁` and `c₂` at some moment: they hand on the same
since then, and their receivers are alike.  The same event keeps them so (`AlikeSince.step`), and so does a quiet write
into one of them only, while it holds no unfinished frame (`AlikeSince.quiet_write`).
-/

namespace Fr8012haLock.Receive

open Buffer Runs

variable {Head R : Type} [LawfulRing R] {P : Protocol Head} {F : Framing UInt8 Call}

/-- The bytes a parser holds, the head it has taken included. -/
def State.pending (P : Protocol Head) (s : State R Head) : List UInt8 :=
  (if s.statics.readStep = 0 then [] else P.toBytes s.statics.head) ++ LawfulRing.unread s.ring

/-- The parser is where some receiver is. -/
def Lawful (P : Protocol Head) (F : Framing UInt8 Call) (s : State R Head) : Prop :=
  ∃ rc, Tracks P F s.ring s.statics rc

theorem Tracks.pending_eq (hI : Implements P F) {s : State R Head} {rc : Framing.Receiver UInt8}
    (h : Tracks P F s.ring s.statics rc) : s.pending P = rc.pending := by
  rw [State.pending, Framing.Receiver.pending, h.queue]
  rcases h.step with ⟨hs, hn⟩ | ⟨hd, hs, hh, hl, -, hsh⟩
  · rw [if_pos hs, hn]
    rfl
  · rw [if_neg (by rw [hs]; decide), hh, hsh, hI.toBytes_ofBytes hd hl]
    rfl

/-- **Every event keeps the parser lawful**, whatever its size and whatever is unread; and every call returns. -/
theorem Lawful.step (hI : Implements P F) {s : State R Head} (h : Lawful P F s) (e : Event) :
    ∃ s', State.step P s e = some s' ∧ Lawful P F s' := by
  obtain ⟨rc, ht⟩ := h
  cases e with
  | write bytes =>
    have hmod : (UInt32.ofNat bytes.length).toNat ≤ bytes.length := by
      rw [UInt32.toNat_ofNat']
      exact Nat.mod_le _ _
    refine ⟨_, rfl, ⟨rc.head, LawfulRing.unread (ringWrite s.ring bytes)⟩, LawfulRing.write_wf ht.wf hmod, rfl, ht.step⟩
  | process =>
    obtain ⟨r', s', rc', hp, ht'⟩ := ht.process_any hI
    exact ⟨_, State.step_process hp, rc', ht'⟩

/-- **A call that changes nothing waits for bytes**: for those of a head, or for those of the body of the head taken. -/
theorem Lawful.waits (hI : Implements P F) {s : State R Head} (h : Lawful P F s)
    (hs : State.step P s .process = some s) :
    (LawfulRing.unread s.ring).length < F.headSize ∨
      ∃ hd, hd.length = F.headSize ∧ (LawfulRing.unread s.ring).length < F.bodySize hd := by
  obtain ⟨rc, ht⟩ := h
  have hsame : ∀ {r' s' call}, protocolProcess P s.ring s.statics = some (r', s', call) →
      r' = s.ring ∧ s' = s.statics := by
    intro r' s' call hp
    rw [State.step_process hp] at hs
    injection hs with hs
    exact ⟨congrArg State.ring hs, congrArg State.statics hs⟩
  have hlast : HeadNotLast F s.ring s.statics := by
    intro hs0 hend hlast
    obtain ⟨r', s', hp, -, ht'⟩ := process_head hI ht.wf hs0
    obtain ⟨hd, -, ht', -⟩ := ht' ⟨hend, hlast⟩
    obtain ⟨rfl, rfl⟩ := hsame hp
    exact absurd (ht'.readStep_iff.mp hs0) (by simp)
  obtain ⟨r', s', hp, ht'⟩ := ht.process hI hlast
  obtain ⟨rfl, rfl⟩ := hsame hp
  rw [ht.queue]
  have hwait := F.poll_waits (ht'.queue.symm.trans ht.queue) (ht'.readStep_iff.symm.trans ht.readStep_iff)
  rcases hwait with hq | ⟨hd, hh, hq⟩
  · exact Or.inl hq
  · exact Or.inr ⟨hd, (ht.receiver_wf hd hh).1, hq⟩

/-- Two parsers, of which the first had handed on `c₁` and the second `c₂`, and which have handed on the same since
and whose receivers are alike. -/
def AlikeSince (P : Protocol Head) (F : Framing UInt8 Call) (c₁ c₂ : List Call) (p q : State R Head) : Prop :=
  ∃ rc₁ rc₂ new, Tracks P F p.ring p.statics rc₁ ∧ Tracks P F q.ring q.statics rc₂ ∧ F.Alike rc₁ rc₂ ∧
    p.calls = c₁ ++ new ∧ q.calls = c₂ ++ new

variable {c₁ c₂ : List Call}

theorem alikeSince_of_quiet {p q : State R Head} (hp : Lawful P F p) (hq : Lawful P F q) (hp0 : p.statics.readStep = 0)
    (hq0 : q.statics.readStep = 0) (hpq : F.Quiet (LawfulRing.unread p.ring))
    (hqq : F.Quiet (LawfulRing.unread q.ring)) : AlikeSince P F p.calls q.calls p q := by
  obtain ⟨⟨head₁, queue₁⟩, h₁⟩ := hp
  obtain ⟨⟨head₂, queue₂⟩, h₂⟩ := hq
  obtain rfl : head₁ = none := h₁.readStep_iff.mp hp0
  obtain rfl : head₂ = none := h₂.readStep_iff.mp hq0
  rw [h₁.queue] at hpq
  rw [h₂.queue] at hqq
  exact ⟨_, _, [], h₁, h₂, .idle (Framing.same_of_quiet hpq hqq), by simp, by simp⟩

theorem AlikeSince.wf_left {p q : State R Head} (h : AlikeSince P F c₁ c₂ p q) : LawfulRing.Wf p.ring := by
  obtain ⟨_, _, _, ht, -⟩ := h
  exact ht.wf

theorem AlikeSince.wf_right {p q : State R Head} (h : AlikeSince P F c₁ c₂ p q) : LawfulRing.Wf q.ring := by
  obtain ⟨_, _, _, -, ht, -⟩ := h
  exact ht.wf

theorem AlikeSince.step (hI : Implements P F) {p q : State R Head} (h : AlikeSince P F c₁ c₂ p q) {e : Event}
    (hp : Faithful F p e) (hq : Faithful F q e) :
    ∃ p' q', State.step P p e = some p' ∧ State.step P q e = some q' ∧ AlikeSince P F c₁ c₂ p' q' := by
  obtain ⟨rc₁, rc₂, new, h₁, h₂, hal, hc₁, hc₂⟩ := h
  cases e with
  | write bytes => exact ⟨_, _, rfl, rfl, _, _, new, h₁.write hp, h₂.write hq, hal.feed bytes, hc₁, hc₂⟩
  | process =>
    obtain ⟨r₁, s₁, hp₁, ht₁⟩ := h₁.process hI hp
    obtain ⟨r₂, s₂, hp₂, ht₂⟩ := h₂.process hI hq
    obtain ⟨hal', hout⟩ := hal.poll
    refine ⟨_, _, State.step_process hp₁, State.step_process hp₂, _, _, new ++ (F.poll rc₁).2.toList, ht₁, ht₂, hal',
      ?_, ?_⟩
    · show p.calls ++ _ = _
      rw [hc₁, List.append_assoc]
    · show q.calls ++ _ = _
      rw [hc₂, hout, List.append_assoc]

/-- **A quiet write into one of two parsers keeps them alike**, while that one holds no unfinished frame. -/
theorem AlikeSince.quiet_write (hI : Implements P F) {p q : State R Head} (h : AlikeSince P F c₁ c₂ p q)
    {bytes : List UInt8} (hp : Appends p.ring bytes) (hbytes : F.Quiet bytes) (hrest : F.Quiet (F.rest (p.pending P))) :
    ∃ p', State.step P p (.write bytes) = some p' ∧ AlikeSince P F c₁ c₂ p' q := by
  obtain ⟨rc₁, rc₂, new, h₁, h₂, hal, hc₁, hc₂⟩ := h
  rw [h₁.pending_eq hI] at hrest
  exact ⟨_, rfl, _, _, new, h₁.write hp, h₂, hal.feed_quiet h₁.receiver_wf hrest hbytes, hc₁, hc₂⟩

end Fr8012haLock.Receive
