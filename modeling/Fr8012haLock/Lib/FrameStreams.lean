import Fr8012haLock.Lib.Framing

/-!
# Streams of whole frames, and noise in front of them

* `Framing.IsFrame f b` — `f` is one whole frame and emits `b`; a list of frames decodes to what they emit
  (`decode_stream`), and a receiver between two frames of the list hands out the rest in two calls a frame
  (`polls_drain`);
* `Framing.startingFrom` — what the frames of a list emit that start at a given offset or later;
* `Framing.decode_resync` — behind noise, the decoding ends with what the frames emit that start at most one
  frame's length after the noise, if no head begins inside a frame.
-/

namespace Fr8012haLock.Framing

variable {α β : Type*} (F : Framing α β)

/-- One whole frame, and what it emits. -/
def IsFrame (f : List α) (b : β) : Prop :=
  ∃ h body, f = h ++ body ∧ h.length = F.headSize ∧ F.isHead h = true ∧ body.length = F.bodySize h ∧
    F.emit h body = some b

/-- The frames of a list of pairs are whole frames that emit the values they are paired with. -/
def AreFrames (fs : List (List α × β)) : Prop := ∀ p ∈ fs, F.IsFrame p.1 p.2

/-- The stream of a list of frames. -/
def stream (fs : List (List α × β)) : List α := (fs.map Prod.fst).flatten

@[simp] theorem stream_nil : stream ([] : List (List α × β)) = [] := rfl

@[simp] theorem stream_cons (p : List α × β) (fs : List (List α × β)) : stream (p :: fs) = p.1 ++ stream fs := rfl

@[simp] theorem stream_append (fs gs : List (List α × β)) : stream (fs ++ gs) = stream fs ++ stream gs := by
  simp [stream]

variable {F}

theorem IsFrame.headAt {f : List α} {b : β} (hf : F.IsFrame f b) (t : List α) : F.HeadAt (f ++ t) := by
  obtain ⟨h, body, rfl, hl, hh, -, -⟩ := hf
  rw [List.append_assoc]
  exact (F.headAt_append hl).mpr hh

theorem IsFrame.headSize_lt {f : List α} {b : β} (hf : F.IsFrame f b) : F.headSize < f.length := by
  obtain ⟨h, body, rfl, hl, -, hb, -⟩ := hf
  have := F.bodySize_pos h
  simp
  omega

theorem IsFrame.decode_append {f : List α} {b : β} (hf : F.IsFrame f b) (t : List α) :
    F.decode (f ++ t) = b :: F.decode t := by
  obtain ⟨h, body, rfl, hl, hh, hb, he⟩ := hf
  rw [List.append_assoc, F.decode_frame hl hh hb, he]
  rfl

variable (F)

theorem decode_stream {fs : List (List α × β)} (hf : F.AreFrames fs) : F.decode (stream fs) = fs.map Prod.snd := by
  induction fs with
  | nil => exact F.decode_short F.headSize_pos
  | cons p fs ih =>
    rw [stream_cons, (hf p (by simp)).decode_append, ih fun q hq => hf q (by simp [hq])]
    rfl

/-! ### Receivers on streams of frames -/

/-- The receiver is between two frames, or between the head and the body of one, and holds exactly the frames of
the list. -/
inductive Holds : Receiver α → List (List α × β) → Prop
  | idle (fs : List (List α × β)) : Holds ⟨none, stream fs⟩ fs
  | body (h body : List α) (b : β) (fs : List (List α × β)) : h.length = F.headSize → F.isHead h = true →
      body.length = F.bodySize h → F.emit h body = some b →
      Holds ⟨some h, body ++ stream fs⟩ ((h ++ body, b) :: fs)

variable {F}

theorem Holds.feed {r : Receiver α} {fs : List (List α × β)} (hr : F.Holds r fs) (gs : List (List α × β)) :
    F.Holds (r.feed (stream gs)) (fs ++ gs) := by
  cases hr with
  | idle =>
    have := Holds.idle (F := F) (fs ++ gs)
    rwa [stream_append] at this
  | body h body b fs hl hh hb he =>
    have := Holds.body (F := F) h body b (fs ++ gs) hl hh hb he
    rw [stream_append, ← List.append_assoc] at this
    exact this

theorem Holds.poll {r : Receiver α} {fs : List (List α × β)} (hr : F.Holds r fs) (hf : F.AreFrames fs) :
    ∃ gs, F.Holds (F.poll r).1 gs ∧ F.AreFrames gs ∧ fs.map Prod.snd = (F.poll r).2.toList ++ gs.map Prod.snd := by
  cases hr with
  | idle =>
    cases fs with
    | nil => exact ⟨[], by simpa using Holds.idle (F := F) [], hf, by simp⟩
    | cons p fs =>
      obtain ⟨f, b⟩ := p
      obtain ⟨h, body, rfl, hl, hh, hb, he⟩ := hf (f, b) (by simp)
      refine ⟨(h ++ body, b) :: fs, ?_, hf, ?_⟩
      · rw [stream_cons, List.append_assoc, F.poll_head hl hh]
        exact Holds.body h body b fs hl hh hb he
      · rw [stream_cons, List.append_assoc, F.poll_head hl hh]
        rfl
  | body h body b fs hl hh hb he =>
    refine ⟨fs, ?_, fun q hq => hf q (by simp [hq]), ?_⟩
    · rw [F.poll_body hb]
      exact Holds.idle fs
    · rw [F.poll_body hb, he]
      rfl

theorem Holds.front {r : Receiver α} {fs : List (List α × β)} (hr : F.Holds r fs) (hf : F.AreFrames fs)
    (hn : r.head = none) (hq : r.queue ≠ []) : F.HeadAt r.queue ∧ F.headSize < r.queue.length := by
  cases hr with
  | idle =>
    cases fs with
    | nil => exact absurd rfl hq
    | cons p fs =>
      have hp := hf p (by simp)
      refine ⟨hp.headAt _, ?_⟩
      have := hp.headSize_lt
      simp
      omega
  | body => cases hn

theorem polls_succ (n : ℕ) (r : Receiver α) : F.polls (n + 1) r =
    ((F.poll (F.polls n r).1).1, (F.polls n r).2 ++ (F.poll (F.polls n r).1).2.toList) := by
  induction n generalizing r with
  | zero => simp [polls]
  | succ n ih =>
    rw [polls, ih]
    simp [polls, List.append_assoc]

theorem polls_stream {fs : List (List α × β)} (hf : F.AreFrames fs) :
    F.polls (2 * fs.length) ⟨none, stream fs⟩ = (⟨none, []⟩, fs.map Prod.snd) := by
  induction fs with
  | nil => rfl
  | cons p fs ih =>
    obtain ⟨f, b⟩ := p
    obtain ⟨h, body, rfl, hl, hh, hb, he⟩ := hf (f, b) (by simp)
    have ih := ih fun q hq => hf q (by simp [hq])
    rw [show 2 * ((h ++ body, b) :: fs).length = 2 * fs.length + 1 + 1 by simp; omega]
    simp only [polls, stream_cons, List.append_assoc, F.poll_head hl hh, F.poll_body hb, he, ih]
    rfl

/-- **Two calls a frame hand out all the frames a receiver holds**, and leave it empty. -/
theorem Holds.polls_drain {r : Receiver α} {fs : List (List α × β)} (hr : F.Holds r fs) (hf : F.AreFrames fs) :
    F.polls (2 * fs.length) r = (⟨none, []⟩, fs.map Prod.snd) := by
  cases hr with
  | idle => exact polls_stream hf
  | body h body b fs hl hh hb he =>
    have hfs : F.AreFrames fs := fun q hq => hf q (by simp [hq])
    -- the head is gone already, so the last call finds nothing
    rw [show 2 * ((h ++ body, b) :: fs).length = 2 * fs.length + 1 + 1 by simp; omega, polls_succ]
    simp only [polls, F.poll_body hb, he, polls_stream hfs, F.poll_empty]
    simp

theorem polls_nil (n : ℕ) : F.polls n ⟨none, []⟩ = (⟨none, []⟩, []) := by
  induction n with
  | zero => rfl
  | succ n ih => simp only [polls, F.poll_empty, ih, Option.toList_none, List.append_nil]

/-- **Every second call hands out a frame** of those a receiver between two frames holds. -/
theorem polls_take (n : ℕ) {fs : List (List α × β)} (hf : F.AreFrames fs) :
    (F.polls n ⟨none, stream fs⟩).2 = (fs.map Prod.snd).take (n / 2) := by
  induction fs generalizing n with
  | nil => rw [stream_nil, polls_nil, List.map_nil, List.take_nil]
  | cons p fs ih =>
    obtain ⟨f, b⟩ := p
    obtain ⟨h, body, rfl, hl, hh, hb, he⟩ := hf (f, b) (by simp)
    match n with
    | 0 => rfl
    | 1 => simp only [polls, stream_cons, List.append_assoc, F.poll_head hl hh]; rfl
    | n + 2 =>
      rw [Nat.add_div_right n (by decide), List.map_cons, List.take_succ_cons, ← ih n fun q hq => hf q (by simp [hq])]
      simp only [polls, stream_cons, List.append_assoc, F.poll_head hl hh, F.poll_body hb, he]
      rfl

theorem polls_enough {n : ℕ} {fs : List (List α × β)} (hf : F.AreFrames fs) (hn : 2 * fs.length ≤ n) :
    (F.polls n ⟨none, stream fs⟩).1 = ⟨none, []⟩ := by
  obtain ⟨m, rfl⟩ := Nat.exists_eq_add_of_le hn
  induction m with
  | zero => rw [Nat.add_zero, polls_stream hf]
  | succ m ih => rw [← Nat.add_assoc, polls_succ, ih (Nat.le_add_right _ _), F.poll_empty]

/-! ### Frames that start late enough -/

/-- What the frames emit that start at the offset `bound` or later, the first of the list starting at `off`. -/
def startingFrom (bound : ℕ) : ℕ → List (List α × β) → List β
  | _, [] => []
  | off, (f, b) :: fs =>
    if bound ≤ off then b :: startingFrom bound (off + f.length) fs else startingFrom bound (off + f.length) fs

theorem startingFrom_of_le {bound off : ℕ} (h : bound ≤ off) (fs : List (List α × β)) :
    startingFrom bound off fs = fs.map Prod.snd := by
  induction fs generalizing off with
  | nil => rfl
  | cons p fs ih =>
    simp only [startingFrom, if_pos h, ih (Nat.le_add_right_of_le h)]
    rfl

theorem startingFrom_add (n bound off : ℕ) (fs : List (List α × β)) :
    startingFrom (n + bound) (n + off) fs = startingFrom bound off fs := by
  induction fs generalizing off with
  | nil => rfl
  | cons p fs ih =>
    have h : n + bound ≤ n + off ↔ bound ≤ off := by omega
    simp only [startingFrom, h, Nat.add_assoc n off, ih]

theorem startingFrom_suffix {b₁ b₂ : ℕ} (h : b₁ ≤ b₂) (off : ℕ) (fs : List (List α × β)) :
    startingFrom b₂ off fs <:+ startingFrom b₁ off fs := by
  induction fs generalizing off with
  | nil => exact List.suffix_rfl
  | cons p fs ih =>
    simp only [startingFrom]
    by_cases h₂ : b₂ ≤ off
    · rw [if_pos h₂, if_pos (by omega), startingFrom_of_le (by omega), startingFrom_of_le (by omega)]
    · rw [if_neg h₂]
      split
      · exact (ih _).trans (List.suffix_cons _ _)
      · exact ih _

theorem startingFrom_length {bound off : ℕ} {fs : List (List α × β)} (hf : F.AreFrames fs)
    (h : off + (stream fs).length ≤ bound) : startingFrom bound off fs = [] := by
  induction fs generalizing off with
  | nil => rfl
  | cons p fs ih =>
    have hlt := (hf p (by simp)).headSize_lt
    rw [stream_cons, List.length_append] at h
    simp only [startingFrom]
    rw [if_neg (by omega), ih (fun q hq => hf q (by simp [hq])) (by omega)]

variable (F)

/-- No head begins strictly inside a frame of the list. -/
def Clean : List (List α × β) → Prop
  | [] => True
  | p :: fs => (∀ i, 0 < i → i < p.1.length → ¬ F.HeadAt ((p.1 ++ stream fs).drop i)) ∧ Clean fs

variable {F}

theorem decode_inside {p : List α × β} {fs : List (List α × β)} {i : ℕ} (h0 : 0 < i) (hi : i ≤ p.1.length)
    (hc : ∀ i, 0 < i → i < p.1.length → ¬ F.HeadAt ((p.1 ++ stream fs).drop i)) :
    F.decode ((p.1 ++ stream fs).drop i) = F.decode (stream fs) := by
  induction hk : p.1.length - i generalizing i with
  | zero =>
    have : i = p.1.length := by omega
    rw [this, List.drop_left]
  | succ k ih =>
    have hn := hc i h0 (by omega)
    have hlt : i < (p.1 ++ stream fs).length := by simp; omega
    rw [List.drop_eq_getElem_cons hlt] at hn ⊢
    rw [F.decode_skip hn, ih (by omega) (by omega) (by omega)]

/-- From any offset of a clean stream of frames the decoding is what the frames from there on emit. -/
theorem decode_drop_stream {fs : List (List α × β)} (hf : F.AreFrames fs) (hc : F.Clean fs) (e : ℕ) :
    F.decode ((stream fs).drop e) = startingFrom e 0 fs := by
  induction fs generalizing e with
  | nil => simp [startingFrom, F.decode_short (s := []) F.headSize_pos]
  | cons p fs ih =>
    have hfs : F.AreFrames fs := fun q hq => hf q (by simp [hq])
    rcases Nat.eq_zero_or_pos e with rfl | he
    · rw [List.drop_zero, startingFrom_of_le le_rfl, F.decode_stream hf]
    · rw [startingFrom, if_neg (by omega), Nat.zero_add, stream_cons]
      rcases Nat.lt_or_ge e p.1.length with hlt | hge
      · rw [decode_inside he hlt.le hc.1, startingFrom_of_le hlt.le, F.decode_stream hfs]
      · have hdrop : (p.1 ++ stream fs).drop e = (stream fs).drop (e - p.1.length) := by
          rw [List.drop_append, List.drop_eq_nil_of_le hge, List.nil_append]
        rw [hdrop, ih hfs hc.2]
        have := startingFrom_add p.1.length (e - p.1.length) 0 fs
        rw [Nat.add_sub_cancel' hge, Nat.add_zero] at this
        exact this.symm

/-- **Resynchronisation.**  No frame is longer than `L`, and no head begins with the last entry of the noise `g`;
then behind the noise the decoding ends with what the frames emit that start `L - 2` entries after it or later. -/
theorem decode_resync {L : ℕ} (hL : ∀ h, F.headSize + F.bodySize h ≤ L) {fs : List (List α × β)}
    (hf : F.AreFrames fs) (hc : F.Clean fs) (g : List α)
    (hedge : ∀ a, ¬ F.HeadAt (a :: stream fs)) :
    startingFrom (g.length + (L - 2)) g.length fs <:+ F.decode (g ++ stream fs) := by
  rw [show g.length = g.length + 0 by rfl, Nat.add_assoc, startingFrom_add, Nat.zero_add]
  have hpos := F.headSize_pos
  have htail : ∀ e ≤ L - 2, startingFrom (L - 2) 0 fs <:+ F.decode ((stream fs).drop e) := by
    intro e he
    rw [decode_drop_stream hf hc]
    exact startingFrom_suffix he 0 fs
  -- the stream that is left is too short for a frame to start so late
  have hnone : (stream fs).length ≤ L - 2 → startingFrom (L - 2) 0 fs = [] := fun h =>
    startingFrom_length hf (by omega)
  induction hn : g.length using Nat.strongRecOn generalizing g with
  | ind n ih =>
    cases g with
    | nil => exact htail 0 (Nat.zero_le _)
    | cons a g =>
      by_cases hh : F.HeadAt (a :: g ++ stream fs)
      · have hg : g ≠ [] := by
          rintro rfl
          exact hedge a hh
        have hglen : 0 < g.length := List.length_pos_iff.mpr hg
        have hlen : (a :: g ++ stream fs).length = g.length + 1 + (stream fs).length := by simp; omega
        have hsize : F.frameSize (a :: g ++ stream fs) ≤ L := hL _
        have hmpos : 0 < F.frameSize (a :: g ++ stream fs) := Nat.add_pos_left F.headSize_pos _
        rcases Nat.lt_or_ge (a :: g ++ stream fs).length (F.frameSize (a :: g ++ stream fs)) with hb | hb
        · rw [F.decode_headAt_wait hh hb, hnone (by omega)]
        · -- a whole frame begins in the noise, true or false
          rw [F.decode_headAt hh hb]
          refine List.suffix_append_of_suffix ?_
          generalize F.frameSize (a :: g ++ stream fs) = m at hsize hmpos ⊢
          rw [List.drop_append, List.length_cons]
          rcases Nat.lt_or_ge (g.length + 1) m with hlt | hge
          · rw [List.drop_eq_nil_of_le (by simp; omega), List.nil_append]
            exact htail _ (by omega)
          · rw [Nat.sub_eq_zero_of_le hge, List.drop_zero]
            exact ih _ (by simp at hn ⊢; omega) _ rfl
      · rw [List.cons_append] at hh ⊢
        rw [F.decode_skip hh]
        exact ih g.length (by simp at hn; omega) g rfl

end Fr8012haLock.Framing
