import Fr8012haLock.Button.Machine

/-!
# What a press sends, to the millisecond

In a prompt run a timer expires at its time: no time passes and no button changes while one is due.  What the machine
sends for a press is then a function of how long it lasts, and of the clicks before it.
-/

namespace Fr8012haLock.Button

open Runs

/-! ## Prompt runs in which no button changes -/

/-- No timer is due. -/
def Settled (b : Driver) : Prop := b.buttonStateTimer ≠ some 0 ∧ b.buttonPressingTimer ≠ some 0

instance (b : Driver) : Decidable (Settled b) := inferInstanceAs (Decidable (_ ∧ _))

/-- Time does not pass beyond the time of a timer, and a button changes only when no timer is due. -/
def Prompt (b : Driver) : ButtonEvent → Prop
  | .elapse ms => (∀ r ∈ b.buttonStateTimer, ms ≤ r) ∧ ∀ r ∈ b.buttonPressingTimer, ms ≤ r
  | .toggle _ => Settled b
  | _ => True

instance (b : Driver) : ∀ e, Decidable (Prompt b e)
  | .elapse ms =>
    inferInstanceAs (Decidable ((∀ r ∈ b.buttonStateTimer, ms ≤ r) ∧ ∀ r ∈ b.buttonPressingTimer, ms ≤ r))
  | .toggle _ => inferInstanceAs (Decidable (Settled b))
  | .timeout => isTrue trivial
  | .pressingTimeout => isTrue trivial

/-- The button does not change. -/
def ButtonEvent.quiet : ButtonEvent → Bool
  | .toggle _ => false
  | _ => true

def Quiet (es : List ButtonEvent) : Prop := ∀ e ∈ es, e.quiet = true

/-- The time an event takes. -/
def ButtonEvent.ms : ButtonEvent → ℕ
  | .elapse ms => ms
  | _ => 0

/-- The time a list of events takes. -/
def elapsed (es : List ButtonEvent) : ℕ := (es.map (·.ms)).sum

/-- **What time and the timers keep**: a relation between the time since it began and the state. -/
structure Persists (P : ℕ → Driver → Prop) : Prop where
  elapse : ∀ t b ms, P t b → Prompt b (.elapse ms) → P (t + ms) (b.elapse ms)
  timeout : ∀ t b, P t b → b.buttonStateTimer = some 0 → P t (buttonTimeoutHandler b.stopState)
  pressingTimeout : ∀ t b, P t b → b.buttonPressingTimer = some 0 → P t (buttonPressingTimeoutHandler b.stopPressing)

theorem Persists.run {P : ℕ → Driver → Prop} (hP : Persists P) {b b' : Driver} {es : List ButtonEvent} {t : ℕ}
    (h0 : P t b) (hq : Quiet es) (ha : Admits Driver.step Prompt b es) (hr : run Driver.step b es = some b') :
    P (t + elapsed es) b' := by
  induction es generalizing b t with
  | nil =>
    cases hr
    exact h0
  | cons e es ih =>
    obtain ⟨b₁, hs, hr⟩ := Option.bind_eq_some_iff.mp hr
    obtain ⟨hp, ha⟩ := (admits_cons hs).mp ha
    have hq' : Quiet es := by
      intro e he
      exact hq e (List.mem_cons_of_mem _ he)
    have hsum : t + elapsed (e :: es) = t + e.ms + elapsed es := by simp [elapsed, Nat.add_assoc]
    rw [hsum]
    refine ih ?_ hq' ha hr
    obtain ⟨c, rfl, rfl⟩ | ⟨ms, rfl, rfl⟩ | ⟨rfl, ht, rfl⟩ | ⟨rfl, ht, rfl⟩ := step_cases hs
    · exact absurd (hq (.toggle c) (by simp)) (by simp [ButtonEvent.quiet])
    · exact hP.elapse _ _ ms h0 hp
    · exact hP.timeout _ _ h0 ht
    · exact hP.pressingTimeout _ _ h0 ht

/-! ## A button that is held -/

/-- What is said of a combination in place of what is said of one button. -/
def ButtonType.ofComb : ButtonType → ButtonType
  | .pressed => .combPressed
  | .released => .combReleased
  | .shortPressed => .combShortPressed
  | .longPressed => .combLongPressed
  | .longPressing => .combLongPressing
  | .longReleased => .combLongReleased
  | .longLongPressed => .combLongLongPressed
  | .longLongReleased => .combLongLongReleased
  | t => t

/-- The state of a combination in place of that of one button. -/
def WorkingState.ofComb : WorkingState → WorkingState
  | .justPressed => .combJustPressed
  | .pressed => .combPressed
  | .longPressed => .combLongPressed
  | .longLongPressed => .combLongLongPressed
  | s => s

/-- A message about the buttons `c`. -/
def about (c : UInt32) (t : ButtonType) (cnt : UInt8) : ButtonMsg :=
  ⟨c, if c &&& (c - 1) = 0 then t else t.ofComb, cnt⟩

/-- The state for the buttons `c`. -/
def WorkingState.during (s : WorkingState) (c : UInt32) : WorkingState := if c &&& (c - 1) = 0 then s else s.ofComb

/-- The messages of `n` times 300 ms of pressing. -/
def pressings (c : UInt32) (n : ℕ) : List ButtonMsg := List.replicate n (about c .longPressing 0)

section

variable {b : Driver} {c : UInt32}

theorem timeOut_touched (h : b.currentState = WorkingState.justPressed.during c) :
    buttonStatemachines b .timeOut = (b.enter (WorkingState.pressed.during c)).startState longDuring := by
  by_cases hc : c &&& (c - 1) = 0 <;> simp [WorkingState.during, WorkingState.ofComb, hc] at h ⊢ <;> simp [h]

theorem timeOut_pressed (h : b.currentState = WorkingState.pressed.during c) (hb : b.currentPressedButton = c) :
    buttonStatemachines b .timeOut =
      { b with currentState := WorkingState.longPressed.during c, buttonStateTimer := some longLongDuring,
               buttonPressingTimer := some longPressingInterval, pressedCnt := 0,
               sent := b.sent ++ [about c .longPressed b.pressedCnt] } := by
  by_cases hc : c &&& (c - 1) = 0 <;> simp [WorkingState.during, WorkingState.ofComb, hc] at h ⊢ <;>
    simp [h, hb, about, ButtonType.ofComb, hc]

theorem timeOut_long (h : b.currentState = WorkingState.longPressed.during c) (hb : b.currentPressedButton = c) :
    buttonStatemachines b .timeOut =
      { b with currentState := WorkingState.longLongPressed.during c, pressedCnt := 0,
               sent := b.sent ++ [about c .longLongPressed b.pressedCnt] } := by
  by_cases hc : c &&& (c - 1) = 0 <;> simp [WorkingState.during, WorkingState.ofComb, hc] at h ⊢ <;>
    simp [h, hb, about, ButtonType.ofComb, hc]

theorem pressingTimeout_eq (hb : b.currentPressedButton = c) :
    buttonPressingTimeoutHandler b =
      { b with buttonPressingTimer := some longPressingInterval, pressedCnt := 0,
               sent := b.sent ++ [about c .longPressing b.pressedCnt] } := by
  by_cases hc : c &&& (c - 1) = 0 <;> simp [buttonPressingTimeoutHandler, hb, about, ButtonType.ofComb, hc]

end

theorem pressings_succ (c : UInt32) (n : ℕ) : pressings c (n + 1) = pressings c n ++ [about c .longPressing 0] :=
  List.replicate_succ'

/-- The buttons `c` have been down for `t` ms, after `cnt` clicks of them and the messages `ms`. -/
inductive Held (c tbs : UInt32) (cnt : UInt8) (ms : List ButtonMsg) : ℕ → Driver → Prop where
  | touched {t r : ℕ} (hr : t + r = 80) :
    Held c tbs cnt ms t ⟨WorkingState.justPressed.during c, none, some r, c, c, tbs, cnt, ms⟩
  | pressed {t r : ℕ} (hr : t + r = 2000) (hr' : r ≤ 1920) :
    Held c tbs cnt ms t ⟨WorkingState.pressed.during c, none, some r, c, c, tbs, cnt, ms⟩
  | long {t r q n : ℕ} (hr : t + r = 4000) (hr' : r ≤ 2000) (hq : t + q = 2300 + 300 * n) (hq' : q ≤ 300) :
    Held c tbs cnt ms t ⟨WorkingState.longPressed.during c, some q, some r, c, c, tbs, 0,
      ms ++ about c .longPressed cnt :: pressings c n⟩
  | longLong {t q n : ℕ} (ht : 4000 ≤ t) (hq : t + q = 4100 + 300 * n) (hq' : q ≤ 300) :
    Held c tbs cnt ms t ⟨WorkingState.longLongPressed.during c, some q, none, c, c, tbs, 0,
      ms ++ about c .longPressed cnt :: pressings c 6 ++ about c .longLongPressed 0 :: pressings c n⟩

theorem held_persists (c tbs : UInt32) (cnt : UInt8) (ms : List ButtonMsg) : Persists (Held c tbs cnt ms) where
  elapse t b d hb hp := by
    cases hb with
    | @touched r hr =>
      have hd : d ≤ r := hp.1 r rfl
      exact .touched (r := r - d) (by omega)
    | @pressed r hr hr' =>
      have hd : d ≤ r := hp.1 r rfl
      exact .pressed (r := r - d) (by omega) (by omega)
    | @long r q n hr hr' hq hq' =>
      have hd : d ≤ r := hp.1 r rfl
      have hd' : d ≤ q := hp.2 q rfl
      exact .long (r := r - d) (q := q - d) (by omega) (by omega) (by omega) (by omega)
    | @longLong q n ht hq hq' =>
      have hd' : d ≤ q := hp.2 q rfl
      exact .longLong (q := q - d) (by omega) (by omega) (by omega)
  timeout t b hb ht0 := by
    unfold buttonTimeoutHandler
    cases hb with
    | @touched r hr =>
      obtain rfl : r = 0 := Option.some.inj ht0
      rw [timeOut_touched (c := c) rfl]
      exact .pressed (r := 1920) (by omega) (by omega)
    | @pressed r hr hr' =>
      obtain rfl : r = 0 := Option.some.inj ht0
      rw [timeOut_pressed (c := c) rfl rfl]
      exact .long (r := 2000) (q := 300) (n := 0) (by omega) (by omega) (by omega) (by omega)
    | @long r q n hr hr' hq hq' =>
      obtain rfl : r = 0 := Option.some.inj ht0
      obtain rfl : n = 6 := by omega
      rw [timeOut_long (c := c) rfl rfl]
      exact .longLong (q := q) (n := 0) (by omega) (by omega) (by omega)
    | longLong ht hq hq' => cases ht0
  pressingTimeout t b hb ht0 := by
    cases hb with
    | touched hr => cases ht0
    | pressed hr hr' => cases ht0
    | @long r q n hr hr' hq hq' =>
      obtain rfl : q = 0 := Option.some.inj ht0
      rw [pressingTimeout_eq (c := c) rfl]
      have : Held c tbs cnt ms t _ := .long (r := r) (q := 300) (n := n + 1) hr hr' (by omega) (by omega)
      simpa [pressings_succ, longPressingInterval] using this
    | @longLong q n ht hq hq' =>
      obtain rfl : q = 0 := Option.some.inj ht0
      rw [pressingTimeout_eq (c := c) rfl]
      have : Held c tbs cnt ms t _ := .longLong (q := 300) (n := n + 1) ht (by omega) (by omega)
      simpa [pressings_succ c n, longPressingInterval] using this

/-- What is sent while the buttons are down for `t` ms, after `cnt` clicks. -/
def heldMessages (c : UInt32) (cnt : UInt8) (t : ℕ) : List ButtonMsg :=
  if t < 2000 then []
  else if t < 4000 then about c .longPressed cnt :: pressings c ((t - 2000) / 300)
  else about c .longPressed cnt :: pressings c 6 ++ about c .longLongPressed 0 :: pressings c ((t - 3800) / 300)

/-- The time the buttons are down for a click of one of them. -/
def ClickTime (t : ℕ) : Prop := 80 ≤ t ∧ t < 2000

/-- What is sent when they are let go after `t` ms, if not at once. -/
def lastMessage (c : UInt32) (cnt : UInt8) (t : ℕ) : ButtonMsg :=
  if t < 80 then about c .released cnt
  else if t < 2000 then
    if c &&& (c - 1) = 0 then ⟨c, clickType (cnt + 1), cnt + 1⟩ else about c .shortPressed cnt
  else if t < 4000 then about c .longReleased 0
  else about c .longLongReleased 0

section

variable {c tbs : UInt32} {cnt : UInt8} {ms : List ButtonMsg} {t : ℕ} {b : Driver}

/-- The machine is idle and nothing is due. -/
def Rests (ms : List ButtonMsg) (b : Driver) : Prop := ∃ toBeSend, b = ⟨.idle, none, none, 0, 0, toBeSend, 0, ms⟩

/-- After `cnt` clicks of `c` the buttons have been up for `t` ms. -/
inductive Waiting (c : UInt32) (cnt : UInt8) (ms : List ButtonMsg) : ℕ → Driver → Prop where
  | waiting {t r : ℕ} (hr : t + r = 200) : Waiting c cnt ms t ⟨.waitMulti, none, some r, 0, 0, c, cnt, ms⟩
  | finished {t : ℕ} (ht : 200 ≤ t) :
    Waiting c cnt ms t ⟨.idle, none, none, 0, 0, c, 0, ms ++ [⟨c, clickType cnt, cnt⟩]⟩

theorem waiting_persists (c : UInt32) (cnt : UInt8) (ms : List ButtonMsg) : Persists (Waiting c cnt ms) where
  elapse t b d hb hp := by
    cases hb with
    | @waiting r hr =>
      have hd : d ≤ r := hp.1 r rfl
      exact .waiting (r := r - d) (by omega)
    | finished ht => exact .finished (by omega)
  timeout t b hb ht0 := by
    cases hb with
    | @waiting r hr =>
      obtain rfl : r = 0 := Option.some.inj ht0
      exact .finished (by omega)
    | finished ht => cases ht0
  pressingTimeout t b hb ht0 := by
    cases hb with
    | waiting hr => cases ht0
    | finished ht => cases ht0

theorem rests_persists (ms : List ButtonMsg) : Persists (fun _ => Rests ms) where
  elapse := by
    rintro t b d ⟨toBeSend, rfl⟩ -
    exact ⟨toBeSend, rfl⟩
  timeout := by
    rintro t b ⟨toBeSend, rfl⟩ ht0
    cases ht0
  pressingTimeout := by
    rintro t b ⟨toBeSend, rfl⟩ ht0
    cases ht0

theorem Held.click (h : Held c tbs cnt ms t b) (hs : Settled b) (hc : IsSingle c) (ht : ClickTime t) :
    Waiting c (cnt + 1) ms 0 (buttonToggleHandler b 0) := by
  have hone := (and_sub_one_eq_zero hc.ne_zero).mpr hc
  obtain ⟨h80, h2000⟩ := ht
  cases h with
  | @touched r hr =>
    obtain rfl : r = 0 := by omega
    exact absurd rfl hs.1
  | @pressed r hr hr' =>
    have : Waiting c (cnt + 1) ms 0 _ := .waiting (r := 200) rfl
    simpa [buttonToggleHandler, toggleEvent, WorkingState.during, hone, hc.ne_zero, multiInterval] using this
  | long hr hr' hq hq' => omega
  | longLong ht hq hq' => omega

attribute [local simp] Rests heldMessages lastMessage buttonToggleHandler toggleEvent WorkingState.during
  WorkingState.ofComb about ButtonType.ofComb

theorem Held.letGo (h : Held c tbs cnt ms t b) (hs : Settled b) (hc : c ≠ 0)
    (hn : ¬ (IsSingle c ∧ ClickTime t)) :
    Rests (ms ++ heldMessages c cnt t ++ [lastMessage c cnt t]) (buttonToggleHandler b 0) := by
  rw [← and_sub_one_eq_zero hc] at hn
  cases h with
  | @touched r hr =>
    have hr0 : r ≠ 0 := by
      rintro rfl
      exact hs.1 rfl
    have h80 : t < 80 := by omega
    have h2000 : t < 2000 := by omega
    by_cases hone : c &&& (c - 1) = 0 <;> simp [hone, hc, h80, h2000]
  | @pressed r hr hr' =>
    have hr0 : r ≠ 0 := by
      rintro rfl
      exact hs.1 rfl
    have h80 : ¬ t < 80 := by omega
    have h2000 : t < 2000 := by omega
    have hone : ¬ c &&& (c - 1) = 0 := by
      intro hone
      exact hn ⟨hone, by omega, by omega⟩
    simp [hone, hc, h80, h2000]
  | @long r q n hr hr' hq hq' =>
    have hr0 : r ≠ 0 := by
      rintro rfl
      exact hs.1 rfl
    have hq0 : q ≠ 0 := by
      rintro rfl
      exact hs.2 rfl
    have h80 : ¬ t < 80 := by omega
    have h2000 : ¬ t < 2000 := by omega
    have h4000 : t < 4000 := by omega
    have hn : (t - 2000) / 300 = n := by omega
    by_cases hone : c &&& (c - 1) = 0 <;> simp [hone, hc, hn, h80, h2000, h4000]
  | @longLong q n ht hq hq' =>
    have hq0 : q ≠ 0 := by
      rintro rfl
      exact hs.2 rfl
    have h80 : ¬ t < 80 := by omega
    have h2000 : ¬ t < 2000 := by omega
    have h4000 : ¬ t < 4000 := by omega
    have hn : (t - 3800) / 300 = n := by omega
    by_cases hone : c &&& (c - 1) = 0 <;> simp [hone, hc, hn, h80, h2000, h4000]

theorem held_of_press (h : Consistent b) (hi : b.currentState = .idle) (hc : c ≠ 0) :
    Held c b.buttonToBeSend 0 (b.sent ++ [about c .pressed 0]) 0 (buttonToggleHandler b c) := by
  obtain ⟨hst, hpt, -, hdown, -, -, hcnt, -⟩ := h
  obtain ⟨st, pt, tm, cur, last, tbs, cnt, sent⟩ := b
  dsimp only at hi hst hpt hdown hcnt
  subst hi
  simp at hst hpt hdown hcnt
  subst hst hpt hdown hcnt
  have : Held c tbs 0 (sent ++ [about c .pressed 0]) 0 _ := .touched (r := 80) rfl
  by_cases hone : c &&& (c - 1) = 0 <;> simpa [hone, hc, hc.symm, shortDuring] using this

/-- Another press of the same button while clicks are counted. -/
theorem Waiting.press (h : Waiting c cnt ms t b) (ht : t < 200) (hc : IsSingle c) :
    Held c c cnt ms 0 (buttonToggleHandler b c) := by
  have hone := (and_sub_one_eq_zero hc.ne_zero).mpr hc
  cases h with
  | waiting hr =>
    have : Held c c cnt ms 0 _ := .touched (r := 80) rfl
    simpa [hone, hc.ne_zero, hc.ne_zero.symm, shortDuring] using this
  | finished ht' => omega

end

/-! ## Presses one after another -/

/-- The buttons `c` are pressed, and let go: what happens while they are down, and after it. -/
structure Press where
  hold : List ButtonEvent
  rest : List ButtonEvent

def Press.events (c : UInt32) (k : Press) : List ButtonEvent := .toggle c :: k.hold ++ .toggle 0 :: k.rest

/-- No button changes besides. -/
def Press.Quiet (k : Press) : Prop := Button.Quiet k.hold ∧ Button.Quiet k.rest

/-- A click that another one follows in time. -/
def Press.IsClick (k : Press) : Prop := k.Quiet ∧ ClickTime (elapsed k.hold) ∧ elapsed k.rest < 200

/-- What a press of `t` ms sends after `n` clicks. -/
def gesture (c : UInt32) (n t : ℕ) : List ButtonMsg :=
  about c .pressed 0 :: heldMessages c (UInt8.ofNat n) t ++ [lastMessage c (UInt8.ofNat n) t]

theorem press_parts {b b' : Driver} {c : UInt32} {k : Press} {es : List ButtonEvent}
    (ha : Admits Driver.step Prompt b (k.events c ++ es)) (hr : run Driver.step b (k.events c ++ es) = some b') :
    ∃ b₁ b₂, (Admits Driver.step Prompt (buttonToggleHandler b c) k.hold ∧
        run Driver.step (buttonToggleHandler b c) k.hold = some b₁) ∧ Settled b₁ ∧
      (Admits Driver.step Prompt (buttonToggleHandler b₁ 0) k.rest ∧
        run Driver.step (buttonToggleHandler b₁ 0) k.rest = some b₂) ∧
      Admits Driver.step Prompt b₂ es ∧ run Driver.step b₂ es = some b' := by
  have hev : k.events c ++ es = .toggle c :: (k.hold ++ .toggle 0 :: (k.rest ++ es)) := by simp [Press.events]
  have hs : b.step (.toggle c) = some (buttonToggleHandler b c) := rfl
  rw [hev] at ha hr
  rw [run_cons hs] at hr
  obtain ⟨b₁, hr₁, hr⟩ := run_append_eq_some.mp hr
  obtain ⟨ha₁, ha⟩ := ((admits_cons hs).mp ha).2.append hr₁
  have hs₁ : b₁.step (.toggle 0) = some (buttonToggleHandler b₁ 0) := rfl
  rw [run_cons hs₁] at hr
  obtain ⟨hset, ha⟩ := (admits_cons hs₁).mp ha
  obtain ⟨b₂, hr₂, hr⟩ := run_append_eq_some.mp hr
  obtain ⟨ha₂, ha⟩ := ha.append hr₂
  exact ⟨b₁, b₂, ⟨ha₁, hr₁⟩, hset, ⟨ha₂, hr₂⟩, ha, hr⟩

/-- Where clicks of `c` are counted, or the machine is idle before the first. -/
inductive Counting (c : UInt32) (sent : List ButtonMsg) : ℕ → Driver → Prop where
  | first {b : Driver} (h : Consistent b) (hi : b.currentState = .idle) (hs : b.sent = sent) : Counting c sent 0 b
  | again {b : Driver} {n t : ℕ} (h : Waiting c (UInt8.ofNat n) (sent ++ [about c .pressed 0]) t b) (ht : t < 200)
    (hc : IsSingle c) : Counting c sent n b

theorem Counting.held {c : UInt32} {sent : List ButtonMsg} {n : ℕ} {b : Driver} (h : Counting c sent n b)
    (hc : c ≠ 0) :
    ∃ toBeSend, Held c toBeSend (UInt8.ofNat n) (sent ++ [about c .pressed 0]) 0 (buttonToggleHandler b c) := by
  cases h with
  | first h hi hs => exact ⟨_, hs ▸ held_of_press h hi hc⟩
  | again h ht hc => exact ⟨_, h.press ht hc⟩

theorem Counting.click {c : UInt32} {sent : List ButtonMsg} {n : ℕ} {b b' : Driver} {k : Press} {es : List ButtonEvent}
    (h : Counting c sent n b) (hc : IsSingle c) (hk : k.IsClick)
    (ha : Admits Driver.step Prompt b (k.events c ++ es)) (hr : run Driver.step b (k.events c ++ es) = some b') :
    ∃ b₂, Counting c sent (n + 1) b₂ ∧ Admits Driver.step Prompt b₂ es ∧ run Driver.step b₂ es = some b' := by
  obtain ⟨b₁, b₂, ⟨ha₁, hr₁⟩, hset, ⟨ha₂, hr₂⟩, ha', hr'⟩ := press_parts ha hr
  obtain ⟨⟨hq, hq'⟩, hhold, hrest⟩ := hk
  obtain ⟨toBeSend, hheld⟩ := h.held hc.ne_zero
  have h₁ := (held_persists _ _ _ _).run hheld hq ha₁ hr₁
  rw [Nat.zero_add] at h₁
  have h₂ := (waiting_persists _ _ _).run (h₁.click hset hc hhold) hq' ha₂ hr₂
  have hn : UInt8.ofNat n + 1 = UInt8.ofNat (n + 1) := by simp
  rw [Nat.zero_add, hn] at h₂
  exact ⟨b₂, .again h₂ hrest hc, ha', hr'⟩

theorem Counting.clicks {c : UInt32} {sent : List ButtonMsg} {ks : List Press} {es : List ButtonEvent}
    (hc : ks = [] ∨ IsSingle c) (hks : ∀ k ∈ ks, k.IsClick) {n : ℕ} {b b' : Driver} (h : Counting c sent n b)
    (ha : Admits Driver.step Prompt b (ks.flatMap (Press.events c) ++ es))
    (hr : run Driver.step b (ks.flatMap (Press.events c) ++ es) = some b') :
    ∃ b₂, Counting c sent (n + ks.length) b₂ ∧ Admits Driver.step Prompt b₂ es ∧ run Driver.step b₂ es = some b' := by
  induction ks generalizing n b with
  | nil => exact ⟨b, h, ha, hr⟩
  | cons k ks ih =>
    have hs : IsSingle c := hc.resolve_left (List.cons_ne_nil _ _)
    rw [List.flatMap_cons, List.append_assoc] at ha hr
    obtain ⟨b₂, h₂, ha₂, hr₂⟩ := h.click hs (hks k (List.mem_cons_self)) ha hr
    have hlen : n + (k :: ks).length = n + 1 + ks.length := by
      rw [List.length_cons]
      omega
    rw [hlen]
    apply ih (.inr hs) _ h₂ ha₂ hr₂
    intro k hk
    exact hks k (List.mem_cons_of_mem _ hk)

/-- **What presses send, to the millisecond.**  From idle, in a prompt run: `ks` clicks of one button, each held from 80
to 2000 ms and followed by the next in less than 200 ms, then a press of any length.  More than 200 ms after it the
machine is idle again and has sent what `gesture` says: one message for the first press, for the last one the messages
of its length with the number of clicks, and for the clicks between no message at all.  The number wraps at 256. -/
theorem presses_send {b b' : Driver} {c : UInt32} {ks : List Press} {k : Press} (hb : Consistent b)
    (hi : b.currentState = .idle) (hc : c ≠ 0) (hs : ks = [] ∨ IsSingle c) (hks : ∀ k ∈ ks, k.IsClick)
    (hq : k.Quiet) (hrest : 200 < elapsed k.rest)
    (ha : Admits Driver.step Prompt b (ks.flatMap (Press.events c) ++ k.events c))
    (hr : run Driver.step b (ks.flatMap (Press.events c) ++ k.events c) = some b') :
    b'.currentState = .idle ∧ b'.sent = b.sent ++ gesture c ks.length (elapsed k.hold) := by
  obtain ⟨b₀, h₀, ha₀, hr₀⟩ := (Counting.first hb hi rfl).clicks hs hks ha hr
  rw [Nat.zero_add] at h₀
  rw [← List.append_nil (k.events c)] at ha₀ hr₀
  obtain ⟨b₁, b₂, ⟨ha₁, hr₁⟩, hset, ⟨ha₂, hr₂⟩, -, hr'⟩ := press_parts ha₀ hr₀
  cases hr'
  obtain ⟨toBeSend, hheld⟩ := h₀.held hc
  have h₁ := (held_persists _ _ _ _).run hheld hq.1 ha₁ hr₁
  rw [Nat.zero_add] at h₁
  by_cases hclick : IsSingle c ∧ ClickTime (elapsed k.hold)
  · have h₂ := (waiting_persists _ _ _).run (h₁.click hset hclick.1 hclick.2) hq.2 ha₂ hr₂
    rw [Nat.zero_add] at h₂
    have hone := (and_sub_one_eq_zero hc).mpr hclick.1
    obtain ⟨h80, h2000⟩ := hclick.2
    cases h₂ with
    | waiting hw => omega
    | finished hw =>
      refine ⟨rfl, ?_⟩
      simp [gesture, heldMessages, lastMessage, hone, h2000, Nat.not_lt.mpr h80]
  · obtain ⟨toBeSend', rfl⟩ :=
      (rests_persists _).run (t := 0) (h₁.letGo hset hc hclick) hq.2 ha₂ hr₂
    exact ⟨rfl, by simp [gesture]⟩

/-- A double click. -/
def doubleClick : List Press × Press :=
  ([⟨[.elapse 80, .timeout, .elapse 20], [.elapse 100]⟩],
    ⟨[.elapse 80, .timeout, .elapse 50], [.elapse 200, .timeout, .elapse 1]⟩)

theorem presses_send_doubleClick :
    ∃ b', run Driver.step {} (doubleClick.1.flatMap (Press.events 1) ++ doubleClick.2.events 1) = some b' ∧
      b'.currentState = .idle ∧ b'.sent = [⟨1, .pressed, 0⟩, ⟨1, .multiPressed, 2⟩] := by
  have hs : doubleClick.1 = [] ∨ IsSingle 1 := .inr ⟨0, rfl⟩
  have hks : ∀ k ∈ doubleClick.1, k.IsClick := by
    simp [doubleClick, Press.IsClick, Press.Quiet, Quiet, ButtonEvent.quiet, ClickTime, elapsed, ButtonEvent.ms]
  have hq : doubleClick.2.Quiet := by simp [doubleClick, Press.Quiet, Quiet, ButtonEvent.quiet]
  exact ⟨_, rfl, presses_send consistent_init rfl (by decide) hs hks hq (by decide) (by decide) rfl⟩

example : gesture 1 255 100 = [⟨1, .pressed, 0⟩, ⟨1, .shortPressed, 0⟩] := by decide

end Fr8012haLock.Button
