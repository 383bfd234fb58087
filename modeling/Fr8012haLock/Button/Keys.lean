import Fr8012haLock.Button.Machine

/-!
# From the pins to the buttons

The PMU interrupts when a pin of port A has changed (`pmu_gpio_isr_ram` in `proj_main.c`).  A pin that is low is a
button that is down.  `button_toggle_detected` waits for the pins to be quiet for 10 ms; what they are at then is posted
to the task of the buttons, which runs the machine.

* `messages_debounced`: every message names buttons that the pins have shown down for 10 ms on end;
* `buttons_follow_pins`: 10 ms after the last interrupt the machine holds down what the pins show down.
-/

namespace Fr8012haLock.Button

open Runs

/-! ## The driver with its pins -/

structure Keys where
  /-- `PMU_REG_GPIOA_V`, what the pins are at -/
  gpioA : UInt32
  /-- `PMU_REG_PORTA_LAST`, what they were at in the last interrupt -/
  portALast : UInt32
  buttonIoMask : UInt32
  currButtonBeforeAntiShake : UInt32 := 0
  buttonAntiShakeTimer : OsTimer := none
  /-- the messages `BUTTON_TOGGLE` that the task has not handled -/
  toggles : List UInt32 := []
  button : Driver := {}
  deriving DecidableEq, Repr

/-- `button_init(enable_io)`, with the pins at `level`. -/
def buttonInit (level enableIo : UInt32) : Keys := { gpioA := level, portALast := level, buttonIoMask := enableIo }

def buttonToggleDetected (k : Keys) (currButton : UInt32) : Keys :=
  if k.buttonIoMask ≠ 0 then
    { k with currButtonBeforeAntiShake := currButton &&& k.buttonIoMask, buttonAntiShakeTimer := some 10 }
  else k

def pmuGpioIsrRam (k : Keys) : Keys :=
  let gpioValue := k.gpioA
  let k := buttonToggleDetected k gpioValue
  { k with portALast := gpioValue }

def buttonAntiShakeTimeoutHandler (k : Keys) : Keys :=
  let currButton := k.gpioA &&& k.buttonIoMask
  if currButton = k.currButtonBeforeAntiShake then { k with toggles := k.toggles ++ [currButton ^^^ k.buttonIoMask] }
  else k

/-- The pins change, the PMU interrupts, time passes, a timer expires, or the task handles a message. -/
inductive KeysEvent where
  | pins (level : UInt32)
  | isr
  | elapse (ms : ℕ)
  | antiShakeTimeout
  | task
  | timeout
  | pressingTimeout
  deriving DecidableEq, Repr

def Keys.step (k : Keys) : KeysEvent → Option Keys
  | .pins level => some { k with gpioA := level }
  | .isr => some (pmuGpioIsrRam k)
  | .elapse ms =>
    some { k with buttonAntiShakeTimer := OsTimer.elapse k.buttonAntiShakeTimer ms, button := k.button.elapse ms }
  | .antiShakeTimeout =>
    if k.buttonAntiShakeTimer = some 0 then some (buttonAntiShakeTimeoutHandler { k with buttonAntiShakeTimer := none })
    else none
  | .task =>
    match k.toggles with
    | [] => none
    | currButton :: toggles => some { k with toggles := toggles, button := buttonToggleHandler k.button currButton }
  | .timeout => (k.button.step .timeout).map fun button => { k with button := button }
  | .pressingTimeout => (k.button.step .pressingTimeout).map fun button => { k with button := button }

/-- The interrupt is served before any time passes. -/
def Served (k : Keys) : KeysEvent → Prop
  | .elapse _ => k.gpioA = k.portALast
  | _ => True

instance (k : Keys) : ∀ e, Decidable (Served k e)
  | .elapse _ => inferInstanceAs (Decidable (k.gpioA = k.portALast))
  | .pins _ => isTrue trivial
  | .isr => isTrue trivial
  | .antiShakeTimeout => isTrue trivial
  | .task => isTrue trivial
  | .timeout => isTrue trivial
  | .pressingTimeout => isTrue trivial

/-! ## What the pins were at -/

/-- What somebody at the pins writes down: the level, and the level of every millisecond so far. -/
def watch : UInt32 × List UInt32 → KeysEvent → UInt32 × List UInt32
  | (_, past), .pins level => (level, past)
  | (level, past), .elapse ms => (level, past ++ List.replicate ms level)
  | w, _ => w

/-- The level of every millisecond of a list of events, when it is `level` before. -/
def timeline (level : UInt32) (es : List KeysEvent) : List UInt32 := (es.foldl watch (level, [])).2

/-- At some time in `es` the pins had shown the buttons of `mask` in `c`, and no others, down for 10 ms on end. -/
def Debounced (level mask : UInt32) (es : List KeysEvent) (c : UInt32) : Prop :=
  ∃ es₁, es₁ <+: es ∧ ∃ l, List.replicate 10 l <:+ timeline level es₁ ∧ c = (l &&& mask) ^^^ mask

theorem Debounced.append {level mask c : UInt32} {es : List KeysEvent} (h : Debounced level mask es c)
    (fs : List KeysEvent) : Debounced level mask (es ++ fs) c := by
  obtain ⟨es₁, hp, h⟩ := h
  exact ⟨es₁, hp.trans (List.prefix_append _ _), h⟩

/-! ## What the machine names -/

/-- All buttons the machine speaks of are in `S`. -/
structure Names (S : Set UInt32) (b : Driver) : Prop where
  current : b.currentPressedButton ∈ S
  lastSaved : b.lastSavedButton ∈ S
  toBeSend : b.buttonToBeSend ∈ S
  sent : b.sent.Forall fun m => m.buttonIndex ∈ S

theorem Names.statemachines {S : Set UInt32} {b : Driver} (h : Names S b) (e : WorkingEvent) :
    Names S (buttonStatemachines b e) := by
  obtain ⟨hcur, hlast, htbs, hsent⟩ := h
  obtain ⟨st, pt, tm, cur, last, tbs, cnt, sent⟩ := b
  dsimp only at hcur hlast htbs hsent
  cases st <;> cases e
  case waitMulti.singlePressed => by_cases ht : cur = tbs <;> constructor <;> simp [*]
  all_goals constructor <;> simp [*]

theorem Names.toggle {S : Set UInt32} {b : Driver} (h : Names S b) {c : UInt32} (hc : c ∈ S) :
    Names S (buttonToggleHandler b c) := by
  obtain ⟨hcur, hlast, htbs, hsent⟩ := h
  have h' : Names S { b with currentPressedButton := c } := ⟨hc, hlast, htbs, hsent⟩
  unfold buttonToggleHandler
  dsimp only
  split
  · obtain ⟨hcur', -, htbs', hsent'⟩ := h'.statemachines (toggleEvent c)
    exact ⟨hcur', hcur', htbs', hsent'⟩
  · exact h'

theorem Names.pressingTimeout {S : Set UInt32} {b : Driver} (h : Names S b) :
    Names S (buttonPressingTimeoutHandler b) := by
  obtain ⟨hcur, hlast, htbs, hsent⟩ := h
  constructor <;> simp [buttonPressingTimeoutHandler, *]

theorem Names.mono {S T : Set UInt32} {b : Driver} (h : Names S b) (hST : S ⊆ T) : Names T b :=
  ⟨hST h.current, hST h.lastSaved, hST h.toBeSend, h.sent.imp fun _ hm => hST hm⟩

theorem Names.step {S : Set UInt32} {b b' : Driver} {e : ButtonEvent} (h : Names S b)
    (he : ∀ c, e = .toggle c → c ∈ S) (hs : b.step e = some b') : Names S b' := by
  obtain ⟨c, rfl, rfl⟩ | ⟨ms, rfl, rfl⟩ | ⟨rfl, ht, rfl⟩ | ⟨rfl, ht, rfl⟩ := step_cases hs
  · exact h.toggle (he c rfl)
  · obtain ⟨hcur, hlast, htbs, hsent⟩ := h
    exact ⟨hcur, hlast, htbs, hsent⟩
  · obtain ⟨hcur, hlast, htbs, hsent⟩ := h
    exact (Names.mk hcur hlast htbs hsent : Names S b.stopState).statemachines _
  · obtain ⟨hcur, hlast, htbs, hsent⟩ := h
    exact (Names.mk hcur hlast htbs hsent : Names S b.stopPressing).pressingTimeout

theorem Promises.ne_zero {button : UInt32} {cnt : UInt8} {t : ButtonType} (h : Promises button cnt t) :
    button ≠ 0 := by
  cases t
  case pressed | longPressing => exact h.1.ne_zero
  case released | longPressed => exact h
  case shortPressed | multiPressed | longReleased | longLongPressed | longLongReleased => exact h.1
  case combPressed => exact h.1
  all_goals exact h.1.1

/-! ## The anti-shake timer -/

theorem keys_step_cases {k k' : Keys} {e : KeysEvent} (h : k.step e = some k') :
    (∃ level, e = .pins level ∧ k' = { k with gpioA := level }) ∨ (e = .isr ∧ k' = pmuGpioIsrRam k) ∨
      (∃ ms, e = .elapse ms ∧
        k' = { k with buttonAntiShakeTimer := OsTimer.elapse k.buttonAntiShakeTimer ms, button := k.button.elapse ms }) ∨
      (e = .antiShakeTimeout ∧ k.buttonAntiShakeTimer = some 0 ∧
        k' = buttonAntiShakeTimeoutHandler { k with buttonAntiShakeTimer := none }) ∨
      (∃ c toggles, e = .task ∧ k.toggles = c :: toggles ∧
        k' = { k with toggles := toggles, button := buttonToggleHandler k.button c }) ∨
      (e = .timeout ∧ ∃ b, k.button.step .timeout = some b ∧ k' = { k with button := b }) ∨
      e = .pressingTimeout ∧ ∃ b, k.button.step .pressingTimeout = some b ∧ k' = { k with button := b } := by
  cases e with
  | pins level =>
    cases h
    exact .inl ⟨level, rfl, rfl⟩
  | isr =>
    cases h
    exact .inr (.inl ⟨rfl, rfl⟩)
  | elapse ms =>
    cases h
    exact .inr (.inr (.inl ⟨ms, rfl, rfl⟩))
  | antiShakeTimeout =>
    simp only [Keys.step] at h
    split at h
    · cases h
      exact .inr (.inr (.inr (.inl ⟨rfl, ‹_›, rfl⟩)))
    · cases h
  | task =>
    simp only [Keys.step] at h
    split at h
    · cases h
    · cases h
      exact .inr (.inr (.inr (.inr (.inl ⟨_, _, rfl, ‹_›, rfl⟩))))
  | timeout =>
    obtain ⟨b, hb, rfl⟩ := Option.map_eq_some_iff.mp h
    exact .inr (.inr (.inr (.inr (.inr (.inl ⟨rfl, b, hb, rfl⟩)))))
  | pressingTimeout =>
    obtain ⟨b, hb, rfl⟩ := Option.map_eq_some_iff.mp h
    exact .inr (.inr (.inr (.inr (.inr (.inr ⟨rfl, b, hb, rfl⟩)))))

@[simp] theorem pmuGpioIsrRam_button (k : Keys) : (pmuGpioIsrRam k).button = k.button := by
  unfold pmuGpioIsrRam buttonToggleDetected
  split <;> rfl

@[simp] theorem buttonAntiShakeTimeoutHandler_button (k : Keys) :
    (buttonAntiShakeTimeoutHandler k).button = k.button := by
  unfold buttonAntiShakeTimeoutHandler
  dsimp only
  split <;> rfl

theorem button_step {k k' : Keys} {e : KeysEvent} (h : k.step e = some k') :
    k'.button = k.button ∨ ∃ e', k.button.step e' = some k'.button := by
  obtain ⟨level, rfl, rfl⟩ | ⟨rfl, rfl⟩ | ⟨ms, rfl, rfl⟩ | ⟨rfl, ht, rfl⟩ | ⟨c, toggles, rfl, hc, rfl⟩ |
    ⟨rfl, b, hb, rfl⟩ | ⟨rfl, b, hb, rfl⟩ := keys_step_cases h
  · exact .inl rfl
  · exact .inl (pmuGpioIsrRam_button k)
  · exact .inr ⟨.elapse ms, rfl⟩
  · exact .inl (buttonAntiShakeTimeoutHandler_button _)
  · exact .inr ⟨.toggle c, rfl⟩
  · exact .inr ⟨.timeout, hb⟩
  · exact .inr ⟨.pressingTimeout, hb⟩

/-- The anti-shake timer knows how long the pins have been as they were in the last interrupt, and everything that was
posted, handled or named is debounced. -/
structure Shielded (level mask : UInt32) (es : List KeysEvent) (k : Keys) : Prop where
  gpioA : (es.foldl watch (level, [])).1 = k.gpioA
  ioMask : k.buttonIoMask = mask
  off : mask = 0 → k.buttonAntiShakeTimer = none
  timer : ∀ r, k.buttonAntiShakeTimer = some r → r ≤ 10 ∧ k.currButtonBeforeAntiShake = k.portALast &&& mask ∧
    List.replicate (10 - r) k.portALast <:+ timeline level es
  toggles : ∀ c ∈ k.toggles, Debounced level mask es c
  names : Names {c | c = 0 ∨ Debounced level mask es c} k.button

theorem timeline_snoc (level : UInt32) (es : List KeysEvent) (e : KeysEvent) :
    timeline level (es ++ [e]) = (watch (es.foldl watch (level, [])) e).2 := by
  rw [timeline, List.foldl_append]
  rfl

theorem names_append {level mask : UInt32} {es : List KeysEvent} {b : Driver}
    (h : Names {c | c = 0 ∨ Debounced level mask es c} b) (fs : List KeysEvent) :
    Names {c | c = 0 ∨ Debounced level mask (es ++ fs) c} b :=
  h.mono fun _ hc => hc.imp_right fun hc => hc.append fs

theorem Shielded.step {level mask : UInt32} {es : List KeysEvent} {k k' : Keys} {e : KeysEvent}
    (h : Shielded level mask es k) (hs : Served k e) (hk : k.step e = some k') : Shielded level mask (es ++ [e]) k' := by
  obtain ⟨hgpio, hmask, hoff, htimer, htoggles, hnames⟩ := h
  have hnames' := names_append hnames [e]
  have htoggles' : ∀ c ∈ k.toggles, Debounced level mask (es ++ [e]) c := by
    intro c hc
    exact (htoggles c hc).append [e]
  have hsnoc := timeline_snoc level es e
  have hfold : ((es ++ [e]).foldl watch (level, [])).1 = (watch (es.foldl watch (level, [])) e).1 := by
    rw [List.foldl_append]
    rfl
  obtain ⟨l, rfl, rfl⟩ | ⟨rfl, rfl⟩ | ⟨ms, rfl, rfl⟩ | ⟨rfl, ht, rfl⟩ | ⟨c, toggles, rfl, hc, rfl⟩ | ⟨rfl, b, hb, rfl⟩ |
    ⟨rfl, b, hb, rfl⟩ := keys_step_cases hk
  · exact ⟨hfold, hmask, hoff, by rwa [hsnoc], htoggles', hnames'⟩
  · unfold pmuGpioIsrRam buttonToggleDetected
    dsimp only
    split
    · rename_i h0
      refine ⟨hfold.trans hgpio, hmask, ?_, ?_, htoggles', hnames'⟩
      · intro h
        exact absurd (hmask.trans h) h0
      · rintro r hr
        cases hr
        exact ⟨le_rfl, by rw [hmask], List.nil_suffix⟩
    · rename_i h0
      have hnone := hoff (hmask.symm.trans (not_not.mp h0))
      exact ⟨hfold.trans hgpio, hmask, hoff, by simp [hnone], htoggles', hnames'⟩
  · refine ⟨hfold.trans hgpio, hmask, fun h => by simp [hoff h, OsTimer.elapse], ?_, htoggles',
      hnames'.step (e := .elapse ms) (by simp) rfl⟩
    intro r hr
    obtain ⟨r₀, hr₀, rfl⟩ := Option.map_eq_some_iff.mp hr
    obtain ⟨hle, hbefore, hpast⟩ := htimer r₀ hr₀
    refine ⟨by omega, hbefore, ?_⟩
    have hlevel : (es.foldl watch (level, [])).1 = k.portALast := hgpio.trans hs
    have hnext : timeline level (es ++ [.elapse ms]) = timeline level es ++ List.replicate ms k.portALast := by
      rw [hsnoc, ← hlevel]
      rfl
    obtain ⟨past, hpast⟩ := hpast
    have hlen : 10 - r₀ + ms = (10 - r₀ + ms - (10 - (r₀ - ms))) + (10 - (r₀ - ms)) := by omega
    rw [hnext, ← hpast, List.append_assoc, List.replicate_append_replicate, hlen, List.replicate_add,
      ← List.append_assoc]
    exact List.suffix_append _ _
  · obtain ⟨-, hbefore, hpast⟩ := htimer 0 ht
    unfold buttonAntiShakeTimeoutHandler
    dsimp only
    split
    · rename_i heq
      refine ⟨hfold.trans hgpio, hmask, fun _ => rfl, by simp, ?_, hnames'⟩
      intro c hc
      obtain hc | hc := List.mem_append.mp hc
      · exact htoggles' c hc
      · obtain rfl := List.mem_singleton.mp hc
        refine ⟨es, List.prefix_append _ _, k.portALast, hpast, ?_⟩
        rw [heq, hbefore, hmask]
    · exact ⟨hfold.trans hgpio, hmask, fun _ => rfl, by simp, htoggles', hnames'⟩
  · refine ⟨hfold.trans hgpio, hmask, hoff, by rwa [hsnoc], ?_, ?_⟩
    · intro c' hc'
      exact htoggles' c' (by rw [hc]; exact List.mem_cons_of_mem _ hc')
    · exact hnames'.toggle (.inr (htoggles' c (by rw [hc]; exact List.mem_cons_self)))
  · exact ⟨hfold.trans hgpio, hmask, hoff, by rwa [hsnoc], htoggles', hnames'.step (by simp) hb⟩
  · exact ⟨hfold.trans hgpio, hmask, hoff, by rwa [hsnoc], htoggles', hnames'.step (by simp) hb⟩

theorem shielded_init (level mask : UInt32) : Shielded level mask [] (buttonInit level mask) :=
  ⟨rfl, rfl, fun _ => rfl, by simp [buttonInit], by simp [buttonInit], ⟨.inl rfl, .inl rfl, .inl rfl, trivial⟩⟩

/-- Nothing but the pins changes while an interrupt is pending, and the anti-shake timer expires at its time. -/
def Timely (k : Keys) : KeysEvent → Prop
  | .pins _ => True
  | .isr => True
  | .elapse ms => k.gpioA = k.portALast ∧ ∀ r ∈ k.buttonAntiShakeTimer, ms ≤ r
  | _ => k.gpioA = k.portALast

instance (k : Keys) : ∀ e, Decidable (Timely k e)
  | .elapse ms => inferInstanceAs (Decidable (k.gpioA = k.portALast ∧ ∀ r ∈ k.buttonAntiShakeTimer, ms ≤ r))
  | .pins _ => isTrue trivial
  | .isr => isTrue trivial
  | .antiShakeTimeout => inferInstanceAs (Decidable (k.gpioA = k.portALast))
  | .task => inferInstanceAs (Decidable (k.gpioA = k.portALast))
  | .timeout => inferInstanceAs (Decidable (k.gpioA = k.portALast))
  | .pressingTimeout => inferInstanceAs (Decidable (k.gpioA = k.portALast))

/-- The time since the last interrupt, after one more event. -/
def since : Option ℕ → KeysEvent → Option ℕ
  | _, .isr => some 0
  | t, .elapse ms => t.map (· + ms)
  | t, _ => t

/-- The time since the last interrupt; none when there was none. -/
def sinceIsr (es : List KeysEvent) : Option ℕ := es.foldl since none

theorem sinceIsr_snoc (es : List KeysEvent) (e : KeysEvent) : sinceIsr (es ++ [e]) = since (sinceIsr es) e := by
  rw [sinceIsr, List.foldl_append]
  rfl

/-- What the machine holds down when the messages to its task are handled. -/
def Keys.target (k : Keys) : UInt32 := (k.toggles.getLast?).getD k.button.currentPressedButton

theorem statemachines_current (b : Driver) (e : WorkingEvent) :
    (buttonStatemachines b e).currentPressedButton = b.currentPressedButton := by
  obtain ⟨st, pt, tm, cur, last, tbs, cnt, sent⟩ := b
  cases st <;> cases e
  case waitMulti.singlePressed => by_cases ht : cur = tbs <;> simp [ht]
  all_goals simp

theorem toggle_current (b : Driver) (c : UInt32) : (buttonToggleHandler b c).currentPressedButton = c := by
  unfold buttonToggleHandler
  dsimp only
  split
  · exact statemachines_current _ _
  · rfl

theorem timer_current {b b' : Driver} {e : ButtonEvent} (he : ∀ c, e ≠ .toggle c) (hs : b.step e = some b') :
    b'.currentPressedButton = b.currentPressedButton := by
  obtain ⟨c, rfl, rfl⟩ | ⟨ms, rfl, rfl⟩ | ⟨rfl, ht, rfl⟩ | ⟨rfl, ht, rfl⟩ := step_cases hs
  · exact absurd rfl (he c)
  · rfl
  · exact statemachines_current _ _
  · simp [buttonPressingTimeoutHandler]

theorem target_timer (k : Keys) {b : Driver} {e : ButtonEvent} (he : ∀ c, e ≠ .toggle c)
    (hb : k.button.step e = some b) : Keys.target { k with button := b } = k.target := by
  simp only [Keys.target, timer_current he hb]

theorem target_task (k : Keys) {c : UInt32} {toggles : List UInt32} (hc : k.toggles = c :: toggles) :
    Keys.target { k with toggles := toggles, button := buttonToggleHandler k.button c } = k.target := by
  simp only [Keys.target, hc, toggle_current]
  cases toggles with
  | nil => rfl
  | cons d ds => simp [List.getLast?_cons]

/-- After an interrupt the anti-shake timer runs, or what the pins were at is on its way to the machine; without enabled
buttons nothing ever is. -/
structure Tracks (mask : UInt32) (es : List KeysEvent) (k : Keys) : Prop where
  ioMask : k.buttonIoMask = mask
  off : mask = 0 → k.buttonAntiShakeTimer = none ∧ k.target = 0
  follows : ∀ ms, sinceIsr es = some ms →
    (∃ r, k.buttonAntiShakeTimer = some r ∧ r + ms = 10 ∧ k.currButtonBeforeAntiShake = k.portALast &&& mask) ∨
      k.buttonAntiShakeTimer = none ∧ k.target = (k.portALast &&& mask) ^^^ mask

theorem Tracks.frame {mask : UInt32} {es : List KeysEvent} {k k' : Keys} {e : KeysEvent} (h : Tracks mask es k)
    (hsince : sinceIsr (es ++ [e]) = sinceIsr es)
    (hsame : k'.buttonIoMask = k.buttonIoMask ∧ k'.portALast = k.portALast ∧
      k'.buttonAntiShakeTimer = k.buttonAntiShakeTimer ∧ k'.currButtonBeforeAntiShake = k.currButtonBeforeAntiShake)
    (htarget : k'.target = k.target) : Tracks mask (es ++ [e]) k' := by
  obtain ⟨hmask, hoff, hfollows⟩ := h
  obtain ⟨hio, hlast, htimer, hbefore⟩ := hsame
  refine ⟨hio.trans hmask, ?_, ?_⟩
  · rwa [htimer, htarget]
  · rwa [hsince, htimer, hbefore, hlast, htarget]

theorem Tracks.step {mask : UInt32} {es : List KeysEvent} {k k' : Keys} {e : KeysEvent} (h : Tracks mask es k)
    (hs : Timely k e) (hk : k.step e = some k') : Tracks mask (es ++ [e]) k' := by
  obtain ⟨hmask, hoff, hfollows⟩ := id h
  have hsince := sinceIsr_snoc es e
  obtain ⟨l, rfl, rfl⟩ | ⟨rfl, rfl⟩ | ⟨ms, rfl, rfl⟩ | ⟨rfl, ht, rfl⟩ | ⟨c, toggles, rfl, hc, rfl⟩ | ⟨rfl, b, hb, rfl⟩ |
    ⟨rfl, b, hb, rfl⟩ := keys_step_cases hk
  · exact h.frame hsince ⟨rfl, rfl, rfl, rfl⟩ rfl
  · unfold pmuGpioIsrRam buttonToggleDetected
    dsimp only
    by_cases h0 : mask = 0
    · -- the timer is not started, and both sides are `0`
      obtain ⟨hnone, htarget⟩ := hoff h0
      rw [if_neg (by simp [hmask, h0])]
      refine ⟨hmask, fun _ => ⟨hnone, htarget⟩, ?_⟩
      intro ms _
      exact .inr ⟨hnone, htarget.trans (by simp [h0])⟩
    · rw [if_pos (by rwa [hmask])]
      refine ⟨hmask, fun h => absurd h h0, ?_⟩
      intro ms hms
      refine .inl ⟨10, rfl, ?_, by rw [hmask]⟩
      rw [hsince] at hms
      cases hms
      rfl
  · refine ⟨hmask, ?_, ?_⟩
    · intro h0
      obtain ⟨hnone, htarget⟩ := hoff h0
      exact ⟨by simp [hnone, OsTimer.elapse], htarget⟩
    · intro ms' hms'
      rw [hsince] at hms'
      obtain ⟨ms₀, hms₀, rfl⟩ := Option.map_eq_some_iff.mp hms'
      obtain ⟨r, hr, hsum, hbefore⟩ | ⟨hnone, htarget⟩ := hfollows ms₀ hms₀
      · have hle := hs.2 r hr
        exact .inl ⟨r - ms, by simp [hr, OsTimer.elapse], by omega, hbefore⟩
      · exact .inr ⟨by simp [hnone, OsTimer.elapse], htarget⟩
  · have hmask' : (buttonAntiShakeTimeoutHandler { k with buttonAntiShakeTimer := none }).buttonIoMask = mask := by
      unfold buttonAntiShakeTimeoutHandler
      dsimp only
      split <;> exact hmask
    refine ⟨hmask', ?_, ?_⟩
    · intro h0
      rw [(hoff h0).1] at ht
      cases ht
    · intro ms hms
      rw [hsince] at hms
      obtain ⟨r, hr, hsum, hbefore⟩ | ⟨hnone, -⟩ := hfollows ms hms
      · have hsame : k.gpioA = k.portALast := hs
        exact .inr (by simp [buttonAntiShakeTimeoutHandler, hsame, Keys.target, hbefore, hmask])
      · rw [hnone] at ht
        cases ht
  · exact h.frame hsince ⟨rfl, rfl, rfl, rfl⟩ (target_task k hc)
  · exact h.frame hsince ⟨rfl, rfl, rfl, rfl⟩ (target_timer k (by simp) hb)
  · exact h.frame hsince ⟨rfl, rfl, rfl, rfl⟩ (target_timer k (by simp) hb)

/-! ## The results -/

/-- **Every message is about buttons that were debounced.**  In every run in which interrupts are served before time
passes, whatever else happens and however late the timers and the task are, the buttons a message names are exactly
those that the pins have shown down for 10 ms on end at some time before, and there is one. -/
theorem messages_debounced {level mask : UInt32} {es : List KeysEvent} {k : Keys}
    (ha : Admits Keys.step Served (buttonInit level mask) es)
    (hr : run Keys.step (buttonInit level mask) es = some k) :
    ∀ m ∈ k.button.sent, m.buttonIndex ≠ 0 ∧ Debounced level mask es m.buttonIndex := by
  have hstep : ∀ (es : List KeysEvent) (k : Keys) (e : KeysEvent) (k' : Keys),
      Shielded level mask es k ∧ Consistent k.button → Served k e → k.step e = some k' →
      Shielded level mask (es ++ [e]) k' ∧ Consistent k'.button := by
    rintro es k e k' ⟨hi, hc⟩ hs hk
    refine ⟨hi.step hs hk, ?_⟩
    rcases button_step hk with h | ⟨e', h⟩
    · exact h ▸ hc
    · exact hc.step h
  obtain ⟨hshield, hcons⟩ := run_invariant hstep [] ⟨shielded_init level mask, consistent_init⟩ ha hr
  intro m hm
  have h0 : m.buttonIndex ≠ 0 := (List.forall_iff_forall_mem.mp hcons.sound m hm).ne_zero
  exact ⟨h0, (List.forall_iff_forall_mem.mp hshield.names.sent m hm).resolve_left h0⟩

/-- Pin 0 bounces and then stays low. -/
def bouncingPress : List KeysEvent :=
  [.pins 0xfffffffe, .isr, .elapse 4, .pins 0xffffffff, .isr, .elapse 3, .pins 0xfffffffe, .isr, .elapse 10,
    .antiShakeTimeout, .task]

theorem messages_debounced_bouncingPress :
    ∃ k, run Keys.step (buttonInit 0xffffffff 1) bouncingPress = some k ∧ k.button.sent = [⟨1, .pressed, 0⟩] ∧
      ∀ m ∈ k.button.sent, m.buttonIndex ≠ 0 ∧ Debounced 0xffffffff 1 bouncingPress m.buttonIndex := by
  have ha : Admits Keys.step Served (buttonInit 0xffffffff 1) bouncingPress := by decide
  exact ⟨_, rfl, rfl, messages_debounced ha rfl⟩

/-- **The machine follows the pins.**  In every run in which nothing happens while an interrupt is pending and the
anti-shake timer expires at its time: 10 ms after the last interrupt, when the timer has expired and the task has
handled its messages, the machine holds down exactly the buttons that the pins show down. -/
theorem buttons_follow_pins {level mask : UInt32} {es : List KeysEvent} {k : Keys}
    (ha : Admits Keys.step Timely (buttonInit level mask) es)
    (hr : run Keys.step (buttonInit level mask) es = some k) {ms : ℕ} (hms : sinceIsr es = some ms) (h10 : 10 ≤ ms)
    (hserved : k.gpioA = k.portALast) (hdue : k.buttonAntiShakeTimer ≠ some 0) (hidle : k.toggles = []) :
    k.button.currentPressedButton = (k.gpioA &&& mask) ^^^ mask := by
  have hstep : ∀ (es : List KeysEvent) (k : Keys) (e : KeysEvent) (k' : Keys),
      Tracks mask es k → Timely k e → k.step e = some k' → Tracks mask (es ++ [e]) k' := by
    intro es k e k' hi hs hk
    exact hi.step hs hk
  have h0 : Tracks mask [] (buttonInit level mask) := by
    refine ⟨rfl, fun _ => ⟨rfl, rfl⟩, ?_⟩
    intro ms hms
    cases hms
  have hinv := run_invariant hstep [] h0 ha hr
  obtain ⟨r, hr', hsum, -⟩ | ⟨-, htarget⟩ := hinv.follows ms hms
  · obtain rfl : r = 0 := by omega
    exact absurd hr' hdue
  · rw [hserved, ← htarget, Keys.target, hidle]
    rfl

theorem buttons_follow_pins_bouncingPress :
    ∃ k, run Keys.step (buttonInit 0xffffffff 1) bouncingPress = some k ∧
      k.button.currentPressedButton = (k.gpioA &&& 1) ^^^ 1 := by
  have ha : Admits Keys.step Timely (buttonInit 0xffffffff 1) bouncingPress := by decide
  have hms : sinceIsr bouncingPress = some 10 := rfl
  exact ⟨_, rfl, buttons_follow_pins ha rfl hms le_rfl rfl (by decide) rfl⟩

end Fr8012haLock.Button
