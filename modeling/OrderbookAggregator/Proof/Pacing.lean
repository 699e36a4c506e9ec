import OrderbookAggregator.Exchange.Binance
import OrderbookAggregator.Exchange.WsLoop
import OrderbookAggregator.Library.LabelledRun

/-!
# The pace of reconnecting

What happened so far determines the backoff: it starts at a second, doubles with every sleep up to
half a minute, and starts again when a connection is established. Both sleeps of the loop pass the
same point of the model, so one invariant carries both. It also counts: between an attempt and the
next sleep the attempts are one ahead of the reconnections.
-/

namespace OrderbookAggregator

open LabelledRun

/-- What happens in a run, as far as its pace is concerned. -/
inductive PacingEvent where
  | attempt
  | established
  | sleep
  deriving DecidableEq

/-- The sleeps since the last established connection, or since the start. -/
def sleepsSince (events : List PacingEvent) : Nat :=
  (events.reverse.takeWhile (· ≠ .established)).count .sleep

@[simp]
theorem sleepsSince_attempt (events : List PacingEvent) :
    sleepsSince (events ++ [.attempt]) = sleepsSince events := by
  simp [sleepsSince]

@[simp]
theorem sleepsSince_established (events : List PacingEvent) :
    sleepsSince (events ++ [.established]) = 0 := by
  simp [sleepsSince]

@[simp]
theorem sleepsSince_sleep (events : List PacingEvent) :
    sleepsSince (events ++ [.sleep]) = sleepsSince events + 1 := by
  simp [sleepsSince]

/-- The backoff after some sleeps. -/
def backoffAfter (sleeps : Nat) : Nat := min (initialBackoffMs * 2 ^ sleeps) maxBackoffMs

theorem backoffAfter_bounds (sleeps : Nat) :
    initialBackoffMs ≤ backoffAfter sleeps ∧ backoffAfter sleeps ≤ maxBackoffMs := by
  have hpow : 0 < 2 ^ sleeps := by positivity
  have hle : initialBackoffMs ≤ initialBackoffMs * 2 ^ sleeps := Nat.le_mul_of_pos_right _ hpow
  exact ⟨le_min hle (by decide), min_le_right _ _⟩

/-- An attempt has been started and no sleep since. -/
def WsPc.isUnderWay : WsPc → Bool
  | .connecting | .subscribing _ | .reading | .ended => true
  | .top | .sleeping _ | .returned => false

namespace WsLoop

variable {H : Type} {ws : WsHandler H} {symbol : Bytes}

/-- The events of a step that is taken. -/
def pacingEvents (s : WsLoop H) : WsLabel → List PacingEvent
  | .start => if s.cancelled then [] else [.attempt]
  | .connect .established => [.established]
  | .backoff _ => if s.cancelled then [] else [.sleep]
  | _ => []

def pacing (ws : WsHandler H) (symbol : Bytes) (s : WsLoop H) (labels : List WsLabel) :
    List PacingEvent :=
  observe (step ws symbol) pacingEvents s labels

/-- The next backoff is never too large to be doubled, and never too small for a delay. -/
theorem nextBackoff_backoffAfter (sleeps : Nat) :
    nextBackoff (backoffAfter sleeps) maxBackoffMs = .ok (backoffAfter (sleeps + 1)) := by
  obtain ⟨-, hle⟩ := backoffAfter_bounds sleeps
  have hmax : maxBackoffMs = 30000 := rfl
  have hnext : min (backoffAfter sleeps * 2) maxBackoffMs = backoffAfter (sleeps + 1) := by
    rw [backoffAfter, backoffAfter, pow_succ, ← mul_assoc]
    omega
  rw [nextBackoff, mulU64_of_lt (by omega), Exec.ok_bind, Exec.pure_eq, hnext]

theorem delay_bounds {backoffMs random delayMs : Nat} (hlow : initialBackoffMs ≤ backoffMs)
    (hrandom : random < max (backoffMs / 2) 1) (h : delay backoffMs random = .ok delayMs) :
    backoffMs / 2 ≤ delayMs ∧ delayMs < backoffMs := by
  have hinitial : initialBackoffMs = 1000 := rfl
  unfold delay addU64 at h
  split at h
  · cases h
    omega
  · cases h

/-- What is known of the loop after the events of a run, which started with `reconnections` on the
counter. Where it sleeps, the backoff still is that of the sleep. -/
structure Paced (reconnections : Nat) (events : List PacingEvent) (s : WsLoop H) : Prop where
  bounds : initialBackoffMs ≤ s.backoffMs ∧ s.backoffMs ≤ maxBackoffMs
  awake : s.pc.isUnderWay = true ∨ s.pc = .top → s.backoffMs = backoffAfter (sleepsSince events)
  asleep : ∀ delayMs, s.pc = .sleeping delayMs → ∃ sleeps, sleepsSince events = sleeps + 1
    ∧ s.backoffMs = backoffAfter sleeps ∧ s.backoffMs / 2 ≤ delayMs ∧ delayMs < s.backoffMs
  started : s.pc.isUnderWay = true → 0 < events.count .attempt
  counted : s.pc ≠ .returned → reconnections + events.count .attempt
    ≡ s.metrics.reconnections + s.pc.isUnderWay.toNat [MOD 2 ^ 64]
  fits : s.metrics.reconnections = reconnections ∨ s.metrics.reconnections < 2 ^ 64

namespace Paced

variable {reconnections : Nat} {events : List PacingEvent} {s s' : WsLoop H}

/-- A step within an attempt, or out of the loop, that leaves the backoff and the counter alone. -/
theorem keep (h : Paced reconnections events s) (hbackoff : s'.backoffMs = s.backoffMs)
    (hmetrics : s'.metrics.reconnections = s.metrics.reconnections)
    (hpc : s'.pc = .returned ∨ s.pc.isUnderWay = true ∧ s'.pc.isUnderWay = true) :
    Paced reconnections events s' := by
  rcases hpc with hpc | ⟨hpc, hpc'⟩
  · refine ⟨hbackoff ▸ h.bounds, ?_, ?_, ?_, absurd hpc, hmetrics ▸ h.fits⟩
    · rw [hpc]
      rintro (hpc | hpc) <;> cases hpc
    · rw [hpc]
      rintro _ ⟨⟩
    · rw [hpc]
      rintro ⟨⟩
  · have hreturned : s.pc ≠ .returned := by
      intro heq
      rw [heq] at hpc
      cases hpc
    refine ⟨hbackoff ▸ h.bounds, fun _ => hbackoff ▸ h.awake (Or.inl hpc), ?_,
      fun _ => h.started hpc, fun _ => ?_, hmetrics ▸ h.fits⟩
    · intro delayMs heq
      rw [heq] at hpc'
      cases hpc'
    · rw [hmetrics, hpc', ← hpc]
      exact h.counted hreturned

theorem keep_eventless {label : WsLabel} (h : Paced reconnections events s)
    (hevents : s.pacingEvents label = []) (hbackoff : s'.backoffMs = s.backoffMs)
    (hmetrics : s'.metrics.reconnections = s.metrics.reconnections)
    (hpc : s'.pc = .returned ∨ s.pc.isUnderWay = true ∧ s'.pc.isUnderWay = true) :
    Paced reconnections (events ++ s.pacingEvents label) s' := by
  rw [hevents, List.append_nil]
  exact h.keep hbackoff hmetrics hpc

/-- A connection is established, and the backoff starts again. -/
theorem established (h : Paced reconnections events s) (hpc : s.pc = .connecting)
    (hbackoff : s'.backoffMs = initialBackoffMs)
    (hmetrics : s'.metrics.reconnections = s.metrics.reconnections)
    (hpc' : s'.pc.isUnderWay = true) : Paced reconnections (events ++ [.established]) s' := by
  have hunderWay : s.pc.isUnderWay = true := by rw [hpc]; rfl
  have hcount : (events ++ [PacingEvent.established]).count .attempt = events.count .attempt := by
    simp
  refine ⟨?_, fun _ => ?_, ?_, fun _ => ?_, fun _ => ?_, hmetrics ▸ h.fits⟩
  · rw [hbackoff]
    decide
  · rw [hbackoff, sleepsSince_established]
    rfl
  · intro delayMs heq
    rw [heq] at hpc'
    cases hpc'
  · exact hcount ▸ h.started hunderWay
  · rw [hcount, hmetrics, hpc', ← hunderWay]
    exact h.counted (by rw [hpc]; rintro ⟨⟩)

theorem step {label : WsLabel} (h : Paced reconnections events s)
    (hstep : s.step ws symbol label = some s') :
    Paced reconnections (events ++ s.pacingEvents label) s' := by
  cases step_cases hstep with
  | cancel =>
      rw [show s.pacingEvents .cancel = [] from rfl, List.append_nil]
      exact ⟨h.bounds, h.awake, h.asleep, h.started, h.counted, h.fits⟩
  | start hpc =>
      rw [pacingEvents]
      by_cases hcancelled : s.cancelled = true
      · rw [if_pos hcancelled, if_pos hcancelled, List.append_nil]
        exact h.keep rfl rfl (Or.inl rfl)
      · rw [if_neg hcancelled, if_neg hcancelled]
        have hcounted := h.counted (by rw [hpc]; rintro ⟨⟩)
        rw [hpc] at hcounted
        refine ⟨h.bounds, fun _ => ?_, ?_, fun _ => by simp, fun _ => ?_, h.fits⟩
        · rw [sleepsSince_attempt]
          exact h.awake (Or.inr hpc)
        · rintro _ ⟨⟩
        · rw [List.count_append, ← Nat.add_assoc]
          exact hcounted.add_right 1
  | @unconnected outcome hpc houtcome =>
      have hevents : s.pacingEvents (.connect outcome) = [] := by
        cases outcome with
        | timedOut | failed => rfl
        | established => exact absurd rfl houtcome
      exact h.keep_eventless hevents rfl rfl (Or.inr ⟨by rw [hpc]; rfl, rfl⟩)
  | subscribing hpc | unsubscribing hpc => exact h.established hpc rfl rfl rfl
  | subscribed hpc | unsubscribed hpc | readError hpc | readEnded hpc =>
      exact h.keep_eventless rfl rfl rfl (Or.inr ⟨by rw [hpc]; rfl, rfl⟩)
  | readCancelled => exact h.keep_eventless rfl rfl rfl (Or.inl rfl)
  | readOther hpc =>
      have hunderWay : s.pc.isUnderWay = true := by rw [hpc]; rfl
      exact h.keep_eventless rfl rfl rfl (Or.inr ⟨hunderWay, hunderWay⟩)
  | text hpc hprocess =>
      have hunderWay : s.pc.isUnderWay = true := by rw [hpc]; rfl
      exact h.keep_eventless rfl rfl (ws.metrics_processText hprocess).2
        (Or.inr ⟨hunderWay, hunderWay⟩)
  | reconnect hpc hprocess =>
      exact h.keep_eventless rfl rfl (ws.metrics_processText hprocess).2
        (Or.inr ⟨by rw [hpc]; rfl, rfl⟩)
  | shutdown _ hprocess =>
      exact h.keep_eventless rfl rfl (ws.metrics_processText hprocess).2 (Or.inl rfl)
  | giveUp _ hcancelled =>
      exact h.keep_eventless (if_pos hcancelled) rfl rfl (Or.inl rfl)
  | @backoff random delayMs hpc hcancelled hrandom hdelay =>
      have hevents : s.pacingEvents (.backoff random) = [.sleep] := by
        rw [pacingEvents, if_neg (by simp [hcancelled])]
      have hcounted := h.counted (by rw [hpc]; rintro ⟨⟩)
      have hunderWay : s.pc.isUnderWay = true := by rw [hpc]; rfl
      rw [hunderWay] at hcounted
      rw [hevents]
      refine ⟨h.bounds, ?_, ?_, ?_, fun _ => ?_, Or.inr (Nat.mod_lt _ (by norm_num))⟩
      · rintro (hpc | hpc) <;> cases hpc
      · rintro _ ⟨⟩
        refine ⟨sleepsSince events, sleepsSince_sleep events, h.awake (Or.inl hunderWay), ?_⟩
        exact delay_bounds h.bounds.1 hrandom hdelay
      · rintro ⟨⟩
      · have hcount : (events ++ [PacingEvent.sleep]).count .attempt = events.count .attempt := by
          simp
        rw [hcount]
        exact hcounted.trans (Nat.mod_modEq _ _).symm
  | @wake delayMs backoffMs hpc hbackoff =>
      rw [show s.pacingEvents .wake = [] from rfl, List.append_nil]
      obtain ⟨sleeps, hsleeps, hbefore, -⟩ := h.asleep delayMs hpc
      rw [hbefore, nextBackoff_backoffAfter, Except.ok.injEq] at hbackoff
      subst hbackoff
      have hcounted := h.counted (by rw [hpc]; rintro ⟨⟩)
      rw [hpc] at hcounted
      refine ⟨backoffAfter_bounds _, fun _ => ?_, ?_, ?_, fun _ => hcounted, h.fits⟩
      · rw [hsleeps]
      · rintro _ ⟨⟩
      · rintro ⟨⟩
  | cutShort => exact h.keep_eventless rfl rfl rfl (Or.inl rfl)

end Paced

theorem paced_of_run {handler : H} {metrics : ExchangeMetrics} {cancelled : Bool}
    {labels : List WsLabel} {s : WsLoop H}
    (hrun : run (step ws symbol) (new handler metrics cancelled) labels = some s) :
    Paced metrics.reconnections (pacing ws symbol (new handler metrics cancelled) labels) s := by
  refine run_induction (fun labels s => Paced metrics.reconnections (pacing ws symbol
    (new handler metrics cancelled) labels) s) ?_ ?_ hrun
  · have hstart : initialBackoffMs ≤ maxBackoffMs := by decide
    refine ⟨⟨le_rfl, hstart⟩, fun _ => rfl, ?_, ?_, fun _ => rfl, Or.inl rfl⟩
    · rintro _ ⟨⟩
    · rintro ⟨⟩
  · intro labels s label s' hrun h hstep
    rw [pacing, observe_concat hrun]
    exact h.step hstep

/-- **The pace of reconnecting.** While an attempt to connect is made, the attempts started so far are
one more than the reconnections counted in the run; on a counter that starts at zero they are one more
than the counter, until it wraps. The sleep that is the `m`th since the start or since the last
established connection lasts at least half its backoff and less than the backoff, which is a second
doubled `m - 1` times, or half a minute if that is less. The backoff stays between the two, and neither
a delay nor the next backoff overflows. -/
theorem pacing_of_run {handler : H} {metrics : ExchangeMetrics} {cancelled : Bool}
    {labels : List WsLabel} {s : WsLoop H}
    (hrun : run (step ws symbol) (new handler metrics cancelled) labels = some s) :
    let events := pacing ws symbol (new handler metrics cancelled) labels
    (s.pc = .connecting →
        metrics.reconnections + events.count .attempt ≡ s.metrics.reconnections + 1 [MOD 2 ^ 64]
        ∧ (metrics.reconnections = 0 → events.count .attempt ≤ 2 ^ 64 →
          events.count .attempt = s.metrics.reconnections + 1))
      ∧ (∀ delayMs, s.pc = .sleeping delayMs → 1 ≤ sleepsSince events
        ∧ min (1000 * 2 ^ (sleepsSince events - 1)) 30000 / 2 ≤ delayMs
        ∧ delayMs < min (1000 * 2 ^ (sleepsSince events - 1)) 30000)
      ∧ (1000 ≤ s.backoffMs ∧ s.backoffMs ≤ 30000)
      ∧ (∀ random < max (s.backoffMs / 2) 1, ∃ delayMs, delay s.backoffMs random = .ok delayMs)
      ∧ ∃ backoffMs, nextBackoff s.backoffMs maxBackoffMs = .ok backoffMs := by
  intro events
  have hpaced := paced_of_run hrun
  have hbounds : 1000 ≤ s.backoffMs ∧ s.backoffMs ≤ 30000 := hpaced.bounds
  refine ⟨fun hpc => ?_, fun delayMs hpc => ?_, hbounds, fun random hrandom => ?_, ?_⟩
  · have hunderWay : s.pc.isUnderWay = true := by rw [hpc]; rfl
    have hcounted := hpaced.counted (by rw [hpc]; rintro ⟨⟩)
    rw [hunderWay] at hcounted
    refine ⟨hcounted, fun hzero hle => ?_⟩
    have hstarted : 0 < events.count .attempt := hpaced.started hunderWay
    have hfits : s.metrics.reconnections < 2 ^ 64 := by
      rcases hpaced.fits with hfits | hfits
      · rw [hfits, hzero]
        norm_num
      · exact hfits
    obtain ⟨attempts, hattempts⟩ := Nat.exists_eq_add_of_lt hstarted
    rw [Nat.zero_add] at hattempts
    change metrics.reconnections + events.count .attempt ≡ s.metrics.reconnections + 1 [MOD 2 ^ 64]
      at hcounted
    rw [hzero, Nat.zero_add, hattempts] at hcounted
    have heq := (Nat.ModEq.add_right_cancel' 1 hcounted).eq_of_lt_of_lt (by omega) hfits
    rw [hattempts, heq]
  · obtain ⟨sleeps, hsleeps, hbackoff, hdelay⟩ := hpaced.asleep delayMs hpc
    have hsleeps : sleepsSince events = sleeps + 1 := hsleeps
    rw [hbackoff] at hdelay
    rw [hsleeps, Nat.add_sub_cancel]
    exact ⟨Nat.le_add_left 1 sleeps, hdelay⟩
  · exact ⟨_, addU64_of_lt (by omega)⟩
  · rw [nextBackoff, mulU64_of_lt (by omega)]
    exact ⟨_, rfl⟩

/-- Two attempts fail, one after the other. -/
def twoFailures : List WsLabel :=
  [.start, .connect .failed, .backoff 7, .wake, .start, .connect .timedOut, .backoff 3]

theorem pacing_of_twoFailures :
    ∃ s, run (step (Binance.wsHandler .scan) []) (new ⟨0⟩ .new false) twoFailures = some s
      ∧ s.pc = .sleeping 1003
      ∧ min (1000 * 2 ^ (sleepsSince (pacing (Binance.wsHandler .scan) [] (new ⟨0⟩ .new false)
        twoFailures) - 1)) 30000 / 2 ≤ 1003 := by
  refine ⟨_, rfl, rfl, ?_⟩
  exact ((pacing_of_run (@rfl _ (run (step (Binance.wsHandler .scan) []) (new ⟨0⟩ .new false)
    twoFailures))).2.1 1003 rfl).2.1

end WsLoop

end OrderbookAggregator
