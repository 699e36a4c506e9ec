import OrderbookAggregator.Exchange.Adapter

/-!
# The reconnection loop

`src/exchange/mod.rs`: `run_ws_loop`, from one point where it waits or checks for cancellation to the
next. What the loop waits for is told by the labels: how an attempt to connect ends, what the stream
yields, when a sleep is over. Cancellation can come at any time.
-/

namespace OrderbookAggregator

def maxBackoffMs : Nat := 30000

def initialBackoffMs : Nat := 1000

/-- Where the loop stands: `top` and `reading` are the heads of the outer and of the inner loop, and
`ended` is behind an attempt or a connection, before the check for cancellation. -/
inductive WsPc where
  | top
  | connecting
  | subscribing (message : Bytes)
  | reading
  | ended
  | sleeping (delayMs : Nat)
  | returned
  deriving DecidableEq

structure WsLoop (H : Type) where
  pc : WsPc
  handler : H
  metrics : ExchangeMetrics
  backoffMs : Nat
  cancelled : Bool
  deriving DecidableEq

inductive ConnectOutcome where
  | timedOut
  | failed
  | established
  deriving DecidableEq, Repr

/-- What the inner loop gets out of its `select!`. With a text frame comes what `is_abandoned`
returns while the frame is processed. -/
inductive ReadEvent where
  | cancelled
  | text (frame : Frame) (abandoned : Bool)
  | other
  | error
  | ended
  deriving DecidableEq

/-- Someone cancels the token, or the loop goes on: `start` and `backoff` check for cancellation, the
latter with what `fastrand` returns, and a sleep ends by `wake` or, cancelled, by `cutShort`. -/
inductive WsLabel where
  | cancel
  | start
  | connect (outcome : ConnectOutcome)
  | subscribe (sent : Bool)
  | read (event : ReadEvent)
  | backoff (random : Nat)
  | wake
  | cutShort
  deriving DecidableEq

namespace WsLoop

variable {H : Type}

def new (handler : H) (metrics : ExchangeMetrics) (cancelled : Bool) : WsLoop H :=
  { pc := .top, handler, metrics, backoffMs := initialBackoffMs, cancelled }

def setConnected (s : WsLoop H) (connected : Bool) : WsLoop H :=
  { s with metrics := { s.metrics with connected } }

def countError (s : WsLoop H) : WsLoop H :=
  { s with metrics := { s.metrics with errors := fetchAddU64 s.metrics.errors 1 } }

def goto (s : WsLoop H) (pc : WsPc) : WsLoop H := { s with pc }

def established (ws : WsHandler H) (s : WsLoop H) : WsLoop H :=
  { s.setConnected true with
    backoffMs := initialBackoffMs
    handler := ws.onConnected s.handler }

def handled (s : WsLoop H) (out : Handled H) : WsLoop H :=
  { s with handler := out.handler, metrics := out.metrics }

/-- The three arms on the outcome of an attempt. -/
def connect (ws : WsHandler H) (symbol : Bytes) (s : WsLoop H) : ConnectOutcome → WsLoop H
  | .timedOut => s.countError.goto .ended
  | .failed => s.countError.goto .ended
  | .established =>
    let s := s.established ws
    match ws.subscribeMessage s.handler symbol with
    | some message => s.goto (.subscribing message)
    | none => s.goto .reading

/-- One iteration of the inner loop; on a panic there is no state behind it. All that `process_text`
writes to the metrics is written in this one step: the states between these writes, which a scrape
may see, are not states of the loop. -/
def read (ws : WsHandler H) (s : WsLoop H) : ReadEvent → Option (WsLoop H)
  | .cancelled => if s.cancelled then some ((s.setConnected false).goto .returned) else none
  | .text frame abandoned =>
    match ws.processText abandoned s.handler s.metrics frame with
    | .error _ => none
    | .ok out =>
      let s := s.handled out
      match out.result with
      | .continue => some s
      | .reconnect => some ((s.setConnected false).goto .ended)
      | .shutdown => some (s.goto .returned)
  | .other => some s
  | .error => some ((s.countError.setConnected false).goto .ended)
  | .ended => some ((s.setConnected false).goto .ended)

def delay (backoffMs random : Nat) : Exec Nat := addU64 (backoffMs / 2) random

def nextBackoff (backoffMs maxMs : Nat) : Exec Nat := do
  let doubled ← mulU64 backoffMs 2
  return min doubled maxMs

def step (ws : WsHandler H) (symbol : Bytes) (s : WsLoop H) : WsLabel → Option (WsLoop H)
  | .cancel => some { s with cancelled := true }
  | .start =>
    match s.pc with
    | .top => some (s.goto (if s.cancelled then .returned else .connecting))
    | _ => none
  | .connect outcome =>
    match s.pc with
    | .connecting => some (s.connect ws symbol outcome)
    | _ => none
  | .subscribe sent =>
    match s.pc with
    | .subscribing _ =>
      some (if sent then s.goto .reading else (s.countError.setConnected false).goto .ended)
    | _ => none
  | .read event =>
    match s.pc with
    | .reading => s.read ws event
    | _ => none
  | .backoff random =>
    match s.pc with
    | .ended =>
      if s.cancelled then some (s.goto .returned)
      else if random < max (s.backoffMs / 2) 1 then
        (delay s.backoffMs random).toOption.map fun delayMs =>
          { s with
            metrics := { s.metrics with reconnections := fetchAddU64 s.metrics.reconnections 1 }
            pc := .sleeping delayMs }
      else none
    | _ => none
  | .wake =>
    match s.pc with
    | .sleeping _ =>
      (nextBackoff s.backoffMs maxBackoffMs).toOption.map fun backoffMs =>
        { s with backoffMs, pc := .top }
    | _ => none
  | .cutShort =>
    match s.pc with
    | .sleeping _ => if s.cancelled then some (s.goto .returned) else none
    | _ => none

/-- Everything a step can be. -/
inductive Step (ws : WsHandler H) (symbol : Bytes) (s : WsLoop H) : WsLabel → WsLoop H → Prop
  | cancel : Step ws symbol s .cancel { s with cancelled := true }
  | start (hpc : s.pc = .top) :
      Step ws symbol s .start (s.goto (if s.cancelled then .returned else .connecting))
  | unconnected {outcome} (hpc : s.pc = .connecting) (houtcome : outcome ≠ .established) :
      Step ws symbol s (.connect outcome) (s.countError.goto .ended)
  | subscribing {message} (hpc : s.pc = .connecting)
      (hmessage : ws.subscribeMessage (ws.onConnected s.handler) symbol = some message) :
      Step ws symbol s (.connect .established) ((s.established ws).goto (.subscribing message))
  | unsubscribing (hpc : s.pc = .connecting)
      (hmessage : ws.subscribeMessage (ws.onConnected s.handler) symbol = none) :
      Step ws symbol s (.connect .established) ((s.established ws).goto .reading)
  | subscribed {message} (hpc : s.pc = .subscribing message) :
      Step ws symbol s (.subscribe true) (s.goto .reading)
  | unsubscribed {message} (hpc : s.pc = .subscribing message) :
      Step ws symbol s (.subscribe false) ((s.countError.setConnected false).goto .ended)
  | readCancelled (hpc : s.pc = .reading) (hcancelled : s.cancelled = true) :
      Step ws symbol s (.read .cancelled) ((s.setConnected false).goto .returned)
  | text {frame abandoned out} (hpc : s.pc = .reading)
      (hprocess : ws.processText abandoned s.handler s.metrics frame = .ok out)
      (hresult : out.result = .continue) :
      Step ws symbol s (.read (.text frame abandoned)) (s.handled out)
  | reconnect {frame abandoned out} (hpc : s.pc = .reading)
      (hprocess : ws.processText abandoned s.handler s.metrics frame = .ok out)
      (hresult : out.result = .reconnect) :
      Step ws symbol s (.read (.text frame abandoned))
        (((s.handled out).setConnected false).goto .ended)
  | shutdown {frame abandoned out} (hpc : s.pc = .reading)
      (hprocess : ws.processText abandoned s.handler s.metrics frame = .ok out)
      (hresult : out.result = .shutdown) :
      Step ws symbol s (.read (.text frame abandoned)) ((s.handled out).goto .returned)
  | readOther (hpc : s.pc = .reading) : Step ws symbol s (.read .other) s
  | readError (hpc : s.pc = .reading) :
      Step ws symbol s (.read .error) ((s.countError.setConnected false).goto .ended)
  | readEnded (hpc : s.pc = .reading) :
      Step ws symbol s (.read .ended) ((s.setConnected false).goto .ended)
  | giveUp {random} (hpc : s.pc = .ended) (hcancelled : s.cancelled = true) :
      Step ws symbol s (.backoff random) (s.goto .returned)
  | backoff {random delayMs} (hpc : s.pc = .ended) (hcancelled : s.cancelled = false)
      (hrandom : random < max (s.backoffMs / 2) 1) (hdelay : delay s.backoffMs random = .ok delayMs) :
      Step ws symbol s (.backoff random)
        { s with
          metrics := { s.metrics with reconnections := fetchAddU64 s.metrics.reconnections 1 }
          pc := .sleeping delayMs }
  | wake {delayMs backoffMs} (hpc : s.pc = .sleeping delayMs)
      (hbackoff : nextBackoff s.backoffMs maxBackoffMs = .ok backoffMs) :
      Step ws symbol s .wake { s with backoffMs, pc := .top }
  | cutShort {delayMs} (hpc : s.pc = .sleeping delayMs) (hcancelled : s.cancelled = true) :
      Step ws symbol s .cutShort (s.goto .returned)

theorem step_read_cases {ws : WsHandler H} {symbol : Bytes} {s s' : WsLoop H} {event : ReadEvent}
    (hpc : s.pc = .reading) (h : s.read ws event = some s') : Step ws symbol s (.read event) s' := by
  cases event with
  | cancelled =>
      rw [read] at h
      split_ifs at h with hcancelled
      cases h
      exact .readCancelled hpc hcancelled
  | text frame abandoned =>
      rw [read] at h
      cases hprocess : ws.processText abandoned s.handler s.metrics frame with
      | error panic =>
          rw [hprocess] at h
          cases h
      | ok out =>
          rw [hprocess] at h
          dsimp only at h
          cases hresult : out.result <;> rw [hresult] at h <;> cases h
          · exact .text hpc hprocess hresult
          · exact .reconnect hpc hprocess hresult
          · exact .shutdown hpc hprocess hresult
  | other =>
      cases h
      exact .readOther hpc
  | error =>
      cases h
      exact .readError hpc
  | ended =>
      cases h
      exact .readEnded hpc

theorem step_cases {ws : WsHandler H} {symbol : Bytes} {s s' : WsLoop H} {label : WsLabel}
    (h : s.step ws symbol label = some s') : Step ws symbol s label s' := by
  cases label with
  | cancel =>
      cases h
      exact .cancel
  | start =>
      rw [step] at h
      split at h <;> cases h
      exact .start ‹_›
  | connect outcome =>
      rw [step] at h
      split at h <;> cases h
      rename_i hpc
      cases outcome with
      | timedOut | failed => exact .unconnected hpc nofun
      | established =>
          rw [connect]
          cases hmessage : ws.subscribeMessage (s.established ws).handler symbol with
          | some message => exact .subscribing hpc hmessage
          | none => exact .unsubscribing hpc hmessage
  | subscribe sent =>
      rw [step] at h
      split at h <;> cases h
      cases sent with
      | true => exact .subscribed ‹_›
      | false => exact .unsubscribed ‹_›
  | read event =>
      rw [step] at h
      split at h
      · exact step_read_cases ‹_› h
      · cases h
  | backoff random =>
      rw [step] at h
      split at h
      · split_ifs at h with hcancelled hrandom
        · cases h
          exact .giveUp ‹_› hcancelled
        · obtain ⟨delayMs, hdelay, rfl⟩ := Option.map_eq_some_iff.mp h
          exact .backoff ‹_› (Bool.eq_false_of_not_eq_true hcancelled) hrandom
            (Exec.eq_ok_of_toOption hdelay)
      · cases h
  | wake =>
      rw [step] at h
      split at h
      · obtain ⟨backoffMs, hbackoff, rfl⟩ := Option.map_eq_some_iff.mp h
        exact .wake ‹_› (Exec.eq_ok_of_toOption hbackoff)
      · cases h
  | cutShort =>
      rw [step] at h
      split at h
      · split_ifs at h with hcancelled
        cases h
        exact .cutShort ‹_› hcancelled
      · cases h

end WsLoop

end OrderbookAggregator
