import OrderbookAggregator.Proof.Accounting
import OrderbookAggregator.Proof.Exposition

/-!
# What two pages tell

Somebody who reads two pages and compares the values of a counter learns how often the counted event
has happened between the two loads: the counter, the text of the page and the reader agree.
-/

namespace OrderbookAggregator

open LabelledRun TextFormat

/-! ### The counters stay in their type -/

structure ExchangeMetrics.Fits (m : ExchangeMetrics) : Prop where
  messages : m.messages < 2 ^ 64
  errors : m.errors < 2 ^ 64
  reconnections : m.reconnections < 2 ^ 64

theorem fetchAddU64_lt (counter n : Nat) : fetchAddU64 counter n < 2 ^ 64 :=
  Nat.mod_lt _ (Nat.two_pow_pos 64)

theorem ExchangeMetrics.Fits.count {m : ExchangeMetrics} (h : m.Fits) (frame : Frame) (v : Verdict) :
    (m.count frame v).Fits := by
  cases v with
  | accepted => exact ⟨fetchAddU64_lt _ _, h.errors, h.reconnections⟩
  | faulty => exact ⟨h.messages, fetchAddU64_lt _ _, h.reconnections⟩
  | control => exact h

theorem WsLoop.fits_of_step {H : Type} {ws : WsHandler H} {symbol : Bytes}
    {verdict : H → Bytes → Option Verdict} (hjudges : ws.Judges verdict) {s s' : WsLoop H}
    {label : WsLabel} (h : s.metrics.Fits) (hstep : s.step ws symbol label = some s') :
    s'.metrics.Fits := by
  have htext {frame : Frame} {abandoned : Bool} {out : Handled H}
      (hprocess : ws.processText abandoned s.handler s.metrics frame = .ok out) :
      out.metrics.Fits := by
    obtain ⟨v, -, hmetrics, -⟩ := hjudges hprocess
    rw [hmetrics]
    exact h.count frame v
  cases step_cases hstep with
  | cancel | start | subscribed | readOther | wake | cutShort | giveUp => exact h
  | subscribing | unsubscribing | readCancelled | readEnded =>
      exact ⟨h.messages, h.errors, h.reconnections⟩
  | unconnected | unsubscribed | readError =>
      exact ⟨h.messages, fetchAddU64_lt _ _, h.reconnections⟩
  | text _ hprocess | shutdown _ hprocess => exact htext hprocess
  | reconnect _ hprocess =>
      have hfits := htext hprocess
      exact ⟨hfits.messages, hfits.errors, hfits.reconnections⟩
  | backoff => exact ⟨h.messages, h.errors, fetchAddU64_lt _ _⟩

theorem System.merges_lt {k : Nat} {s : System k} {labels : List (SystemLabel k)}
    (hrun : run step start labels = some s) : s.merger.merges < 2 ^ 64 := by
  refine run_induction (fun _ s => s.merger.merges < 2 ^ 64) (Nat.two_pow_pos 64) ?_ hrun
  intro labels s label s' hrun ih hstep
  cases affects_of_step hrun hstep with
  | take => exact ih
  | publish => exact fetchAddU64_lt _ _
  | stay _ hmerger | move _ _ _ hmerger =>
      rw [hmerger]
      exact ih

/-! ### Counters -/

/-- The names under which the threads get their metrics. -/
def handleName : Fin 2 → String
  | 0 => "binance"
  | 1 => "bitstamp"

inductive Counter where
  | messages (e : Fin 2)
  | errors (e : Fin 2)
  | reconnections (e : Fin 2)
  | merges

namespace Counter

/-- The series under which a counter is shown. -/
def series : Counter → Bytes × List (Bytes × Bytes)
  | .messages e =>
    (bytes "orderbook_messages_total", [(bytes "exchange", bytes (handleName e))])
  | .errors e => (bytes "orderbook_errors_total", [(bytes "exchange", bytes (handleName e))])
  | .reconnections e =>
    (bytes "orderbook_reconnections_total", [(bytes "exchange", bytes (handleName e))])
  | .merges => (bytes "orderbook_merges_total", [])

def value (s : Pipeline 2 Adapter) : Counter → Nat
  | .messages e => (s.loops e).metrics.messages
  | .errors e => (s.loops e).metrics.errors
  | .reconnections e => (s.loops e).metrics.reconnections
  | .merges => s.system.merger.merges

/-- How often along a run the event happens that is counted: a frame is accepted, something fails, a
sleep before the next connection begins, a summary is published. -/
def events (memmem : Memmem) (symbol : Bytes) (s : Pipeline 2 Adapter)
    (labels : List (PipelineLabel 2)) : Counter → Nat
  | .messages e => (Pipeline.seen (adapters memmem) symbol s e
      (WsLoop.accepting (verdicts memmem e)) labels).length
  | .errors e => (Pipeline.seen (adapters memmem) symbol s e
      (WsLoop.failing (verdicts memmem e)) labels).length
  | .reconnections e => (Pipeline.seen (adapters memmem) symbol s e WsLoop.sleeping labels).length
  | .merges => (observe System.step System.latency s.system
      (Pipeline.systemLabels (adapters memmem) symbol s labels)).length

variable {memmem : Memmem} {symbol : Bytes} {before labels : List (PipelineLabel 2)}
  {s s' : Pipeline 2 Adapter}

theorem value_lt (hrun : run (Pipeline.step (adapters memmem) symbol) .wired before = some s)
    (counter : Counter) : counter.value s < 2 ^ 64 := by
  have hzero : (0 : Nat) < 2 ^ 64 := Nat.two_pow_pos 64
  have hfits (e : Fin 2) : (s.loops e).metrics.Fits :=
    run_induction (fun _ s => s.metrics.Fits) ⟨hzero, hzero, hzero⟩
      (fun _ _ _ _ _ h hstep => WsLoop.fits_of_step (judges_adapters memmem e) h hstep)
      (Pipeline.run_loop hrun e)
  cases counter with
  | messages e => exact (hfits e).messages
  | errors e => exact (hfits e).errors
  | reconnections e => exact (hfits e).reconnections
  | merges => exact System.merges_lt (Pipeline.run_system hrun)

theorem value_modEq (hbefore : run (Pipeline.step (adapters memmem) symbol) .wired before = some s)
    (hrun : run (Pipeline.step (adapters memmem) symbol) s labels = some s') (counter : Counter) :
    counter.value s' ≡ counter.value s + counter.events memmem symbol s labels [MOD 2 ^ 64] := by
  have hcounted (e : Fin 2) :=
    WsLoop.counted_of_run (judges_adapters memmem e) (Pipeline.run_loop hrun e)
  cases counter with
  | messages e => exact (hcounted e).messages
  | errors e => exact (hcounted e).errors
  | reconnections e => exact (hcounted e).reconnections
  | merges =>
      have hwhole := run_append_eq_some.mpr ⟨s, hbefore, hrun⟩
      have hfirst := System.merged_of_run (Pipeline.run_system hbefore)
      have hsecond := System.merged_of_run (Pipeline.run_system hwhole)
      have hlatencies : (System.latencies
          (Pipeline.systemLabels (adapters memmem) symbol .wired (before ++ labels))).length
          = (System.latencies
            (Pipeline.systemLabels (adapters memmem) symbol .wired before)).length
            + events memmem symbol s labels .merges := by
        have hboth : System.latencies (Pipeline.systemLabels (adapters memmem) symbol .wired before
              ++ Pipeline.systemLabels (adapters memmem) symbol s labels)
            = System.latencies (Pipeline.systemLabels (adapters memmem) symbol .wired before)
              ++ observe System.step System.latency s.system
                (Pipeline.systemLabels (adapters memmem) symbol s labels) :=
          observe_append (Pipeline.run_system hbefore)
        rw [Pipeline.systemLabels_append hbefore, hboth, List.length_append]
        rfl
      calc s'.system.merger.merges
          ≡ s'.system.merger.published.length [MOD 2 ^ 64] := hsecond.merges
        _ = s.system.merger.published.length + events memmem symbol s labels .merges := by
            rw [← hsecond.latencies, hlatencies, hfirst.latencies]
        _ ≡ s.system.merger.merges + events memmem symbol s labels .merges [MOD 2 ^ 64] :=
            hfirst.merges.symm.add_right _

theorem value_eq (hbefore : run (Pipeline.step (adapters memmem) symbol) .wired before = some s)
    (hrun : run (Pipeline.step (adapters memmem) symbol) s labels = some s') (counter : Counter) :
    counter.value s' = (counter.value s + counter.events memmem symbol s labels) % 2 ^ 64 := by
  have hlt := value_lt (run_append_eq_some.mpr ⟨s, hbefore, hrun⟩) counter
  rw [← Nat.mod_eq_of_lt hlt]
  exact value_modEq hbefore hrun counter

end Counter

/-! ### What a page shows -/

/-- The loads of a page have returned `n` for a counter. -/
def PageLoads.Loads (p : PageLoads) (n : Nat) : Counter → Prop
  | .messages e => ∃ ex ∈ p.exchanges, ex.name = bytes (handleName e) ∧ ex.messages = n
  | .errors e => ∃ ex ∈ p.exchanges, ex.name = bytes (handleName e) ∧ ex.errors = n
  | .reconnections e => ∃ ex ∈ p.exchanges, ex.name = bytes (handleName e) ∧ ex.reconnections = n
  | .merges => p.merges = n

theorem PageLoads.Served.valueOf_counter {p : PageLoads} (hp : p.Served) {n : Nat} {counter : Counter}
    (hloads : p.Loads n counter) : valueOf p.families counter.series = some (formatNat n) := by
  have hvalid := hp.plain.valid hp.distinct
  have hexchange (name help kind : Bytes) (value : ExchangeLoads → Nat)
      (hfamily : p.perExchange name help kind value ∈ p.families) {ex : ExchangeLoads}
      (hex : ex ∈ p.exchanges) :
      valueOf p.families (name, [(bytes "exchange", ex.name)]) = some (formatNat (value ex)) :=
    hvalid.valueOf_series hfamily (List.mem_map_of_mem hex)
  have herrors : p.errorsTotal ∈ p.families := List.mem_cons_of_mem _ List.mem_cons_self
  have hreconnections : p.reconnectionsTotal ∈ p.families :=
    List.mem_cons_of_mem _ (List.mem_cons_of_mem _ List.mem_cons_self)
  have hmerges : p.mergesTotal ∈ p.families :=
    List.mem_cons_of_mem _ (List.mem_cons_of_mem _ (List.mem_cons_of_mem _ List.mem_cons_self))
  cases counter with
  | messages e =>
      obtain ⟨ex, hex, hname, rfl⟩ := hloads
      rw [Counter.series, ← hname]
      exact hexchange _ _ _ _ List.mem_cons_self hex
  | errors e =>
      obtain ⟨ex, hex, hname, rfl⟩ := hloads
      rw [Counter.series, ← hname]
      exact hexchange _ _ _ _ herrors hex
  | reconnections e =>
      obtain ⟨ex, hex, hname, rfl⟩ := hloads
      rw [Counter.series, ← hname]
      exact hexchange _ _ _ _ hreconnections hex
  | merges =>
      obtain rfl := hloads
      exact hvalid.valueOf_series hmerges (List.mem_singleton_self _)

/-- **What two pages tell.** A reader of two pages finds under the series of a counter the numbers that
were loaded. The second is the first, and how often the event has happened between the two loads, but
for wrapping. -/
theorem pages_tell (memmem : Memmem) (symbol : Bytes) {before between : List (PipelineLabel 2)}
    {s s' : Pipeline 2 Adapter}
    (hbefore : run (Pipeline.step (adapters memmem) symbol) .wired before = some s)
    (hbetween : run (Pipeline.step (adapters memmem) symbol) s between = some s')
    (counter : Counter) {first second : PageLoads} (hfirst : first.Served) (hsecond : second.Served)
    (hloads : first.Loads (counter.value s) counter)
    (hloads' : second.Loads (counter.value s') counter) :
    ∃ page page' text text', readPage (toPrometheus first) = some page
      ∧ readPage (toPrometheus second) = some page'
      ∧ valueOf page counter.series = some text ∧ valueOf page' counter.series = some text'
      ∧ natOf 0 text' = (natOf 0 text + counter.events memmem symbol s between) % 2 ^ 64 := by
  refine ⟨_, _, _, _, hfirst.read, hsecond.read, hfirst.valueOf_counter hloads,
    hsecond.valueOf_counter hloads', ?_⟩
  rw [natOf_formatNat, natOf_formatNat]
  exact counter.value_eq hbefore hbetween

/-- A page before anything has happened, and one behind the first snapshot of Binance. -/
theorem pages_tell_firstSnapshot :
    ∃ page page' text text', readPage (toPrometheus (samplePage 0)) = some page
      ∧ readPage (toPrometheus (samplePage 1)) = some page'
      ∧ valueOf page (Counter.messages 0).series = some text
      ∧ valueOf page' (Counter.messages 0).series = some text'
      ∧ natOf 0 text' = (natOf 0 text
        + (Counter.messages 0).events .scan [] .wired (firstSnapshot ++ [.publish 7 8])) % 2 ^ 64 :=
  pages_tell .scan [] (run_nil _) (Option.some_get isSome_firstSnapshot).symm (.messages 0)
    (samplePage_served 0) (samplePage_served 1) ⟨_, List.mem_cons_self, rfl, rfl⟩
    ⟨_, List.mem_cons_self, rfl, by decide +kernel⟩

end OrderbookAggregator
