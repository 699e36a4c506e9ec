import OrderbookAggregator.Exchange.Binance
import OrderbookAggregator.Exchange.WsLoop
import OrderbookAggregator.Library.LabelledRun
import OrderbookAggregator.Proof.Binance
import OrderbookAggregator.Proof.LevelArrays

/-!
# Whether an exchange is connected

The connection flag is set when a connection is established and has to be cleared by hand wherever
the loop leaves it. One exit does not: the one that a handler asks for when its consumer is gone.
-/

namespace OrderbookAggregator

open LabelledRun

/-- Whether an established connection is being subscribed to or read. -/
def WsPc.isConnected : WsPc → Bool
  | .subscribing _ | .reading => true
  | _ => false

namespace WsLoop

variable {H : Type} {ws : WsHandler H} {symbol : Bytes}

/-- The flag tells whether the exchange is connected. -/
def Truthful (s : WsLoop H) : Prop := s.metrics.connected = s.pc.isConnected

/-- The handler answers a text frame with `Shutdown`. -/
def ShutsDown (ws : WsHandler H) (s : WsLoop H) (label : WsLabel) : Prop :=
  ∃ frame abandoned out, label = .read (.text frame abandoned)
    ∧ ws.processText abandoned s.handler s.metrics frame = .ok out ∧ out.result = .shutdown

theorem not_shutsDown_of_ne {s : WsLoop H} {label : WsLabel}
    (h : ∀ frame abandoned, label ≠ .read (.text frame abandoned)) : ¬ ShutsDown ws s label := by
  rintro ⟨frame, abandoned, out, hlabel, -⟩
  exact h frame abandoned hlabel

theorem shutsDown_text_iff {s : WsLoop H} {frame : Frame} {abandoned : Bool} {out : Handled H}
    (hprocess : ws.processText abandoned s.handler s.metrics frame = .ok out) :
    ShutsDown ws s (.read (.text frame abandoned)) ↔ out.result = .shutdown := by
  constructor
  · rintro ⟨frame', abandoned', out', hlabel, hprocess', hresult⟩
    cases hlabel
    rw [hprocess] at hprocess'
    cases hprocess'
    exact hresult
  · intro hresult
    exact ⟨frame, abandoned, out, rfl, hprocess, hresult⟩

theorem truthful_of_step {s s' : WsLoop H} {label : WsLabel} (h : s.Truthful)
    (hstep : s.step ws symbol label = some s') : s'.Truthful ↔ ¬ ShutsDown ws s label := by
  rw [Truthful] at h
  cases step_cases hstep with
  | cancel => exact iff_of_true h (not_shutsDown_of_ne nofun)
  | start hpc =>
      rw [hpc] at h
      refine iff_of_true (h.trans ?_) (not_shutsDown_of_ne nofun)
      cases s.cancelled <;> rfl
  | unconnected hpc | giveUp hpc | backoff hpc | wake hpc | cutShort hpc | subscribed hpc =>
      rw [hpc] at h
      exact iff_of_true h (not_shutsDown_of_ne nofun)
  | subscribing | unsubscribing | unsubscribed | readCancelled | readError | readEnded =>
      exact iff_of_true rfl (not_shutsDown_of_ne nofun)
  | readOther => exact iff_of_true h (not_shutsDown_of_ne nofun)
  | text hpc hprocess hresult =>
      rw [shutsDown_text_iff hprocess, hresult]
      exact iff_of_true ((ws.metrics_processText hprocess).1.trans h) nofun
  | reconnect hpc hprocess hresult =>
      rw [shutsDown_text_iff hprocess, hresult]
      exact iff_of_true rfl nofun
  | shutdown hpc hprocess hresult =>
      -- the flag stays on
      rw [shutsDown_text_iff hprocess, hresult]
      refine iff_of_false (fun hright => ?_) (not_not_intro rfl)
      rw [hpc] at h
      have hflag : true = false :=
        ((ws.metrics_processText hprocess).1.trans h).symm.trans hright
      cases hflag

/-- **Whether the connection flag tells the truth.** It does in every state that a run reaches, that
is, it is on exactly while an established connection is being subscribed to or read, if and only if
no text frame of the run is answered with `Shutdown`. -/
theorem connected_iff_isConnected {handler : H} {metrics : ExchangeMetrics} {cancelled : Bool}
    (hmetrics : metrics.connected = false) {labels : List WsLabel} {s : WsLoop H}
    (hrun : run (step ws symbol) (new handler metrics cancelled) labels = some s) :
    (∀ s', Reached (step ws symbol) (new handler metrics cancelled) labels s' →
      s'.metrics.connected = s'.pc.isConnected)
    ↔ Throughout (step ws symbol) (fun s' label => ¬ ShutsDown ws s' label)
      (new handler metrics cancelled) labels := by
  refine run_induction (fun labels _ => (∀ s', Reached (step ws symbol) _ labels s' → s'.Truthful)
    ↔ Throughout (step ws symbol) (fun s' label => ¬ ShutsDown ws s' label) _ labels) ?_ ?_ hrun
  · refine iff_of_true (fun s' hreached => ?_) throughout_nil
    rw [reached_nil.mp hreached]
    exact hmetrics
  intro labels s label s' hrun ih hstep
  have hrun' := run_concat_eq_some.mpr ⟨s, hrun, hstep⟩
  rw [throughout_concat hrun, ← ih]
  simp only [reached_concat hrun', or_imp, forall_and, forall_eq]
  refine and_congr_right fun hbefore => ?_
  exact truthful_of_step (hbefore s (reached_of_run hrun)) hstep

/-- Connected, lost, and connected again. -/
def lostConnection : List WsLabel :=
  [.start, .connect .established, .read .other, .read .ended, .backoff 7, .wake, .start,
    .connect .established]

theorem isSome_lostConnection :
    (run (step (Binance.wsHandler .scan) []) (new ⟨0⟩ .new false) lostConnection).isSome := by
  rfl

theorem lostConnection_isConnected :
    (run (step (Binance.wsHandler .scan) []) (new ⟨0⟩ .new false) lostConnection).isSome
      ∧ ∀ s', Reached (step (Binance.wsHandler .scan) []) (new ⟨0⟩ .new false) lostConnection s' →
        s'.metrics.connected = s'.pc.isConnected := by
  refine ⟨isSome_lostConnection, ?_⟩
  refine (connected_iff_isConnected rfl (Option.some_get isSome_lostConnection).symm).mpr ?_
  rintro before label after s heq - ⟨frame, abandoned, out, rfl, -⟩
  have hmem : WsLabel.read (.text frame abandoned) ∈ lostConnection := by rw [heq]; simp
  simp [lostConnection] at hmem

/-- A snapshot arrives when the consumer is gone. -/
def abandonedSnapshot : List WsLabel :=
  [.start, .connect .established, .read (.text ⟨Binance.sampleSnapshot, 0, 0⟩ true)]

theorem isSome_abandonedSnapshot :
    (run (step (Binance.wsHandler .scan) []) (new ⟨0⟩ .new false) abandonedSnapshot).isSome := by
  decide +kernel

/-- The loop has returned, and the exchange still counts as connected. -/
theorem abandonedSnapshot_stays_connected :
    ∃ s, run (step (Binance.wsHandler .scan) []) (new ⟨0⟩ .new false) abandonedSnapshot = some s
      ∧ s.pc = .returned ∧ s.metrics.connected = true
      ∧ s.metrics.connected ≠ s.pc.isConnected :=
  ⟨_, (Option.some_get isSome_abandonedSnapshot).symm, by decide +kernel, by decide +kernel,
    by decide +kernel⟩

end WsLoop

end OrderbookAggregator
