import OrderbookAggregator.Proof.Health
import OrderbookAggregator.Proof.Ownership
import OrderbookAggregator.Proof.Sequence

/-!
# What the counters count

A frame is accepted, faulty or neither, and the loop counts it as what it is. What is accepted is
posted, unless the merger is gone, and what is posted can be followed up to the summaries. So the
counters of the exchanges and the one of the merger can be compared.
-/

namespace OrderbookAggregator

open LabelledRun

/-! ### Frames -/

/-- What a text frame is to a handler. -/
inductive Verdict where
  /-- A snapshot for the consumer. -/
  | accepted
  /-- It cannot be decoded, is stale, or tells of an error of the server. -/
  | faulty
  /-- Neither. -/
  | control
  deriving DecidableEq

def ExchangeMetrics.count (m : ExchangeMetrics) (frame : Frame) : Verdict → ExchangeMetrics
  | .accepted => { m with
      decodeLatency := m.decodeLatency.record (frame.decoded.since frame.start)
      messages := fetchAddU64 m.messages 1 }
  | .faulty => { m with errors := fetchAddU64 m.errors 1 }
  | .control => m

/-- A handler counts every frame as what it is, and tries to send what is accepted. -/
def WsHandler.Judges {H : Type} (ws : WsHandler H) (verdict : H → Bytes → Option Verdict) : Prop :=
  ∀ {abandoned handler metrics frame out},
    ws.processText abandoned handler metrics frame = .ok out →
      ∃ v, verdict handler frame.text = some v ∧ out.metrics = metrics.count frame v
        ∧ (v = .accepted ↔ out.sent.isSome ∨ out.result = .shutdown)

def Tracker.verdict (last n : Nat) : Verdict := if Drops last n then .faulty else .accepted

theorem handleSnapshot_judges (exchangeId : ExchangeId) (abandoned : Bool) (frame : Frame)
    (last : Nat) (metrics : ExchangeMetrics) (seq : Nat) (bids asks : ArrayVec RawLevel depth) :
    let out := handleSnapshot exchangeId abandoned frame last metrics seq bids asks
    out.metrics = metrics.count frame (Tracker.verdict last seq)
      ∧ (Tracker.verdict last seq = .accepted ↔ out.sent.isSome ∨ out.result = .shutdown) := by
  rw [handleSnapshot, Tracker.verdict]
  by_cases hdrops : Tracker.Drops last seq
  · have htest : 0 < seq ∧ 0 < last ∧ seq ≤ last := hdrops
    rw [if_pos htest, if_pos hdrops]
    exact ⟨rfl, by simp⟩
  · have htest : ¬ (0 < seq ∧ 0 < last ∧ seq ≤ last) := hdrops
    rw [if_neg htest, if_neg hdrops]
    refine ⟨rfl, iff_of_true rfl ?_⟩
    cases abandoned with
    | true => exact Or.inr rfl
    | false => exact Or.inl rfl

namespace Binance

/-- `none` where the walk panics. -/
def verdict (memmem : Memmem) (handler : Handler) (text : Bytes) : Option Verdict :=
  match walk memmem text with
  | .error _ => none
  | .ok none => some .faulty
  | .ok (some (seq, _, _)) => some (Tracker.verdict handler.lastSeq seq)

theorem judges (memmem : Memmem) : (wsHandler memmem).Judges (verdict memmem) := by
  intro abandoned handler metrics frame out hprocess
  obtain ⟨o, hwalk, rfl⟩ := Exec.exists_of_map ((processText_eq ..).symm.trans hprocess)
  rw [verdict, hwalk]
  rcases o with _ | ⟨seq, bids, asks⟩
  · exact ⟨.faulty, rfl, rfl, by simp [Handler.outcome, handleParseError]⟩
  · exact ⟨_, rfl, handleSnapshot_judges ..⟩

end Binance

namespace Bitstamp

def verdict (memmem : Memmem) (handler : Handler) (text : Bytes) : Option Verdict :=
  match walk memmem text with
  | .error _ => none
  | .ok none => some .faulty
  | .ok (some (event, micro, _, _)) =>
    if event = bytes "data" then some (Tracker.verdict handler.lastMicro micro)
    else if event = bytes "bts:error" then some .faulty
    else some .control

theorem judges (memmem : Memmem) : (wsHandler memmem).Judges (verdict memmem) := by
  intro abandoned handler metrics frame out hprocess
  obtain ⟨o, hwalk, rfl⟩ := Exec.exists_of_map ((processText_eq ..).symm.trans hprocess)
  rw [verdict, hwalk]
  rcases o with _ | ⟨event, micro, bids, asks⟩
  · exact ⟨.faulty, rfl, rfl, by simp [Handler.outcome, handleParseError]⟩
  rw [Handler.outcome]
  dsimp only
  split_ifs
  · exact ⟨_, rfl, handleSnapshot_judges ..⟩
  · exact ⟨.faulty, rfl, rfl, by simp⟩
  · exact ⟨.control, rfl, rfl, by simp⟩

end Bitstamp

/-! ### Runs of a loop -/

/-- How the counters differ, by the frames accepted, the steps that failed and the sleeps begun. -/
structure ExchangeMetrics.Counted (m m' : ExchangeMetrics) (accepted : List Frame)
    (failures sleeps : List WsLabel) : Prop where
  messages : m'.messages ≡ m.messages + accepted.length [MOD 2 ^ 64]
  decodeLatency : m'.decodeLatency
    = (accepted.map fun frame => frame.decoded.since frame.start).foldl .record m.decodeLatency
  errors : m'.errors ≡ m.errors + failures.length [MOD 2 ^ 64]
  reconnections : m'.reconnections ≡ m.reconnections + sleeps.length [MOD 2 ^ 64]

namespace ExchangeMetrics.Counted

theorem refl (m : ExchangeMetrics) : Counted m m [] [] [] :=
  ⟨Nat.ModEq.refl _, rfl, Nat.ModEq.refl _, Nat.ModEq.refl _⟩

theorem modEq_trans {a b c m n : Nat} (h : b ≡ a + m [MOD 2 ^ 64]) (h' : c ≡ b + n [MOD 2 ^ 64]) :
    c ≡ a + (m + n) [MOD 2 ^ 64] := by
  rw [← Nat.add_assoc]
  exact h'.trans (h.add_right n)

theorem trans {m₁ m₂ m₃ : ExchangeMetrics} {accepted accepted' : List Frame}
    {failures failures' sleeps sleeps' : List WsLabel} (h : Counted m₁ m₂ accepted failures sleeps)
    (h' : Counted m₂ m₃ accepted' failures' sleeps') :
    Counted m₁ m₃ (accepted ++ accepted') (failures ++ failures') (sleeps ++ sleeps') where
  messages := by
    rw [List.length_append]
    exact modEq_trans h.messages h'.messages
  decodeLatency := by rw [List.map_append, List.foldl_append, h'.decodeLatency, h.decodeLatency]
  errors := by
    rw [List.length_append]
    exact modEq_trans h.errors h'.errors
  reconnections := by
    rw [List.length_append]
    exact modEq_trans h.reconnections h'.reconnections

theorem failure (m : ExchangeMetrics) (connected : Bool) (label : WsLabel) :
    Counted m { m with errors := fetchAddU64 m.errors 1, connected } [] [label] [] :=
  ⟨Nat.ModEq.refl _, rfl, Nat.mod_modEq _ _, Nat.ModEq.refl _⟩

theorem quiet (m : ExchangeMetrics) (connected : Bool) :
    Counted m { m with connected } [] [] [] :=
  ⟨Nat.ModEq.refl _, rfl, Nat.ModEq.refl _, Nat.ModEq.refl _⟩

theorem sleep (m : ExchangeMetrics) (label : WsLabel) :
    Counted m { m with reconnections := fetchAddU64 m.reconnections 1 } [] [] [label] :=
  ⟨Nat.ModEq.refl _, rfl, Nat.ModEq.refl _, Nat.mod_modEq _ _⟩

theorem count (m : ExchangeMetrics) (frame : Frame) (label : WsLabel) (v : Verdict)
    (connected : Bool) :
    Counted m { m.count frame v with connected } (if v = .accepted then [frame] else [])
      (if v = .faulty then [label] else []) [] := by
  cases v with
  | accepted => exact ⟨Nat.mod_modEq _ _, rfl, Nat.ModEq.refl _, Nat.ModEq.refl _⟩
  | faulty => exact ⟨Nat.ModEq.refl _, rfl, Nat.mod_modEq _ _, Nat.ModEq.refl _⟩
  | control => exact ⟨Nat.ModEq.refl _, rfl, Nat.ModEq.refl _, Nat.ModEq.refl _⟩

end ExchangeMetrics.Counted

namespace WsLoop

variable {H : Type} {ws : WsHandler H} {symbol : Bytes} (verdict : H → Bytes → Option Verdict)

def accepting (s : WsLoop H) : WsLabel → List Frame
  | .read (.text frame _) => if verdict s.handler frame.text = some .accepted then [frame] else []
  | _ => []

/-- The steps that fail: to connect, to subscribe, to read, or to make sense of a frame. -/
def failing (s : WsLoop H) : WsLabel → List WsLabel
  | .connect .timedOut => [.connect .timedOut]
  | .connect .failed => [.connect .failed]
  | .subscribe false => [.subscribe false]
  | .read .error => [.read .error]
  | .read (.text frame abandoned) =>
    if verdict s.handler frame.text = some .faulty then [.read (.text frame abandoned)] else []
  | _ => []

def sleeping (s : WsLoop H) : WsLabel → List WsLabel
  | .backoff random => if s.cancelled then [] else [.backoff random]
  | _ => []

variable {verdict}

theorem counted_of_step (hjudges : ws.Judges verdict) {s s' : WsLoop H} {label : WsLabel}
    (h : s.step ws symbol label = some s') :
    s.metrics.Counted s'.metrics (s.accepting verdict label) (s.failing verdict label)
      (s.sleeping label) := by
  have htext {frame : Frame} {abandoned : Bool} {out : Handled H}
      (hprocess : ws.processText abandoned s.handler s.metrics frame = .ok out)
      (connected : Bool) : s.metrics.Counted { out.metrics with connected }
        (s.accepting verdict (.read (.text frame abandoned)))
        (s.failing verdict (.read (.text frame abandoned))) [] := by
    obtain ⟨v, hv, hmetrics, -⟩ := hjudges hprocess
    rw [hmetrics, accepting, failing, hv]
    simp only [Option.some_inj]
    exact .count s.metrics frame _ v connected
  cases step_cases h with
  | cancel | start | subscribed | readOther | wake | cutShort => exact .refl _
  | subscribing | unsubscribing => exact .quiet s.metrics true
  | readCancelled | readEnded => exact .quiet s.metrics false
  | @unconnected outcome _ houtcome =>
      cases outcome with
      | timedOut | failed => exact .failure s.metrics s.metrics.connected _
      | established => exact absurd rfl houtcome
  | unsubscribed | readError => exact .failure s.metrics false _
  | text _ hprocess | shutdown _ hprocess => exact htext hprocess _
  | reconnect _ hprocess => exact htext hprocess false
  | giveUp _ hcancelled =>
      rw [sleeping, if_pos hcancelled]
      exact .refl _
  | backoff _ hrunning =>
      rw [sleeping, hrunning]
      exact .sleep s.metrics _

theorem counted_of_run (hjudges : ws.Judges verdict) {s s' : WsLoop H} {labels : List WsLabel}
    (hrun : run (step ws symbol) s labels = some s') :
    s.metrics.Counted s'.metrics (observe (step ws symbol) (accepting verdict) s labels)
      (observe (step ws symbol) (failing verdict) s labels)
      (observe (step ws symbol) sleeping s labels) := by
  refine run_induction (fun labels s' => s.metrics.Counted s'.metrics
    (observe (step ws symbol) (accepting verdict) s labels)
    (observe (step ws symbol) (failing verdict) s labels)
    (observe (step ws symbol) sleeping s labels)) (.refl _) ?_ hrun
  intro labels s₁ label s₂ hrun ih hstep
  rw [observe_concat hrun, observe_concat hrun, observe_concat hrun]
  exact ih.trans (counted_of_step hjudges hstep)

/-- The frames that are answered with `Shutdown`. -/
def refusing (ws : WsHandler H) (s : WsLoop H) : WsLabel → List Frame
  | .read (.text frame abandoned) =>
    match ws.processText abandoned s.handler s.metrics frame with
    | .ok { result := .shutdown, .. } => [frame]
    | _ => []
  | _ => []

/-- A frame that is accepted is handed over or refused. -/
theorem length_accepting (hjudges : ws.Judges verdict) {e : Nat}
    {decodes : Bytes → OrderBook → Prop} (hfeeds : ws.Feeds e decodes) {s s' : WsLoop H}
    {label : WsLabel} (h : s.step ws symbol label = some s') :
    (s.accepting verdict label).length
      = (s.outgoing ws label).toList.length + (s.refusing ws label).length := by
  have htext {frame : Frame} {abandoned : Bool} {out : Handled H}
      (hprocess : ws.processText abandoned s.handler s.metrics frame = .ok out) :
      (s.accepting verdict (.read (.text frame abandoned))).length
        = (s.outgoing ws (.read (.text frame abandoned))).toList.length
          + (s.refusing ws (.read (.text frame abandoned))).length := by
    obtain ⟨v, hv, -, haccepted⟩ := hjudges hprocess
    have houtgoing : s.outgoing ws (.read (.text frame abandoned)) = out.sent := by
      rw [outgoing, hprocess]
      rfl
    rw [houtgoing, accepting, refusing, hv, hprocess]
    simp only [Option.some_inj, haccepted]
    obtain ⟨result, handler, metrics, sent⟩ := out
    cases sent with
    | some book =>
        obtain ⟨-, rfl, -⟩ := hfeeds.posts hprocess rfl
        rfl
    | none => cases result <;> rfl
  cases step_cases h with
  | text _ hprocess | reconnect _ hprocess | shutdown _ hprocess => exact htext hprocess
  | cancel | start | unconnected | subscribing | unsubscribing | subscribed | unsubscribed
  | readCancelled | readOther | readError | readEnded | giveUp | backoff | wake | cutShort => rfl

/-- A loop that has returned takes no step but for the token. -/
theorem eq_cancel_of_returned {s s' : WsLoop H} {label : WsLabel}
    (h : s.step ws symbol label = some s') (hreturned : s.pc = .returned) : label = .cancel := by
  cases step_cases h with
  | cancel => rfl
  | start hpc | unconnected hpc | subscribing hpc | unsubscribing hpc | subscribed hpc
  | unsubscribed hpc | readCancelled hpc | text hpc | reconnect hpc | shutdown hpc | readOther hpc
  | readError hpc | readEnded hpc | giveUp hpc | backoff hpc | wake hpc | cutShort hpc =>
      rw [hreturned] at hpc
      cases hpc

/-- A loop refuses one frame at most, and returns with it. -/
theorem refused_of_run {s s' : WsLoop H} {labels : List WsLabel}
    (hrun : run (step ws symbol) s labels = some s') :
    observe (step ws symbol) (refusing ws) s labels = []
    ∨ (observe (step ws symbol) (refusing ws) s labels).length = 1 ∧ s'.pc = .returned := by
  refine run_induction (fun labels s' => observe (step ws symbol) (refusing ws) s labels = []
    ∨ (observe (step ws symbol) (refusing ws) s labels).length = 1 ∧ s'.pc = .returned)
    (Or.inl rfl) ?_ hrun
  intro labels s₁ label s₂ hrun ih hstep
  rw [observe_concat hrun]
  rcases ih with hnil | ⟨hone, hpc⟩
  · rw [hnil, List.nil_append]
    cases step_cases hstep with
    | @shutdown frame abandoned out _ hprocess hresult =>
        obtain ⟨result, handler, metrics, sent⟩ := out
        cases hresult
        rw [refusing, hprocess]
        exact Or.inr ⟨rfl, rfl⟩
    | @text frame abandoned out _ hprocess hresult | @reconnect frame abandoned out _ hprocess hresult =>
        obtain ⟨result, handler, metrics, sent⟩ := out
        cases hresult
        rw [refusing, hprocess]
        exact Or.inl rfl
    | cancel | start | unconnected | subscribing | unsubscribing | subscribed | unsubscribed
    | readCancelled | readOther | readError | readEnded | giveUp | backoff | wake | cutShort =>
        exact Or.inl rfl
  · -- nothing is read behind the return
    refine Or.inr ?_
    obtain rfl := eq_cancel_of_returned hstep hpc
    cases hstep
    have hnil : s₁.refusing ws .cancel = [] := rfl
    rw [hnil, List.append_nil]
    exact ⟨hone, hpc⟩

end WsLoop

/-! ### Runs of the program -/

/-- Where a publication is still to come. -/
def MergerPc.pending : MergerPc → Nat
  | .received _ _ => 1
  | _ => 0

theorem MergerPc.pending_eq_zero {pc : MergerPc} (h : ∀ i book, pc ≠ .received i book) :
    pc.pending = 0 := by
  cases pc with
  | received i book => exact absurd rfl (h i book)
  | loopHead | checking | polling | exited => rfl

namespace System

variable {k : Nat}

/-- The time from the start of decoding to the publication. -/
def latency (s : System k) : SystemLabel k → List Duration
  | .publish _ t1 =>
    match s.merger.pc with
    | .received _ book => [t1.since book.decodeStart]
    | _ => []
  | _ => []

theorem latency_of_not_received {s : System k} {label : SystemLabel k}
    (hpc : ∀ i book, s.merger.pc ≠ .received i book) : s.latency label = [] := by
  cases label with
  | publish t0 t1 =>
      rw [latency]
      split
      · exact absurd ‹_› (hpc _ _)
      · rfl
  | producer | receiver | isCancelled => rfl

theorem latency_of_stay {s s' : System k} {label : SystemLabel k}
    (hstep : s.step label = some s') (hmerger : s'.merger = s.merger) : s.latency label = [] := by
  cases step_cases hstep with
  | producer | receiver | isCancelled => rfl
  | @publish t0 t1 merger hpublish =>
      obtain ⟨i, book, hpc⟩ := Merger.pc_of_publish hpublish
      rw [Merger.step, hpc] at hpublish
      cases hpublish
      exact absurd ((congrArg Merger.pc hmerger).trans hpc) (Merger.pollFrom_ne_received _ _ _ _)

def latencies (labels : List (SystemLabel k)) : List Duration := observe step latency start labels

/-- What the merger has taken, published and counted. -/
structure Merged (labels : List (SystemLabel k)) (s : System k) : Prop where
  taken : ∑ e, (taken e labels).length = s.merger.published.length + s.merger.pc.pending
  merges : s.merger.merges ≡ s.merger.published.length [MOD 2 ^ 64]
  e2eLatency : s.merger.e2eLatency = (latencies labels).foldl .record .new
  latencies : (latencies labels).length = s.merger.published.length

theorem Merged.quiet {labels : List (SystemLabel k)} {s s' : System k}
    (hrun : run step start labels = some s) (h : Merged labels s) {label : SystemLabel k}
    (htake : ∀ e, label ≠ .receiver e .take) (hlatency : s.latency label = [])
    (hpending : s'.merger.pc.pending = s.merger.pc.pending) {pc : MergerPc}
    (hmerger : s'.merger = { s.merger with pc }) : Merged (labels ++ [label]) s' := by
  have hlatencies : System.latencies (labels ++ [label]) = System.latencies labels := by
    rw [System.latencies, observe_concat hrun, hlatency, List.append_nil]
    rfl
  refine ⟨?_, ?_, ?_, ?_⟩
  · simp only [taken_of_ne_take hrun _ (htake _)]
    rw [h.taken, hpending, hmerger]
  · rw [hmerger]
    exact h.merges
  · rw [hmerger, hlatencies]
    exact h.e2eLatency
  · rw [hmerger, hlatencies]
    exact h.latencies

theorem merged_of_run {labels : List (SystemLabel k)} {s : System k}
    (hrun : run step start labels = some s) : Merged labels s := by
  refine run_induction Merged ?_ ?_ hrun
  · exact ⟨Finset.sum_eq_zero fun _ _ => rfl, Nat.ModEq.refl _, rfl, rfl⟩
  intro labels s label s' hrun h hstep
  cases affects_of_step hrun hstep with
  | @take e slot v hpc hreturned =>
      have hlatencies : System.latencies (labels ++ [.receiver e .take]) = System.latencies labels := by
        rw [System.latencies, observe_concat hrun]
        exact List.append_nil _
      have hcount (e' : Fin k) : (System.taken e' (labels ++ [.receiver e .take])).length
          = (System.taken e' labels).length + if e' = e then 1 else 0 := by
        by_cases he : e' = e
        · subst he
          rw [taken_take hrun hreturned, if_pos rfl, List.length_append, List.length_singleton]
        · rw [taken_of_ne_take hrun e' (by simpa using Ne.symm he), if_neg he, Nat.add_zero]
      have hpending : s.merger.pc.pending = 0 := MergerPc.pending_eq_zero (by simp [hpc])
      refine ⟨?_, h.merges, hlatencies ▸ h.e2eLatency, hlatencies ▸ h.latencies⟩
      simp only [hcount, Finset.sum_add_distrib, Finset.sum_ite_eq', Finset.mem_univ, if_true]
      rw [h.taken, hpending]
      rfl
  | @publish t0 t1 i book hpc =>
      have hlatencies : System.latencies (labels ++ [.publish t0 t1])
          = System.latencies labels ++ [t1.since book.decodeStart] := by
        rw [System.latencies, observe_concat hrun, latency, hpc]
        rfl
      have hpending : s.merger.pc.pending = 1 := by rw [hpc]; rfl
      have hpolls := MergerPc.pending_eq_zero (Merger.pollFrom_ne_received k (i + 1))
      refine ⟨?_, ?_, ?_, ?_⟩
      · have htaken (e : Fin k) : System.taken e (labels ++ [.publish t0 t1]) = System.taken e labels :=
          taken_of_ne_take hrun e (by simp)
        simp only [htaken]
        rw [h.taken, hpending, hpolls, Merger.publish, List.length_append, List.length_singleton]
      · refine (Nat.mod_modEq _ _).trans ?_
        rw [Merger.publish, List.length_append]
        exact h.merges.add_right 1
      · rw [hlatencies, List.foldl_append, ← h.e2eLatency]
        rfl
      · rw [hlatencies, Merger.publish, List.length_append, List.length_append, h.latencies]
        rfl
  | stay htake hmerger =>
      exact h.quiet hrun htake (latency_of_stay hstep hmerger) (by rw [hmerger]) hmerger
  | @move _ _ pc htake hpc hpc' hmerger =>
      refine h.quiet hrun htake (latency_of_not_received hpc) ?_ hmerger
      rw [MergerPc.pending_eq_zero hpc, hmerger, MergerPc.pending_eq_zero hpc']

end System

namespace Pipeline

section Seen

variable {k : Nat} {H : Fin k → Type} {ws : (e : Fin k) → WsHandler (H e)} {symbol : Bytes}
  {handlers : (e : Fin k) → H e} {verdict : (e : Fin k) → H e → Bytes → Option Verdict}
  {decodes : Fin k → Bytes → OrderBook → Prop}

/-- What is observed of the loop of an exchange along a run. -/
def seen {ε : Type} (ws : (e : Fin k) → WsHandler (H e)) (symbol : Bytes) (s : Pipeline k H)
    (e : Fin k) (obs : WsLoop (H e) → WsLabel → List ε) (labels : List (PipelineLabel k)) : List ε :=
  observe (WsLoop.step (ws e) symbol) obs (s.loops e) (loopLabels e labels)

theorem seen_concat {ε : Type} {s s' : Pipeline k H} {labels : List (PipelineLabel k)}
    (hrun : run (step ws symbol) s labels = some s') {e : Fin k}
    (obs : WsLoop (H e) → WsLabel → List ε) (label : PipelineLabel k) :
    seen ws symbol s e obs (labels ++ [label])
      = seen ws symbol s e obs labels
        ++ observe (WsLoop.step (ws e) symbol) obs (s'.loops e) (loopLabel e label) := by
  rw [seen, loopLabels, List.flatMap_append, List.flatMap_singleton]
  exact observe_append (run_loop hrun e)

theorem length_accepted_of_step (hjudges : ∀ e, (ws e).Judges (verdict e))
    (hfeeds : ∀ e : Fin k, (ws e).Feeds e (decodes e)) {s s' : Pipeline k H}
    {label : PipelineLabel k} (hstep : s.step ws symbol label = some s') (e : Fin k) :
    (observe (WsLoop.step (ws e) symbol) (WsLoop.accepting (verdict e)) (s.loops e)
        (loopLabel e label)).length
      = (posting ws e s label).length
        + (observe (WsLoop.step (ws e) symbol) (WsLoop.refusing (ws e)) (s.loops e)
          (loopLabel e label)).length := by
  have hloop {e' : Fin k} {label : WsLabel} {loop : WsLoop (H e')}
      (hloop : (s.loops e').step (ws e') symbol label = some loop) :
      (observe (WsLoop.step (ws e) symbol) (WsLoop.accepting (verdict e)) (s.loops e)
          (loopLabel e (.loop e' label))).length
        = (posting ws e s (.loop e' label)).length
          + (observe (WsLoop.step (ws e) symbol) (WsLoop.refusing (ws e)) (s.loops e)
            (loopLabel e (.loop e' label))).length := by
    rw [loopLabel, posting]
    by_cases he : e' = e
    · subst he
      rw [if_pos rfl, if_pos rfl, observe_singleton, observe_singleton]
      exact WsLoop.length_accepting (hjudges e') (hfeeds e') hloop
    · rw [if_neg he, if_neg he]
      rfl
  cases step_cases hstep with
  | loop _ h | post _ h => exact hloop h
  | cancel | sender | receiver | isCancelled | publish => rfl

theorem length_accepted (hjudges : ∀ e, (ws e).Judges (verdict e))
    (hfeeds : ∀ e : Fin k, (ws e).Feeds e (decodes e)) {s s' : Pipeline k H}
    {labels : List (PipelineLabel k)} (hrun : run (step ws symbol) s labels = some s') (e : Fin k) :
    (seen ws symbol s e (WsLoop.accepting (verdict e)) labels).length
      = (posted ws symbol e s labels).length
        + (seen ws symbol s e (WsLoop.refusing (ws e)) labels).length := by
  refine run_induction (fun labels _ =>
    (seen ws symbol s e (WsLoop.accepting (verdict e)) labels).length
      = (posted ws symbol e s labels).length
        + (seen ws symbol s e (WsLoop.refusing (ws e)) labels).length) rfl ?_ hrun
  intro labels s₁ label s₂ hrun ih hstep
  have hlast := length_accepted_of_step hjudges hfeeds hstep e
  rw [seen_concat hrun, seen_concat hrun, posted, observe_concat hrun, List.length_append,
    List.length_append, List.length_append]
  rw [posted] at ih
  omega

theorem refused_eq_nil (hfeeds : ∀ e : Fin k, (ws e).Feeds e (decodes e)) {s : Pipeline k H}
    {labels : List (PipelineLabel k)}
    (hrun : run (step ws symbol) (start handlers) labels = some s) (hruns : ¬ MergerExited s)
    (e : Fin k) : seen ws symbol (start handlers) e (WsLoop.refusing (ws e)) labels = [] := by
  refine run_induction (fun labels s => ¬ MergerExited s →
    seen ws symbol (start handlers) e (WsLoop.refusing (ws e)) labels = []) (fun _ => rfl) ?_ hrun
    hruns
  intro labels s label s' hrun ih hstep hruns
  have hbefore : ¬ MergerExited s := fun hexited => hruns (mergerExited_of_step hstep hexited)
  have hloop {e' : Fin k} {label : WsLabel} (hmay : s.MayLoop e' label) :
      observe (WsLoop.step (ws e) symbol) (WsLoop.refusing (ws e)) (s.loops e)
        (loopLabel e (.loop e' label)) = [] := by
    rw [loopLabel]
    by_cases he : e' = e
    · subst he
      rw [if_pos rfl, observe_singleton]
      unfold WsLoop.refusing
      split
      · split
        · rename_i frame abandoned _ handler metrics sent hprocess
          exact absurd (mergerExited_of_shutsDown hfeeds hrun hmay ⟨_, _, _, rfl, hprocess, rfl⟩)
            hbefore
        · rfl
      · rfl
    · rw [if_neg he]
      rfl
  rw [seen_concat hrun, ih hbefore, List.nil_append]
  cases step_cases hstep with
  | loop hmay | post hmay => exact hloop hmay
  | cancel | sender | receiver | isCancelled | publish => rfl

/-- The books of an exchange that a later one took the place of. -/
def overwritten (ws : (e : Fin k) → WsHandler (H e)) (symbol : Bytes) (s : Pipeline k H) (e : Fin k)
    (labels : List (PipelineLabel k)) : List Sent :=
  Slot.overwritten (System.slotLabels e (systemLabels ws symbol s labels))

/-- The books of an exchange that were dropped with its slot. -/
def disposed (ws : (e : Fin k) → WsHandler (H e)) (symbol : Bytes) (s : Pipeline k H) (e : Fin k)
    (labels : List (PipelineLabel k)) : List Sent :=
  Slot.disposed (System.slotLabels e (systemLabels ws symbol s labels))

theorem disposed_eq_nil {s : Pipeline k H} {labels : List (PipelineLabel k)}
    (hrun : run (step ws symbol) (start handlers) labels = some s) (hruns : ¬ MergerExited s)
    (e : Fin k) : disposed ws symbol (start handlers) e labels = [] := by
  have hslot := System.run_slot (run_system hrun) e
  have hattend := System.attends_of_run (run_system hrun) e
  have hright : (s.system.slots e).receiverDropped = false := by
    cases hreceiver : (s.system.slots e).receiver with
    | released prev | gone =>
        rw [hreceiver] at hattend
        exact absurd hattend hruns
    | idle | loaded | swapped | moved => rw [Slot.receiverDropped, hreceiver]
  have hfree := Slot.freeInv_of_run hslot
  refine Slot.disposed_eq_nil hslot (List.eq_nil_of_length_eq_zero ?_)
  have hlength := congrArg List.length hfree.order
  rw [List.length_append, List.length_drop, hfree.length, hright] at hlength
  have hleft := Bool.toNat_le (s.system.slots e).senderDropped
  have hfalse : Bool.toNat false = 0 := rfl
  omega

theorem length_accepted_eq (hjudges : ∀ e, (ws e).Judges (verdict e))
    (hfeeds : ∀ e : Fin k, (ws e).Feeds e (decodes e)) {s : Pipeline k H}
    {labels : List (PipelineLabel k)}
    (hrun : run (step ws symbol) (start handlers) labels = some s) (e : Fin k) :
    (seen ws symbol (start handlers) e (WsLoop.accepting (verdict e)) labels).length
      = (System.taken e (systemLabels ws symbol (start handlers) labels)).length
        + (overwritten ws symbol (start handlers) e labels).length
        + (disposed ws symbol (start handlers) e labels).length
        + (s.system.slots e).held.length + (s.outbox e).toList.length
        + (seen ws symbol (start handlers) e (WsLoop.refusing (ws e)) labels).length := by
  have hposted := congrArg List.length (sentBy_append_outbox hrun e)
  have hsent := (Slot.sent_perm (System.run_slot (run_system hrun) e)).length_eq
  have haccepted := length_accepted hjudges hfeeds hrun e
  simp only [List.length_append, List.length_map] at hposted hsent
  change (System.sentBy e _).length = (System.taken e _).length + _ + _ + _ at hsent
  rw [overwritten, disposed]
  omega

theorem messages_of_run (hjudges : ∀ e, (ws e).Judges (verdict e))
    (hfeeds : ∀ e : Fin k, (ws e).Feeds e (decodes e)) {s : Pipeline k H}
    {labels : List (PipelineLabel k)}
    (hrun : run (step ws symbol) (start handlers) labels = some s) (e : Fin k) :
    (s.loops e).metrics.messages
      ≡ (System.taken e (systemLabels ws symbol (start handlers) labels)).length
        + (overwritten ws symbol (start handlers) e labels).length
        + (disposed ws symbol (start handlers) e labels).length
        + (s.system.slots e).held.length + (s.outbox e).toList.length
        + (seen ws symbol (start handlers) e (WsLoop.refusing (ws e)) labels).length
        [MOD 2 ^ 64] := by
  have hmessages := (WsLoop.counted_of_run (hjudges e) (run_loop hrun e)).messages
  have hzero : ((start handlers).loops e).metrics.messages = 0 := rfl
  rw [hzero, Nat.zero_add] at hmessages
  rw [← length_accepted_eq hjudges hfeeds hrun e]
  exact hmessages

theorem sum_messages_of_run (hjudges : ∀ e, (ws e).Judges (verdict e))
    (hfeeds : ∀ e : Fin k, (ws e).Feeds e (decodes e)) {s : Pipeline k H}
    {labels : List (PipelineLabel k)}
    (hrun : run (step ws symbol) (start handlers) labels = some s) (hruns : ¬ MergerExited s) :
    ∑ e, (s.loops e).metrics.messages
      ≡ s.system.merger.merges + s.system.merger.pc.pending
        + ∑ e, ((overwritten ws symbol (start handlers) e labels).length
          + (s.system.slots e).held.length + (s.outbox e).toList.length) [MOD 2 ^ 64] := by
  have hmerged := System.merged_of_run (run_system hrun)
  have hmessages (e : Fin k) : (s.loops e).metrics.messages
      ≡ (System.taken e (systemLabels ws symbol (start handlers) labels)).length
        + ((overwritten ws symbol (start handlers) e labels).length
          + (s.system.slots e).held.length + (s.outbox e).toList.length) [MOD 2 ^ 64] := by
    have hall := messages_of_run hjudges hfeeds hrun e
    rw [disposed_eq_nil hrun hruns, refused_eq_nil hfeeds hrun hruns] at hall
    simpa only [List.length_nil, Nat.add_zero, Nat.add_assoc] using hall
  calc ∑ e, (s.loops e).metrics.messages
      ≡ ∑ e, ((System.taken e (systemLabels ws symbol (start handlers) labels)).length
          + ((overwritten ws symbol (start handlers) e labels).length
            + (s.system.slots e).held.length + (s.outbox e).toList.length)) [MOD 2 ^ 64] :=
        Nat.ModEq.sum fun e _ => hmessages e
    _ ≡ s.system.merger.published.length + s.system.merger.pc.pending
        + ∑ e, ((overwritten ws symbol (start handlers) e labels).length
            + (s.system.slots e).held.length + (s.outbox e).toList.length) [MOD 2 ^ 64] := by
        rw [Finset.sum_add_distrib, hmerged.taken]
    _ ≡ s.system.merger.merges + s.system.merger.pc.pending
        + ∑ e, ((overwritten ws symbol (start handlers) e labels).length
          + (s.system.slots e).held.length + (s.outbox e).toList.length) [MOD 2 ^ 64] :=
        (hmerged.merges.symm.add_right _).add_right _

end Seen

end Pipeline

/-! ### The exchanges -/

def verdicts (memmem : Memmem) : (e : Fin 2) → Adapter e → Bytes → Option Verdict
  | 0 => Binance.verdict memmem
  | 1 => Bitstamp.verdict memmem

theorem judges_adapters (memmem : Memmem) :
    ∀ e, (adapters memmem e).Judges (verdicts memmem e)
  | 0 => Binance.judges memmem
  | 1 => Bitstamp.judges memmem

namespace Pipeline

/-- **What the metrics count.** In every state that the program reaches between frames and
publications, the counters of an exchange are, but for wrapping, the numbers of its accepted frames,
of its failures and of its reconnections, and its histogram is made of the decode times of the frames
accepted; and those of the merger count the summaries published, each with the time since its newest
book began to be decoded. Within a frame or a publication, between two writes to the metrics, they
may differ: a frame and a publication are each one step here. -/
theorem metrics_count (memmem : Memmem) (symbol : Bytes) {labels : List (PipelineLabel 2)}
    {s : Pipeline 2 Adapter} (hrun : run (step (adapters memmem) symbol) wired labels = some s) :
    (∀ e, ExchangeMetrics.new.Counted (s.loops e).metrics
      (seen (adapters memmem) symbol wired e (WsLoop.accepting (verdicts memmem e)) labels)
      (seen (adapters memmem) symbol wired e (WsLoop.failing (verdicts memmem e)) labels)
      (seen (adapters memmem) symbol wired e WsLoop.sleeping labels))
    ∧ s.system.merger.merges ≡ s.system.merger.published.length [MOD 2 ^ 64]
    ∧ ∃ latencies : List Duration, latencies.length = s.system.merger.published.length
      ∧ s.system.merger.e2eLatency = latencies.foldl .record .new
      ∧ latencies = System.latencies (systemLabels (adapters memmem) symbol wired labels) := by
  have hmerged := System.merged_of_run (run_system hrun)
  refine ⟨fun e => ?_, hmerged.merges, _, hmerged.latencies, hmerged.e2eLatency, rfl⟩
  exact WsLoop.counted_of_run (judges_adapters memmem e) (run_loop hrun e)

theorem metrics_count_firstSnapshot :
    ∃ s, run (step (adapters .scan) []) wired (firstSnapshot ++ [.publish 7 8]) = some s
      ∧ ExchangeMetrics.new.Counted (s.loops 0).metrics
        (seen (adapters .scan) [] wired 0 (WsLoop.accepting (verdicts .scan 0))
          (firstSnapshot ++ [.publish 7 8]))
        (seen (adapters .scan) [] wired 0 (WsLoop.failing (verdicts .scan 0))
          (firstSnapshot ++ [.publish 7 8]))
        (seen (adapters .scan) [] wired 0 WsLoop.sleeping (firstSnapshot ++ [.publish 7 8])) := by
  have hrun := (Option.some_get isSome_firstSnapshot).symm
  exact ⟨_, hrun, (metrics_count .scan [] hrun).1 0⟩

/-- **Where the messages are.** In every state that the program reaches, the messages that an exchange
has counted are, but for wrapping, the books that the merger has taken from its slot, those that were
overwritten there, that are held there or were dropped with it, the one that is about to be sent, and
the one that was refused. While the merger runs nothing is dropped or refused, and the messages of
all exchanges exceed the merges by what is overwritten or still under way. -/
theorem messages_accounted_for (memmem : Memmem) (symbol : Bytes)
    {labels : List (PipelineLabel 2)} {s : Pipeline 2 Adapter}
    (hrun : run (step (adapters memmem) symbol) wired labels = some s) :
    (∀ e, (s.loops e).metrics.messages
      ≡ (System.taken e (systemLabels (adapters memmem) symbol wired labels)).length
        + (overwritten (adapters memmem) symbol wired e labels).length
        + (disposed (adapters memmem) symbol wired e labels).length
        + (s.system.slots e).held.length + (s.outbox e).toList.length
        + (seen (adapters memmem) symbol wired e (WsLoop.refusing (adapters memmem e)) labels).length
        [MOD 2 ^ 64])
    ∧ (∀ e, (seen (adapters memmem) symbol wired e (WsLoop.refusing (adapters memmem e)) labels).length
      ≤ 1)
    ∧ (¬ MergerExited s → ∑ e, (s.loops e).metrics.messages
      ≡ s.system.merger.merges + s.system.merger.pc.pending
        + ∑ e, ((overwritten (adapters memmem) symbol wired e labels).length
          + (s.system.slots e).held.length + (s.outbox e).toList.length) [MOD 2 ^ 64]) := by
  have hfeeds := feeds_adapters memmem
  have hjudges := judges_adapters memmem
  refine ⟨messages_of_run hjudges hfeeds hrun, fun e => ?_, fun hruns => ?_⟩
  · rcases WsLoop.refused_of_run (run_loop hrun e) with hnil | ⟨hone, -⟩
    · exact (congrArg List.length hnil).le.trans (Nat.zero_le 1)
    · exact hone.le
  · exact sum_messages_of_run hjudges hfeeds hrun hruns

/-- One message is counted for the summary published, and none is under way. -/
theorem messages_of_firstSnapshot :
    ∃ s, run (step (adapters .scan) []) wired (firstSnapshot ++ [.publish 7 8]) = some s
      ∧ s.system.merger.merges = 1
      ∧ ∑ e, (s.loops e).metrics.messages
        ≡ s.system.merger.merges + s.system.merger.pc.pending
          + ∑ e, ((overwritten (adapters .scan) [] wired e (firstSnapshot ++ [.publish 7 8])).length
            + (s.system.slots e).held.length + (s.outbox e).toList.length) [MOD 2 ^ 64] := by
  have hrun := (Option.some_get isSome_firstSnapshot).symm
  exact ⟨_, hrun, by decide +kernel, (messages_accounted_for .scan [] hrun).2.2 firstSnapshot_runs⟩

end Pipeline

end OrderbookAggregator
