import OrderbookAggregator.Proof.Sequence

/-!
# Rejected frames

A frame after which the handler goes on without having sent a book leaves nothing behind but an
error, and that only where it cannot be decoded or is stale. Two runs are compared: one over all
frames of a connection, the other over those that were not rejected, at whatever times it reads the
clock. In between, the counters of the first differ by the errors of the frames that it rejected.
-/

namespace OrderbookAggregator

/-- The handler goes on, but has sent no book. -/
def Handled.Rejected {H : Type} (out : Handled H) : Prop :=
  out.result = .continue ∧ out.sent = none

instance {H : Type} (out : Handled H) : Decidable out.Rejected :=
  inferInstanceAs (Decidable (_ ∧ _))

/-- A book as it is at whatever time it was decoded. -/
def OrderBook.untimed (book : OrderBook) : OrderBook := { book with decodeStart := 0 }

/-- The counters of the first have seen as many messages and more errors. -/
structure ExchangeMetrics.AheadBy (errors : Nat) (m m' : ExchangeMetrics) : Prop where
  messages : m.messages = m'.messages
  errors : m.errors ≡ m'.errors + errors [MOD 2 ^ 64]

namespace ExchangeMetrics.AheadBy

theorem refl (m : ExchangeMetrics) : AheadBy 0 m m := ⟨rfl, Nat.ModEq.refl _⟩

theorem trans {a b : Nat} {m₁ m₂ m₃ : ExchangeMetrics} (h : AheadBy a m₁ m₂)
    (h' : AheadBy b m₂ m₃) : AheadBy (b + a) m₁ m₃ where
  messages := h.messages.trans h'.messages
  errors := by
    rw [← Nat.add_assoc]
    exact h.errors.trans (h'.errors.add_right a)

theorem of_error (m : ExchangeMetrics) :
    AheadBy 1 { m with errors := fetchAddU64 m.errors 1 } m :=
  ⟨rfl, Nat.mod_modEq _ _⟩

theorem error {n : Nat} {m m' : ExchangeMetrics} (h : AheadBy n m m') :
    AheadBy n { m with errors := fetchAddU64 m.errors 1 }
      { m' with errors := fetchAddU64 m'.errors 1 } where
  messages := h.messages
  errors := calc
    (m.errors + 1) % 2 ^ 64 ≡ m.errors + 1 [MOD 2 ^ 64] := Nat.mod_modEq _ _
    _ ≡ m'.errors + n + 1 [MOD 2 ^ 64] := h.errors.add_right 1
    _ ≡ m'.errors + 1 + n [MOD 2 ^ 64] := by rw [Nat.add_right_comm]
    _ ≡ (m'.errors + 1) % 2 ^ 64 + n [MOD 2 ^ 64] := (Nat.mod_modEq _ _).symm.add_right n

end ExchangeMetrics.AheadBy

open ExchangeMetrics (AheadBy)

/-- The same frame at another time, with metrics that lag behind. -/
structure Handled.RepeatedBy {H : Type} (n : Nat) (out out' : Handled H) : Prop where
  result : out'.result = out.result
  handler : out'.handler = out.handler
  sent : out'.sent.map OrderBook.untimed = out.sent.map OrderBook.untimed
  metrics : AheadBy n out.metrics out'.metrics

theorem Handled.RepeatedBy.map {H K : Type} (f : H → K) {n : Nat} {out out' : Handled H}
    (h : out.RepeatedBy n out') : (out.map f).RepeatedBy n (out'.map f) where
  result := h.result
  handler := congrArg f h.handler
  sent := h.sent
  metrics := h.metrics

section Runs

variable {H : Type} (process : H → ExchangeMetrics → Frame → Exec (Handled H))
  (faulty : H → Frame → Bool)

/-- The frames that are not rejected. Those from a panic on have not been processed and stay. -/
def remaining : H → ExchangeMetrics → List Frame → List Frame
  | _, _, [] => []
  | handler, metrics, frame :: frames =>
    match process handler metrics frame with
    | .error _ => frame :: frames
    | .ok out =>
      if out.Rejected then remaining out.handler out.metrics frames
      else frame :: remaining out.handler out.metrics frames

/-- How many of the rejected frames are faulty. -/
def faults : H → ExchangeMetrics → List Frame → Nat
  | _, _, [] => 0
  | handler, metrics, frame :: frames =>
    match process handler metrics frame with
    | .error _ => 0
    | .ok out =>
      (if out.Rejected ∧ faulty handler frame then 1 else 0)
        + faults out.handler out.metrics frames

/-- The handler and the metrics that a run ends with. -/
def settled (handler : H) (metrics : ExchangeMetrics) (outs : List (Handled H)) :
    H × ExchangeMetrics :=
  outs.foldl (fun _ out => (out.handler, out.metrics)) (handler, metrics)

@[simp]
theorem settled_cons (handler : H) (metrics : ExchangeMetrics) (out : Handled H)
    (outs : List (Handled H)) :
    settled handler metrics (out :: outs) = settled out.handler out.metrics outs := rfl

/-- The books that a run sends to the slot. -/
def sentBooks (outs : List (Handled H)) : List OrderBook :=
  outs.filterMap fun out => out.sent.map OrderBook.untimed

/-- What a run and the run over the remaining frames have in common. -/
structure LeaveNoTrace (errors : Nat) (handler : H) (metrics metrics' : ExchangeMetrics)
    (outs outs' : List (Handled H)) : Prop where
  books : sentBooks outs' = sentBooks outs
  results : outs'.map (·.result) = (outs.filter fun out => ¬ out.Rejected).map (·.result)
  tracker : (settled handler metrics' outs').1 = (settled handler metrics outs).1
  counters : AheadBy errors (settled handler metrics outs).2 (settled handler metrics' outs').2

/-- What the comparison asks of a single frame: that it costs no more than an error if it is
rejected, and that else what it does depends on its text and the handler alone. -/
structure Unwinds : Prop where
  rejected : ∀ {handler metrics frame out}, process handler metrics frame = .ok out →
    out.Rejected → out.handler = handler
      ∧ AheadBy (if faulty handler frame then 1 else 0) out.metrics metrics
  repeats : ∀ {n handler metrics metrics' frame frame'}, AheadBy n metrics metrics' →
    frame'.text = frame.text →
    match process handler metrics frame with
    | .error _ => ∃ panic, process handler metrics' frame' = .error panic
    | .ok out => ∃ out', process handler metrics' frame' = .ok out' ∧ out.RepeatedBy n out'

/-- However the frames that remain are timed, the rejected ones have left no trace. -/
def RejectsWithoutTrace : Prop :=
  ∀ handler metrics frames kept,
    kept.map (·.text) = (remaining process handler metrics frames).map (·.text) →
    LeaveNoTrace (faults process faulty handler metrics frames) handler metrics metrics
      (runFrames process handler metrics frames) (runFrames process handler metrics kept)

variable {process faulty}

/-- It is asked of what the handler makes of what was read. -/
theorem Unwinds.of_outcome {W : Type} {read : Bytes → Exec W}
    {outcome : H → ExchangeMetrics → Frame → W → Handled H}
    (hprocess : ∀ handler metrics frame,
      process handler metrics frame = (read frame.text).map (outcome handler metrics frame))
    (hrejected : ∀ {handler metrics frame w}, read frame.text = .ok w →
      (outcome handler metrics frame w).Rejected →
      (outcome handler metrics frame w).handler = handler
        ∧ AheadBy (if faulty handler frame then 1 else 0) (outcome handler metrics frame w).metrics
          metrics)
    (hrepeats : ∀ {n handler metrics metrics' frame frame'} w, AheadBy n metrics metrics' →
      (outcome handler metrics frame w).RepeatedBy n (outcome handler metrics' frame' w)) :
    Unwinds process faulty where
  rejected := by
    intro handler metrics frame out hout h
    rw [hprocess] at hout
    cases hread : read frame.text with
    | error panic =>
        rw [hread] at hout
        cases hout
    | ok w =>
        rw [hread] at hout
        cases hout
        exact hrejected hread h
  repeats := by
    intro n handler metrics metrics' frame frame' hmetrics htext
    rw [hprocess, hprocess, htext]
    cases read frame.text with
    | error panic => exact ⟨panic, rfl⟩
    | ok w => exact ⟨_, rfl, hrepeats w hmetrics⟩

theorem LeaveNoTrace.nil {n : Nat} {metrics metrics' : ExchangeMetrics}
    (h : AheadBy n metrics metrics') (handler : H) :
    LeaveNoTrace n handler metrics metrics' [] [] :=
  ⟨rfl, rfl, rfl, h⟩

theorem LeaveNoTrace.cons_rejected {n : Nat} {handler : H} {metrics metrics' : ExchangeMetrics}
    {out : Handled H} {outs outs' : List (Handled H)} (hrejected : out.Rejected)
    (hhandler : out.handler = handler)
    (h : LeaveNoTrace n out.handler out.metrics metrics' outs outs') :
    LeaveNoTrace n handler metrics metrics' (out :: outs) outs' where
  books := by
    rw [h.books, sentBooks, sentBooks, List.filterMap_cons, hrejected.2]
    rfl
  results := by
    rw [h.results, List.filter_cons_of_neg]
    simpa using hrejected
  tracker := by
    rw [← hhandler]
    exact h.tracker
  counters := by
    rw [← hhandler]
    exact h.counters

theorem LeaveNoTrace.cons_repeated {n n' : Nat} {handler : H} {metrics metrics' : ExchangeMetrics}
    {out out' : Handled H} {outs outs' : List (Handled H)} (hkept : ¬ out.Rejected)
    (hout : out.RepeatedBy n' out')
    (h : LeaveNoTrace n out.handler out.metrics out'.metrics outs outs') :
    LeaveNoTrace n handler metrics metrics' (out :: outs) (out' :: outs') where
  books := by
    have hbooks := h.books
    unfold sentBooks at hbooks ⊢
    rw [List.filterMap_cons, List.filterMap_cons, hout.sent, hbooks]
  results := by
    rw [List.filter_cons_of_pos (by simpa using hkept), List.map_cons, List.map_cons, hout.result,
      h.results]
  tracker := by
    rw [settled_cons, settled_cons, hout.handler]
    exact h.tracker
  counters := by
    rw [settled_cons, settled_cons, hout.handler]
    exact h.counters

/-- The two runs in step: at a rejected frame only the first one moves. -/
theorem Unwinds.leaveNoTrace (hunwinds : Unwinds process faulty) {n : Nat} {handler : H}
    {metrics metrics' : ExchangeMetrics} {frames kept : List Frame}
    (hmetrics : AheadBy n metrics metrics')
    (hkept : kept.map (·.text) = (remaining process handler metrics frames).map (·.text)) :
    LeaveNoTrace (n + faults process faulty handler metrics frames) handler metrics metrics'
      (runFrames process handler metrics frames) (runFrames process handler metrics' kept) := by
  induction frames generalizing n handler metrics metrics' kept with
  | nil =>
      obtain rfl := List.map_eq_nil_iff.mp hkept
      exact .nil hmetrics handler
  | cons frame frames ih =>
      rw [remaining] at hkept
      rw [runFrames, faults]
      cases hprocess : process handler metrics frame with
      | error panic =>
          rw [hprocess] at hkept
          obtain ⟨frame', kept, rfl, htext, -⟩ := List.map_eq_cons_iff.mp hkept
          have hrepeats := @hunwinds.repeats _ handler _ _ frame frame' hmetrics htext
          rw [hprocess] at hrepeats
          obtain ⟨panic', hprocess'⟩ := hrepeats
          rw [runFrames, hprocess']
          exact .nil hmetrics handler
      | ok out =>
          rw [hprocess] at hkept
          dsimp only at hkept ⊢
          by_cases hrejected : out.Rejected
          · obtain ⟨hhandler, hahead⟩ := hunwinds.rejected hprocess hrejected
            rw [if_pos hrejected] at hkept
            have hrest := ih (hahead.trans hmetrics) hkept
            rw [← Nat.add_assoc]
            simp only [hrejected, true_and]
            refine .cons_rejected hrejected hhandler ?_
            rw [hhandler] at hrest ⊢
            exact hrest
          · rw [if_neg hrejected] at hkept
            obtain ⟨frame', kept, rfl, htext, hkept⟩ := List.map_eq_cons_iff.mp hkept
            have hrepeats := @hunwinds.repeats _ handler _ _ frame frame' hmetrics htext
            rw [hprocess] at hrepeats
            obtain ⟨out', hprocess', hout⟩ := hrepeats
            rw [runFrames, hprocess', if_neg fun h => hrejected h.1, Nat.zero_add]
            dsimp only
            rw [hout.handler]
            exact .cons_repeated hrejected hout (ih hout.metrics hkept)

theorem Unwinds.rejectsWithoutTrace (hunwinds : Unwinds process faulty) :
    RejectsWithoutTrace process faulty := by
  intro handler metrics frames kept hkept
  have hrun := hunwinds.leaveNoTrace (.refl metrics) hkept
  rwa [Nat.zero_add] at hrun

/-- A counter that each frame advances by what can be told from its outcome. -/
theorem settled_modEq {counter : ExchangeMetrics → Nat} {advance : Handled H → Nat}
    (hstep : ∀ {handler metrics frame out}, process handler metrics frame = .ok out →
      counter out.metrics ≡ counter metrics + advance out [MOD 2 ^ 64])
    (handler : H) (metrics : ExchangeMetrics) (frames : List Frame) :
    let outs := runFrames process handler metrics frames
    counter (settled handler metrics outs).2
      ≡ counter metrics + (outs.map advance).sum [MOD 2 ^ 64] := by
  induction frames generalizing handler metrics with
  | nil => exact Nat.ModEq.refl _
  | cons frame frames ih =>
      rw [runFrames]
      cases hprocess : process handler metrics frame with
      | error panic => exact Nat.ModEq.refl _
      | ok out =>
          dsimp only
          rw [settled_cons, List.map_cons, List.sum_cons, ← Nat.add_assoc]
          exact (ih out.handler out.metrics).trans ((hstep hprocess).add_right _)

theorem sentBooks_length (outs : List (Handled H)) :
    (sentBooks outs).length = (outs.map fun out => out.sent.toList.length).sum := by
  induction outs with
  | nil => rfl
  | cons out outs ih =>
      unfold sentBooks at ih ⊢
      rw [List.map_cons, List.sum_cons, ← ih, List.filterMap_cons]
      cases out.sent with
      | none => exact (Nat.zero_add _).symm
      | some book => exact Nat.add_comm _ 1

end Runs

/-! ### The handlers -/

section Snapshot

variable {exchangeId : ExchangeId} {frame frame' : Frame} {last seq : Nat}
  {metrics metrics' : ExchangeMetrics} {bids asks : ArrayVec RawLevel depth}

/-- With the consumer alive, only what the tracker drops is rejected. -/
theorem handleSnapshot_of_rejected
    (hrejected : (handleSnapshot exchangeId false frame last metrics seq bids asks).Rejected) :
    Tracker.Drops last seq
      ∧ handleSnapshot exchangeId false frame last metrics seq bids asks
        = handleParseError last metrics := by
  by_cases hdrops : 0 < seq ∧ 0 < last ∧ seq ≤ last
  · exact ⟨hdrops, if_pos hdrops⟩
  · rw [handleSnapshot, if_neg hdrops] at hrejected
    cases hrejected.2

theorem handleSnapshot_repeatedBy {n : Nat} (h : AheadBy n metrics metrics') :
    (handleSnapshot exchangeId false frame last metrics seq bids asks).RepeatedBy n
      (handleSnapshot exchangeId false frame' last metrics' seq bids asks) := by
  unfold handleSnapshot
  split
  · exact ⟨rfl, rfl, rfl, h.error⟩
  · exact ⟨rfl, rfl, rfl, congrArg (fetchAddU64 · 1) h.messages, h.errors⟩

end Snapshot

theorem handleParseError_repeatedBy {H : Type} {n : Nat} {metrics metrics' : ExchangeMetrics}
    (h : AheadBy n metrics metrics') (handler : H) :
    (handleParseError handler metrics).RepeatedBy n (handleParseError handler metrics') :=
  ⟨rfl, rfl, rfl, h.error⟩

namespace Binance

/-- The frame cannot be decoded or is stale. -/
def faulty (memmem : Memmem) (handler : Handler) (frame : Frame) : Bool :=
  match walk memmem frame.text with
  | .error _ => false
  | .ok none => true
  | .ok (some (seq, _, _)) => Tracker.Drops handler.lastSeq seq

theorem unwinds (memmem : Memmem) :
    Unwinds (Handler.processText memmem false) (faulty memmem) := by
  refine .of_outcome (processText_eq memmem false) ?_ ?_
  · intro handler metrics frame o hwalk hrejected
    rw [faulty, hwalk]
    rcases o with _ | ⟨seq, bids, asks⟩
    · exact ⟨rfl, .of_error metrics⟩
    · obtain ⟨hdrops, hsnapshot⟩ := handleSnapshot_of_rejected hrejected
      rw [Handler.outcome, hsnapshot]
      simp only [hdrops, decide_true, if_true]
      exact ⟨rfl, .of_error metrics⟩
  · intro n handler metrics metrics' frame frame' o hmetrics
    rcases o with _ | ⟨seq, bids, asks⟩
    · exact handleParseError_repeatedBy hmetrics handler
    · exact (handleSnapshot_repeatedBy hmetrics).map Handler.mk

/-- Every frame is counted once: a message if its book is sent, else an error. -/
theorem processText_counts {memmem : Memmem} {handler : Handler} {metrics : ExchangeMetrics}
    {frame : Frame} {out : Handled Handler}
    (hprocess : Handler.processText memmem false handler metrics frame = .ok out) :
    out.metrics.messages ≡ metrics.messages + out.sent.toList.length [MOD 2 ^ 64]
      ∧ out.metrics.messages + out.metrics.errors
        ≡ metrics.messages + metrics.errors + 1 [MOD 2 ^ 64] := by
  have herror : metrics.messages + fetchAddU64 metrics.errors 1
      ≡ metrics.messages + metrics.errors + 1 [MOD 2 ^ 64] :=
    (Nat.mod_modEq _ _).add_left metrics.messages
  have hmessage : fetchAddU64 metrics.messages 1 + metrics.errors
      ≡ metrics.messages + metrics.errors + 1 [MOD 2 ^ 64] := by
    rw [Nat.add_right_comm]
    exact (Nat.mod_modEq _ _).add_right metrics.errors
  rw [processText_eq] at hprocess
  cases hwalk : walk memmem frame.text with
  | error panic =>
      rw [hwalk] at hprocess
      cases hprocess
  | ok o =>
      rw [hwalk] at hprocess
      cases hprocess
      rcases o with _ | ⟨seq, bids, asks⟩
      · exact ⟨Nat.ModEq.refl _, herror⟩
      · rw [Handler.outcome, handleSnapshot]
        split
        · exact ⟨Nat.ModEq.refl _, herror⟩
        · exact ⟨Nat.mod_modEq _ _, hmessage⟩

theorem runFrames_length (memmem : Memmem) (handler : Handler) (metrics : ExchangeMetrics)
    {frames : List Frame} (hsizes : ∀ frame ∈ frames, frame.text.length < 2 ^ 32) :
    (runFrames (Handler.processText memmem false) handler metrics frames).length
      = frames.length := by
  induction frames generalizing handler metrics with
  | nil => rfl
  | cons frame frames ih =>
      obtain ⟨hsize, hsizes⟩ := List.forall_mem_cons.mp hsizes
      obtain ⟨o, hwalk⟩ := exists_walk_eq_ok memmem hsize
      rw [runFrames, processText_eq, hwalk]
      exact congrArg (· + 1) (ih _ _ hsizes)

end Binance

namespace Bitstamp

/-- The frame cannot be decoded, or it is a stale snapshot. Control events are neither. -/
def faulty (memmem : Memmem) (handler : Handler) (frame : Frame) : Bool :=
  match walk memmem frame.text with
  | .error _ => false
  | .ok none => true
  | .ok (some (event, micro, _, _)) =>
    event = bytes "data" ∧ Tracker.Drops handler.lastMicro micro

theorem unwinds (memmem : Memmem) :
    Unwinds (Handler.processText memmem false) (faulty memmem) := by
  refine .of_outcome (processText_eq memmem false) ?_ ?_
  · intro handler metrics frame o hwalk hrejected
    rw [faulty, hwalk]
    rcases o with _ | ⟨event, micro, bids, asks⟩
    · exact ⟨rfl, .of_error metrics⟩
    rw [Handler.outcome] at hrejected ⊢
    by_cases hdata : event = bytes "data"
    · rw [if_pos hdata] at hrejected ⊢
      obtain ⟨hdrops, hsnapshot⟩ := handleSnapshot_of_rejected hrejected
      rw [hsnapshot]
      simp only [hdata, hdrops, and_self, decide_true, if_true]
      exact ⟨rfl, .of_error metrics⟩
    · rw [if_neg hdata] at hrejected ⊢
      simp only [hdata, false_and, decide_false, Bool.false_eq_true, if_false]
      by_cases herror : event = bytes "bts:error"
      · -- the server's error asks for a new connection
        rw [if_pos herror] at hrejected
        cases hrejected.1
      · rw [if_neg herror]
        exact ⟨rfl, .refl metrics⟩
  · intro n handler metrics metrics' frame frame' o hmetrics
    rcases o with _ | ⟨event, micro, bids, asks⟩
    · exact handleParseError_repeatedBy hmetrics handler
    rw [Handler.outcome, Handler.outcome]
    split_ifs
    · exact (handleSnapshot_repeatedBy hmetrics).map Handler.mk
    · exact ⟨rfl, rfl, rfl, hmetrics.error⟩
    · exact ⟨rfl, rfl, rfl, hmetrics⟩

end Bitstamp

/-- **Rejected frames leave no trace**, with the consumer alive: whatever the handler starts from
and whenever the other frames are read, the same books are sent, the calls end in the same results
and the handler in the same state, with as many messages counted, and the rejected frames cost as
many errors as were faulty among them. Binance counts every frame once, and the books as
messages. -/
theorem rejected_leaveNoTrace (memmem : Memmem) :
    RejectsWithoutTrace (Binance.Handler.processText memmem false) (Binance.faulty memmem)
    ∧ RejectsWithoutTrace (Bitstamp.Handler.processText memmem false) (Bitstamp.faulty memmem)
    ∧ ∀ handler metrics frames,
      let outs := runFrames (Binance.Handler.processText memmem false) handler metrics frames
      let final := (settled handler metrics outs).2
      final.messages + final.errors ≡ metrics.messages + metrics.errors + outs.length [MOD 2 ^ 64]
        ∧ final.messages ≡ metrics.messages + (sentBooks outs).length [MOD 2 ^ 64]
        ∧ ((∀ frame ∈ frames, frame.text.length < 2 ^ 32) → outs.length = frames.length) := by
  refine ⟨(Binance.unwinds memmem).rejectsWithoutTrace,
    (Bitstamp.unwinds memmem).rejectsWithoutTrace, fun handler metrics frames => ?_⟩
  refine ⟨?_, ?_, Binance.runFrames_length memmem handler metrics⟩
  · have hframes := @settled_modEq _ (Binance.Handler.processText memmem false)
      (fun m => m.messages + m.errors) (fun _ => 1)
      (fun h => (Binance.processText_counts h).2) handler metrics frames
    simpa using hframes
  · rw [sentBooks_length]
    exact settled_modEq (fun h => (Binance.processText_counts h).1) handler metrics frames

/-- Snapshots with the numbers 5, 3 and 7, and one that is cut off. -/
def staleAndCut : List Frame :=
  ["\x7b\"lastUpdateId\":5,\"bids\":[],\"asks\":[]\x7d",
    "\x7b\"lastUpdateId\":3,\"bids\":[],\"asks\":[]\x7d",
    "\x7b\"lastUpdateId\":6,\"bids\":[],\"as",
    "\x7b\"lastUpdateId\":7,\"bids\":[],\"asks\":[]\x7d"].map fun text => ⟨bytes text, 1, 2⟩

/-- The second and the third leave no trace. -/
theorem staleAndCut_leaveNoTrace :
    LeaveNoTrace (faults (Binance.Handler.processText .scan false) (Binance.faulty .scan) ⟨0⟩ .new
        staleAndCut) ⟨0⟩ .new .new
      (runFrames (Binance.Handler.processText .scan false) ⟨0⟩ .new staleAndCut)
      (runFrames (Binance.Handler.processText .scan false) ⟨0⟩ .new
        (staleAndCut.take 1 ++ staleAndCut.drop 3)) :=
  (rejected_leaveNoTrace .scan).1 _ _ _ _ (by decide +kernel)

end OrderbookAggregator
