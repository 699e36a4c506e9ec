import OrderbookAggregator.Pipeline
import OrderbookAggregator.Proof.Contribution
import OrderbookAggregator.Proof.Exit

/-!
# Runs of the wired program

A run of the program is a run of every reconnection loop and a run of the slots with the merger. The
threads are kept together by what each may do when: a loop does not go on before its book is sent, and
a sender is dropped only when its loop has returned.
-/

namespace OrderbookAggregator

/-- What the wiring relies on. A handler hands over a book of its own exchange, decoded from the frame
at hand, only if it has found its consumer there, and then goes on; it shuts down only if the consumer
is gone. -/
structure WsHandler.Feeds {H : Type} (ws : WsHandler H) (e : Nat)
    (decodes : Bytes → OrderBook → Prop) : Prop where
  posts : ∀ {abandoned handler metrics frame out book},
    ws.processText abandoned handler metrics frame = .ok out → out.sent = some book →
      abandoned = false ∧ out.result = .continue ∧ book.exchangeId.toNat = e
        ∧ book.decodeStart = frame.start ∧ decodes frame.text book
  shutsDown : ∀ {abandoned handler metrics frame out},
    ws.processText abandoned handler metrics frame = .ok out → out.result = .shutdown →
      abandoned = true

theorem WsLoop.outgoing_eq_some {H : Type} {ws : WsHandler H} {s : WsLoop H} {label : WsLabel}
    {book : OrderBook} (h : s.outgoing ws label = some book) :
    ∃ frame abandoned out, label = .read (.text frame abandoned)
      ∧ ws.processText abandoned s.handler s.metrics frame = .ok out ∧ out.sent = some book := by
  unfold outgoing at h
  split at h
  · rename_i frame abandoned
    obtain ⟨out, hout, hsent⟩ := Option.bind_eq_some_iff.mp h
    exact ⟨frame, abandoned, out, rfl, Exec.eq_ok_of_toOption hout, hsent⟩
  · cases h

namespace Pipeline

open LabelledRun

variable {k : Nat} {H : Fin k → Type} {ws : (e : Fin k) → WsHandler (H e)} {symbol : Bytes}

/-! ### The loops -/

/-- The step of the loop of an exchange that a step of the program is. -/
def loopLabel (e : Fin k) : PipelineLabel k → List WsLabel
  | .cancel => [.cancel]
  | .loop e' label => if e' = e then [label] else []
  | _ => []

def loopLabels (e : Fin k) (labels : List (PipelineLabel k)) : List WsLabel :=
  labels.flatMap (loopLabel e)

@[simp]
theorem loops_setLoop_self (s : Pipeline k H) (e : Fin k) (loop : WsLoop (H e)) :
    (s.setLoop e loop).loops e = loop := by
  rw [setLoop]
  exact Function.update_self ..

theorem loops_setLoop_of_ne (s : Pipeline k H) {e e' : Fin k} (he : e' ≠ e) (loop : WsLoop (H e)) :
    (s.setLoop e loop).loops e' = s.loops e' := by
  rw [setLoop]
  exact Function.update_of_ne he ..

theorem run_setLoop (s : Pipeline k H) {e : Fin k} {label : WsLabel} {loop : WsLoop (H e)}
    (hloop : (s.loops e).step (ws e) symbol label = some loop) (e' : Fin k) :
    run (WsLoop.step (ws e') symbol) (s.loops e') (loopLabel e' (.loop e label))
      = some ((s.setLoop e loop).loops e') := by
  rw [loopLabel]
  by_cases he : e = e'
  · subst he
    rw [if_pos rfl, run_cons, hloop, loops_setLoop_self]
    rfl
  · rw [if_neg he, loops_setLoop_of_ne s (Ne.symm he)]
    rfl

theorem run_loop_of_step {s s' : Pipeline k H} {label : PipelineLabel k}
    (h : s.step ws symbol label = some s') (e : Fin k) :
    run (WsLoop.step (ws e) symbol) (s.loops e) (loopLabel e label) = some (s'.loops e) := by
  cases step_cases h with
  | cancel => rfl
  | loop hmay hloop hbook => exact run_setLoop s hloop e
  | post hmay hloop hbook hsystem => exact run_setLoop s hloop e
  | sender | receiver | isCancelled | publish => rfl

theorem run_loop {s s' : Pipeline k H} {labels : List (PipelineLabel k)}
    (hrun : run (step ws symbol) s labels = some s') (e : Fin k) :
    run (WsLoop.step (ws e) symbol) (s.loops e) (loopLabels e labels) = some (s'.loops e) := by
  have hsim := @run_simulation _ _ _ _ (step ws symbol) (WsLoop.step (ws e) symbol)
    (fun s => s.loops e) (fun _ label => loopLabel e label) s
    (fun _ _ _ _ _ hstep => run_loop_of_step hstep e) labels s' hrun
  rwa [observe_eq_flatMap hrun] at hsim

/-! ### The slots and the merger -/

/-- The step of the slots and the merger that a step of the program is. -/
def systemLabel (ws : (e : Fin k) → WsHandler (H e)) (s : Pipeline k H) :
    PipelineLabel k → List (SystemLabel k)
  | .cancel => []
  | .loop e label =>
    match (s.loops e).outgoing (ws e) label with
    | none => []
    | some _ => [.producer e .isAbandoned]
  | .sender e op => [.producer e op]
  | .receiver e op => [.receiver e op]
  | .isCancelled => [.isCancelled s.cancelled]
  | .publish t0 t1 => [.publish t0 t1]

/-- What the slots and the merger do along a run from a state. -/
def systemLabels (ws : (e : Fin k) → WsHandler (H e)) (symbol : Bytes) (s : Pipeline k H)
    (labels : List (PipelineLabel k)) : List (SystemLabel k) :=
  observe (step ws symbol) (systemLabel ws) s labels

theorem run_singleton_eq_some {s s' : System k} {label : SystemLabel k}
    (h : s.step label = some s') : run System.step s [label] = some s' :=
  run_cons_eq_some.mpr ⟨s', h, rfl⟩

theorem run_system_of_step {s s' : Pipeline k H} {label : PipelineLabel k}
    (h : s.step ws symbol label = some s') :
    run System.step s.system (systemLabel ws s label) = some s'.system := by
  cases step_cases h with
  | cancel => rfl
  | loop hmay hloop hbook =>
      rw [systemLabel, hbook]
      rfl
  | post hmay hloop hbook hsystem =>
      rw [systemLabel, hbook]
      exact run_singleton_eq_some hsystem
  | sender hmay hsystem => exact run_singleton_eq_some hsystem
  | receiver hsystem => exact run_singleton_eq_some hsystem
  | isCancelled hsystem => exact run_singleton_eq_some hsystem
  | publish hsystem => exact run_singleton_eq_some hsystem

theorem run_system {s s' : Pipeline k H} {labels : List (PipelineLabel k)}
    (hrun : run (step ws symbol) s labels = some s') :
    run System.step s.system (systemLabels ws symbol s labels) = some s'.system :=
  run_simulation (fun _ _ _ _ _ hstep => run_system_of_step hstep) hrun

theorem systemLabels_append {s s' : Pipeline k H} {first : List (PipelineLabel k)}
    (hrun : run (step ws symbol) s first = some s') (second : List (PipelineLabel k)) :
    systemLabels ws symbol s (first ++ second)
      = systemLabels ws symbol s first ++ systemLabels ws symbol s' second :=
  observe_append hrun

theorem systemLabels_concat {s s' : Pipeline k H} {labels : List (PipelineLabel k)}
    (hrun : run (step ws symbol) s labels = some s') (label : PipelineLabel k) :
    systemLabels ws symbol s (labels ++ [label])
      = systemLabels ws symbol s labels ++ systemLabel ws s' label :=
  observe_concat hrun

/-! ### The threads -/

/-- Where the thread of an exchange stands: its loop, the book it is about to send, its sender, and
whether the check of `is_abandoned` is passed. -/
inductive Thread (e : Nat) : WsPc → Option OrderBook → SenderPc Sent → Bool → Prop
  | looping (pc) : Thread e pc none .idle false
  | posting {book} (howner : book.exchangeId.toNat = e) : Thread e .reading (some book) .idle true
  | wrote (v) : Thread e .reading none (.wrote v) false
  | swapped (oldState) : Thread e .reading none (.swapped oldState) false
  | released (prev) : Thread e .returned none (.released prev) false
  | gone : Thread e .returned none .gone false

theorem Thread.of_not_busy {e : Nat} {pc : WsPc} {outbox : Option OrderBook}
    {sender : SenderPc Sent} {cleared : Bool} (h : Thread e pc outbox sender cleared)
    (hbusy : ¬ (outbox ≠ none ∨ sender ≠ .idle)) (pc' : WsPc) :
    Thread e pc' outbox sender cleared := by
  cases h with
  | looping => exact .looping pc'
  | posting | wrote | swapped | released | gone => simp at hbusy

theorem Thread.outbox_eq_none {e : Nat} {pc : WsPc} {outbox : Option OrderBook}
    {sender : SenderPc Sent} {cleared : Bool} (h : Thread e pc outbox sender cleared)
    (hsender : sender ≠ .idle) : outbox = none := by
  cases h with
  | posting => exact absurd rfl hsender
  | looping | wrote | swapped | released | gone => rfl

/-- What the threads agree on. -/
structure Wiring (s : Pipeline k H) : Prop where
  token : ∀ e, (s.loops e).cancelled = s.cancelled
  thread : ∀ e : Fin k, Thread e (s.loops e).pc (s.outbox e) (s.system.slots e).sender
    (s.system.cleared e)

theorem cancelled_of_step {H : Type} {ws : WsHandler H} {s s' : WsLoop H} {label : WsLabel}
    (h : s.step ws symbol label = some s') (hlabel : label ≠ .cancel) :
    s'.cancelled = s.cancelled := by
  cases WsLoop.step_cases h with
  | cancel => exact absurd rfl hlabel
  | start | unconnected | subscribing | unsubscribing | subscribed | unsubscribed | readCancelled
  | text | reconnect | shutdown | readOther | readError | readEnded | giveUp | backoff | wake
  | cutShort => rfl

theorem MayLoop.not_busy {s : Pipeline k H} {e : Fin k} {label : WsLabel} (h : s.MayLoop e label) :
    ¬ s.Busy e := by
  unfold MayLoop at h
  split at h
  · exact h.elim
  · exact h.2
  · exact h

theorem MayLoop.ne_cancel {s : Pipeline k H} {e : Fin k} {label : WsLabel} (h : s.MayLoop e label) :
    label ≠ .cancel := by
  rintro rfl
  exact h

theorem Wiring.token_setLoop {s : Pipeline k H} (h : Wiring s) {e : Fin k} {label : WsLabel}
    {loop : WsLoop (H e)} (hmay : s.MayLoop e label)
    (hloop : (s.loops e).step (ws e) symbol label = some loop) (e' : Fin k) :
    ((s.setLoop e loop).loops e').cancelled = s.cancelled := by
  by_cases he : e' = e
  · subst he
    rw [loops_setLoop_self, cancelled_of_step hloop hmay.ne_cancel, h.token]
  · rw [loops_setLoop_of_ne s he, h.token]

/-- A book that is posted comes from a frame, and the loop is reading on. -/
theorem post_cases {e : Fin k} {decodes : Bytes → OrderBook → Prop}
    (hfeeds : (ws e).Feeds e decodes) {loop loop' : WsLoop (H e)} {label : WsLabel}
    {book : OrderBook} (hloop : loop.step (ws e) symbol label = some loop')
    (hbook : loop.outgoing (ws e) label = some book) :
    ∃ frame, label = .read (.text frame false) ∧ loop.pc = .reading ∧ loop'.pc = .reading
      ∧ book.exchangeId.toNat = e ∧ book.decodeStart = frame.start ∧ decodes frame.text book := by
  obtain ⟨frame, abandoned, out, rfl, hprocess, hsent⟩ := WsLoop.outgoing_eq_some hbook
  obtain ⟨rfl, hresult, howner, hstart, hdecodes⟩ := hfeeds.posts hprocess hsent
  cases WsLoop.step_cases hloop with
  | text hpc => exact ⟨frame, rfl, hpc, hpc, howner, hstart, hdecodes⟩
  | reconnect _ hprocess' hresult' | shutdown _ hprocess' hresult' =>
      rw [hprocess] at hprocess'
      cases hprocess'
      rw [hresult] at hresult'
      cases hresult'

theorem sender_of_receiverStep {slot slot' : Slot Sent} {op : ReceiverOp}
    (h : slot.receiverStep op = some slot') : slot'.sender = slot.sender := by
  have hstep : slot.step (.receiver op) = some slot' := h
  cases Slot.step_cases hstep <;> rfl

theorem thread_of_system {e : Fin k} {pc : WsPc} {outbox : Option OrderBook} {s s' : System k}
    {label : SystemLabel k} (hlabel : ∀ op, label ≠ .producer e op)
    (hstep : s.step label = some s')
    (h : Thread e pc outbox (s.slots e).sender (s.cleared e)) :
    Thread e pc outbox (s'.slots e).sender (s'.cleared e) := by
  cases System.step_cases hstep with
  | @producer e' op slot hmay hslot =>
      have he : e ≠ e' := by
        rintro rfl
        exact hlabel op rfl
      have hslots : (s.produce e' op slot).slots e = s.slots e := Function.update_of_ne he ..
      have hcleared : (s.produce e' op slot).cleared e = s.cleared e := by
        cases op with
        | isAbandoned => exact Function.update_of_ne he ..
        | write => exact Function.update_of_ne he ..
        | swap | setBack | drop | endDrop => rfl
      rw [hslots, hcleared]
      exact h
  | @receiver e' op slot merger hmay hslot hmerger =>
      have hsender : (Function.update s.slots e' slot e).sender = (s.slots e).sender := by
        by_cases he : e = e'
        · subst he
          rw [Function.update_self]
          exact sender_of_receiverStep hslot
        · rw [Function.update_of_ne he]
      change Thread e pc outbox (Function.update s.slots e' slot e).sender (s.cleared e)
      rw [hsender]
      exact h
  | isCancelled | publish => exact h

theorem thread_of_sender {s : Pipeline k H} {e : Fin k} {op : SenderOp Sent} {system : System k}
    (hmay : s.MaySend e op) (hsystem : s.system.step (.producer e op) = some system)
    (h : Thread e (s.loops e).pc (s.outbox e) (s.system.slots e).sender (s.system.cleared e)) :
    Thread e (s.loops e).pc (s.sent e op e) (system.slots e).sender (system.cleared e) := by
  cases System.step_cases hsystem with
  | @producer _ _ slot _ hslot =>
      have hslot' : (s.system.slots e).step (.sender op) = some slot := hslot
      have hself : (s.system.produce e op slot).slots e = slot := Function.update_self ..
      rw [hself]
      generalize hpc : (s.loops e).pc = pc at h ⊢
      generalize houtbox : s.outbox e = outbox at h
      generalize hsender : (s.system.slots e).sender = sender at h
      generalize hcleared : s.system.cleared e = cleared at h
      cases Slot.step_cases hslot' with
      | @write v hidle =>
          have hposted : s.outbox e = some v.2 := hmay
          rw [houtbox] at hposted
          have hsent : s.sent e (.write v) e = none := Function.update_self ..
          have hafter : (s.system.produce e (.write v) { s.system.slots e with
              buffers := Function.update (s.system.slots e).buffers (s.system.slots e).back (some v)
              sender := .wrote v }).cleared e = false := Function.update_self ..
          rw [hsent, hafter]
          cases h with
          | posting => exact .wrote v
          | looping | wrote | swapped | released | gone => cases hposted
      | senderIsAbandoned => exact hmay.elim
      | @senderSwap v hwrote =>
          change Thread e pc (s.outbox e) (.swapped _) (s.system.cleared e)
          rw [houtbox, hcleared]
          rw [hwrote] at hsender
          subst hsender
          cases h
          exact .swapped _
      | @setBack oldState hswapped =>
          change Thread e pc (s.outbox e) .idle (s.system.cleared e)
          rw [houtbox, hcleared]
          rw [hswapped] at hsender
          subst hsender
          cases h
          exact .looping _
      | senderDrop hidle =>
          change Thread e pc (s.outbox e) (.released _) (s.system.cleared e)
          rw [houtbox, hcleared]
          obtain ⟨hreturned, hempty⟩ : (s.loops e).pc = .returned ∧ s.outbox e = none := hmay
          rw [hpc] at hreturned
          rw [houtbox] at hempty
          rw [hidle] at hsender
          subst hreturned hempty hsender
          cases h
          exact .released _
      | @senderEndDrop prev hreleased =>
          change Thread e pc (s.outbox e) .gone (s.system.cleared e)
          rw [houtbox, hcleared]
          rw [hreleased] at hsender
          subst hsender
          cases h
          exact .gone

variable {decodes : Fin k → Bytes → OrderBook → Prop}

/-- A book that is posted finds its consumer there. -/
theorem thread_of_post {s : Pipeline k H} {e : Fin k} {pc : WsPc} {frame : Frame} {book : OrderBook}
    {system : System k} (hmay : s.MayLoop e (.read (.text frame false)))
    (hsystem : s.system.step (.producer e .isAbandoned) = some system) (hpc : pc = .reading)
    (howner : book.exchangeId.toNat = e) :
    Thread e pc (some book) (system.slots e).sender (system.cleared e) := by
  cases System.step_cases hsystem with
  | @producer _ _ slot _ hslot =>
      have hself : (s.system.produce e .isAbandoned slot).slots e = slot := Function.update_self ..
      have hcleared : (s.system.produce e .isAbandoned slot).cleared e = true := by
        change Function.update s.system.cleared e (!(s.system.slots e).isAbandoned) e = true
        rw [Function.update_self, ← hmay.1]
        rfl
      have hslot' : (s.system.slots e).step (.sender .isAbandoned) = some slot := hslot
      rw [hself, hcleared, hpc]
      cases Slot.step_cases hslot' with
      | senderIsAbandoned hidle =>
          rw [hidle]
          exact .posting howner

theorem wiring_of_step (hfeeds : ∀ e : Fin k, (ws e).Feeds e (decodes e)) {s s' : Pipeline k H}
    {label : PipelineLabel k} (h : Wiring s) (hstep : s.step ws symbol label = some s') :
    Wiring s' := by
  cases step_cases hstep with
  | cancel => exact ⟨fun _ => rfl, h.thread⟩
  | @loop e label loop hmay hloop hbook =>
      refine ⟨h.token_setLoop hmay hloop, fun e' => ?_⟩
      by_cases he : e' = e
      · subst he
        exact (h.thread e').of_not_busy hmay.not_busy _
      · rw [loops_setLoop_of_ne s he]
        exact h.thread e'
  | @post e label loop book system hmay hloop hbook hsystem =>
      refine ⟨h.token_setLoop hmay hloop, fun e' => ?_⟩
      obtain ⟨frame, rfl, -, hpc, howner, -⟩ := post_cases (hfeeds e) hloop hbook
      dsimp only
      by_cases he : e' = e
      · subst he
        rw [Function.update_self, loops_setLoop_self]
        exact thread_of_post hmay hsystem hpc howner
      · rw [Function.update_of_ne he, loops_setLoop_of_ne s he]
        exact thread_of_system (by simp [Ne.symm he]) hsystem (h.thread e')
  | @sender e op system hmay hsystem =>
      refine ⟨h.token, fun e' => ?_⟩
      by_cases he : e' = e
      · subst he
        exact thread_of_sender hmay hsystem (h.thread e')
      · have hsent : s.sent e op e' = s.outbox e' := by
          cases op with
          | write => exact Function.update_of_ne he ..
          | swap | setBack | isAbandoned | drop | endDrop => rfl
        dsimp only
        rw [hsent]
        exact thread_of_system (by simp [Ne.symm he]) hsystem (h.thread e')
  | receiver hsystem | isCancelled hsystem | publish hsystem =>
      exact ⟨h.token, fun e' => thread_of_system (by simp) hsystem (h.thread e')⟩

theorem wiring_of_run (hfeeds : ∀ e : Fin k, (ws e).Feeds e (decodes e))
    {handlers : (e : Fin k) → H e} {s : Pipeline k H} {labels : List (PipelineLabel k)}
    (hrun : run (step ws symbol) (start handlers) labels = some s) : Wiring s :=
  invariant_of_run (fun _ _ _ h hstep => wiring_of_step hfeeds h hstep)
    ⟨fun _ => rfl, fun _ => .looping _⟩ hrun

/-! ### The books -/

/-- The book of an exchange that is posted by a step. -/
def posting (ws : (e : Fin k) → WsHandler (H e)) (e : Fin k) (s : Pipeline k H) :
    PipelineLabel k → List OrderBook
  | .loop e' label => if e' = e then ((s.loops e').outgoing (ws e') label).toList else []
  | .cancel | .sender _ _ | .receiver _ _ | .isCancelled | .publish _ _ => []

def posted (ws : (e : Fin k) → WsHandler (H e)) (symbol : Bytes) (e : Fin k) (s : Pipeline k H)
    (labels : List (PipelineLabel k)) : List OrderBook :=
  observe (step ws symbol) (posting ws e) s labels

/-- A book that was posted was decoded from a frame that was read before. -/
theorem exists_frame_of_posted (hfeeds : ∀ e : Fin k, (ws e).Feeds e (decodes e))
    {s s' : Pipeline k H} {labels : List (PipelineLabel k)}
    (hrun : run (step ws symbol) s labels = some s') {e : Fin k} {book : OrderBook}
    (hposted : book ∈ posted ws symbol e s labels) :
    ∃ frame, .loop e (.read (.text frame false)) ∈ labels ∧ book.decodeStart = frame.start
      ∧ decodes e frame.text book := by
  refine run_induction (fun labels _ => book ∈ posted ws symbol e s labels → ∃ frame,
    .loop e (.read (.text frame false)) ∈ labels ∧ book.decodeStart = frame.start
      ∧ decodes e frame.text book) ?_ ?_ hrun hposted
  · intro hmem
    cases hmem
  clear hposted
  intro labels s₁ label s₂ hrun ih hstep hmem
  rw [posted, observe_concat hrun, List.mem_append] at hmem
  rcases hmem with hearlier | hlast
  · obtain ⟨frame, hread, hframe⟩ := ih hearlier
    exact ⟨frame, List.mem_append_left _ hread, hframe⟩
  cases step_cases hstep with
  | @loop e' label loop hmay hloop hnone =>
      rw [posting, hnone] at hlast
      split_ifs at hlast <;> cases hlast
  | @post e' label loop book' system hmay hloop hsome hsystem =>
      rw [posting, hsome] at hlast
      split_ifs at hlast with he
      · subst he
        obtain rfl := List.mem_singleton.mp hlast
        obtain ⟨frame, rfl, -, -, -, hstart, hdecodes⟩ := post_cases (hfeeds e') hloop hsome
        exact ⟨frame, by simp, hstart, hdecodes⟩
      · cases hlast
  | cancel | sender | receiver | isCancelled | publish => cases hlast

theorem sent_of_step {s s' : Pipeline k H} {label : PipelineLabel k}
    (hstep : s.step ws symbol label = some s') (e : Fin k) :
    (System.sentBy e (systemLabel ws s label)).map Prod.snd ++ (s'.outbox e).toList
      = (s.outbox e).toList ++ posting ws e s label := by
  cases step_cases hstep with
  | cancel => exact (List.append_nil _).symm
  | @loop e' label loop hmay hloop hnone =>
      rw [systemLabel, posting, hnone]
      split_ifs <;> exact (List.append_nil _).symm
  | @post e' label loop book system hmay hloop hsome hsystem =>
      rw [systemLabel, posting, hsome]
      dsimp only
      rw [System.sentBy_singleton]
      by_cases he : e' = e
      · subst he
        have hempty : s.outbox e' = none := by
          by_contra hne
          exact hmay.not_busy (Or.inl hne)
        rw [if_pos rfl, Function.update_self, hempty]
        rfl
      · rw [if_neg he, Function.update_of_ne (Ne.symm he)]
        exact (List.append_nil _).symm
  | @sender e' op system hmay hsystem =>
      rw [systemLabel, posting, System.sentBy_singleton]
      cases op with
      | write v =>
          have houtbox : s.outbox e' = some v.2 := hmay
          dsimp only [sent]
          by_cases he : e' = e
          · subst he
            rw [if_pos rfl, Function.update_self, houtbox]
            rfl
          · rw [if_neg he, Function.update_of_ne (Ne.symm he)]
            exact (List.append_nil _).symm
      | swap | setBack | isAbandoned | drop | endDrop => exact (List.append_nil _).symm
  | receiver | isCancelled | publish =>
      rw [systemLabel, posting, System.sentBy_singleton]
      exact (List.append_nil _).symm

/-- The books posted are sent one after the other; the last of them may still be waiting. -/
theorem sentBy_append_outbox {handlers : (e : Fin k) → H e} {s : Pipeline k H}
    {labels : List (PipelineLabel k)}
    (hrun : run (step ws symbol) (start handlers) labels = some s) (e : Fin k) :
    (System.sentBy e (systemLabels ws symbol (start handlers) labels)).map Prod.snd
        ++ (s.outbox e).toList
      = posted ws symbol e (start handlers) labels := by
  refine run_induction (fun labels s => (System.sentBy e (systemLabels ws symbol (start handlers)
    labels)).map Prod.snd ++ (s.outbox e).toList = posted ws symbol e (start handlers) labels) rfl ?_
    hrun
  intro labels s label s' hrun ih hstep
  rw [systemLabels_concat hrun, System.sentBy_append, List.map_append, List.append_assoc,
    sent_of_step hstep e, ← List.append_assoc, ih, posted, posted, observe_concat hrun]

end Pipeline

end OrderbookAggregator
