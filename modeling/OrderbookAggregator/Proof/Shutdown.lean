import Mathlib.Algebra.BigOperators.Fin
import OrderbookAggregator.Proof.Ownership
import OrderbookAggregator.Proof.Provenance

/-!
# What follows a cancellation

Once the token is cancelled, every step of a thread takes it nearer to its end, but for the frames
that a loop may still pick instead of the cancellation. So the steps are bounded by the frames read,
and until all threads have ended some thread can make a step without a frame.
-/

namespace OrderbookAggregator

open LabelledRun

/-! ### How far a thread is from its end -/

/-- The steps that a cancelled loop has left, at most, if it reads no more frames. -/
def WsPc.rank : WsPc → Nat
  | .returned => 0
  | .top | .ended => 1
  | .sleeping _ | .reading => 2
  | .subscribing _ => 3
  | .connecting => 4

def SenderPc.rank (outbox : Option OrderBook) : SenderPc Sent → Nat
  | .idle => if outbox = none then 2 else 5
  | .wrote _ => 4
  | .swapped _ => 3
  | .released _ => 1
  | .gone => 0

def ReceiverPc.rank : ReceiverPc → Nat
  | .idle => 5
  | .loaded => 4
  | .swapped _ => 3
  | .moved _ => 2
  | .released _ => 1
  | .gone => 0

/-- A poll is five steps of the merger with its receiver; one of them makes up for the receiver
being idle again. -/
def MergerPc.rank (receivers : Nat) : MergerPc → Nat
  | .exited _ => 0
  | .loopHead => 1
  | .checking i => 1 + 5 * receivers + (receivers - i)
  | .polling i => 1 + 5 * (receivers - i)
  | .received i _ => 5 * (receivers - i) - 3

/-- The indices that the merger goes by are those of receivers. -/
def MergerPc.InRange (receivers : Nat) : MergerPc → Prop
  | .checking i | .polling i | .received i _ => i < receivers
  | .loopHead | .exited _ => True

theorem Merger.inRange_checkFrom (receivers i : Nat) : (checkFrom receivers i).InRange receivers := by
  unfold checkFrom
  split
  · assumption
  · trivial

theorem Merger.inRange_pollFrom (receivers i : Nat) : (pollFrom receivers i).InRange receivers := by
  unfold pollFrom
  split
  · assumption
  · trivial

theorem Merger.inRange_of_step {receivers : Nat} {m m' : Merger} {label : MergerLabel}
    (h : step receivers m label = some m') (hrange : m.pc.InRange receivers) :
    m'.pc.InRange receivers := by
  rcases step_cases h with ⟨cancelled, rfl, hpc, rfl⟩ | ⟨i, abandoned, rfl, hpc, rfl⟩ |
    ⟨i, rfl, hpc, rfl⟩ | ⟨i, book, rfl, hpc, rfl⟩ | ⟨i, book, t0, t1, rfl, hpc, rfl⟩
  · cases cancelled
    · exact inRange_checkFrom _ _
    · trivial
  · cases abandoned
    · exact inRange_pollFrom _ _
    · exact inRange_checkFrom _ _
  · exact inRange_pollFrom _ _
  · rw [hpc] at hrange
    exact hrange
  · exact inRange_pollFrom _ _

theorem Merger.rank_checkFrom (receivers i : Nat) :
    (checkFrom receivers i).rank receivers ≤ 1 + 5 * receivers + (receivers - i) := by
  unfold checkFrom
  split
  · exact Nat.le_refl _
  · exact Nat.zero_le _

theorem Merger.rank_pollFrom (receivers i : Nat) :
    (pollFrom receivers i).rank receivers ≤ 1 + 5 * (receivers - i) := by
  unfold pollFrom
  split
  · exact Nat.le_refl _
  · exact Nat.le_add_right _ _

/-- A step of the merger takes it nearer to its end, once it sees the cancellation. Taking a book
gains four, of which the receiver gives three back. -/
theorem Merger.rank_of_step {receivers : Nat} {m m' : Merger} {label : MergerLabel}
    (h : step receivers m label = some m') (hrange : m.pc.InRange receivers)
    (hlabel : label ≠ .isCancelled false) :
    m'.pc.rank receivers + 1 + (if label matches .recv (some _) then 3 else 0)
      ≤ m.pc.rank receivers := by
  rcases step_cases h with ⟨cancelled, rfl, hpc, rfl⟩ | ⟨i, abandoned, rfl, hpc, rfl⟩ |
    ⟨i, rfl, hpc, rfl⟩ | ⟨i, book, rfl, hpc, rfl⟩ | ⟨i, book, t0, t1, rfl, hpc, rfl⟩
  · cases cancelled
    · exact absurd rfl hlabel
    · rw [hpc]
      exact Nat.le_refl _
  · rw [hpc] at hrange ⊢
    have hlt : i < receivers := hrange
    have hcheck := rank_checkFrom receivers (i + 1)
    have hpoll := rank_pollFrom receivers 0
    have hrank : (MergerPc.checking i).rank receivers = 1 + 5 * receivers + (receivers - i) := rfl
    cases abandoned
    · simp only [Bool.false_eq_true, if_false]
      omega
    · simp only [if_true, Bool.false_eq_true, if_false]
      omega
  · rw [hpc] at hrange ⊢
    have hlt : i < receivers := hrange
    have hpoll := rank_pollFrom receivers (i + 1)
    have hrank : (MergerPc.polling i).rank receivers = 1 + 5 * (receivers - i) := rfl
    simp only [Bool.false_eq_true, if_false]
    omega
  · rw [hpc] at hrange ⊢
    have hlt : i < receivers := hrange
    change 5 * (receivers - i) - 3 + 1 + 3 ≤ 1 + 5 * (receivers - i)
    omega
  · rw [hpc] at hrange ⊢
    have hlt : i < receivers := hrange
    have hpoll := rank_pollFrom receivers (i + 1)
    have hrank : (MergerPc.received i book).rank receivers = 5 * (receivers - i) - 3 := rfl
    simp only [Bool.false_eq_true, if_false]
    omega

/-- The loop reads a frame, whatever is in it. -/
def WsLabel.isFrame : WsLabel → Bool
  | .read (.text _ _) | .read .other => true
  | _ => false

/-- A step of a cancelled loop takes it nearer to its end, or reads a frame. -/
theorem WsLoop.rank_of_step {H : Type} {ws : WsHandler H} {symbol : Bytes} {s s' : WsLoop H}
    {label : WsLabel} (h : s.step ws symbol label = some s') (hcancelled : s.cancelled = true)
    (hlabel : label ≠ .cancel) :
    s'.pc.rank + (if label.isFrame then 0 else 1) ≤ s.pc.rank := by
  cases step_cases h with
  | cancel => exact absurd rfl hlabel
  | start hpc =>
      rw [hpc, hcancelled]
      exact Nat.le_refl _
  | unconnected hpc | subscribing hpc | unsubscribing hpc | subscribed hpc | unsubscribed hpc
  | readCancelled hpc | text hpc | reconnect hpc | shutdown hpc | readOther hpc | readError hpc
  | readEnded hpc | giveUp hpc | wake hpc | cutShort hpc =>
      simp [hpc, WsPc.rank, goto, handled, WsLabel.isFrame]
  | backoff _ hrunning =>
      rw [hcancelled] at hrunning
      cases hrunning

/-- An attempt to connect ends. -/
def WsLabel.isConnect : WsLabel → Bool
  | .connect _ => true
  | _ => false

/-- A cancelled loop starts no attempt to connect; it can only end one under way. -/
theorem WsLoop.connects_of_run {H : Type} {ws : WsHandler H} {symbol : Bytes} {s s' : WsLoop H}
    {labels : List WsLabel} (hcancelled : s.cancelled = true)
    (hrun : run (step ws symbol) s labels = some s') :
    labels.countP WsLabel.isConnect + (if s'.pc = .connecting then 1 else 0)
      ≤ if s.pc = .connecting then 1 else 0 := by
  have hboth : s'.cancelled = true ∧ labels.countP WsLabel.isConnect
      + (if s'.pc = .connecting then 1 else 0) ≤ if s.pc = .connecting then 1 else 0 := by
    refine run_induction (fun labels s' => s'.cancelled = true ∧ labels.countP WsLabel.isConnect
      + (if s'.pc = .connecting then 1 else 0) ≤ if s.pc = .connecting then 1 else 0)
      ⟨hcancelled, by simp⟩ ?_ hrun
    rintro labels s₁ label s₂ - ⟨hcancelled₁, hle⟩ hstep
    rw [List.countP_append, List.countP_singleton]
    cases step_cases hstep with
    | cancel => exact ⟨rfl, hle⟩
    | start hpc =>
        refine ⟨hcancelled₁, ?_⟩
        rw [hcancelled₁, if_pos rfl]
        exact (Nat.le_add_right _ _).trans hle
    | backoff _ hrunning =>
        rw [hcancelled₁] at hrunning
        cases hrunning
    | unconnected hpc | subscribing hpc | unsubscribing hpc | subscribed hpc | unsubscribed hpc
    | readCancelled hpc | text hpc | reconnect hpc | shutdown hpc | readOther hpc | readError hpc
    | readEnded hpc | giveUp hpc | wake hpc | cutShort hpc =>
        refine ⟨hcancelled₁, ?_⟩
        simpa [hpc, goto, handled, WsLabel.isConnect] using hle
  exact hboth.2

namespace Pipeline

variable {k : Nat} {H : Fin k → Type} {ws : (e : Fin k) → WsHandler (H e)} {symbol : Bytes}
  {decodes : Fin k → Bytes → OrderBook → Prop}

/-! ### How far the program is from its end -/

/-- The steps that the thread of an exchange and its receiver have left. -/
def threadRank (s : Pipeline k H) (e : Fin k) : Nat :=
  (s.loops e).pc.rank + (s.system.slots e).sender.rank (s.outbox e)
    + (s.system.slots e).receiver.rank

def rank (s : Pipeline k H) : Nat := ∑ e, s.threadRank e + s.system.merger.pc.rank k

/-- What the outside does to a program that is cancelled: it cancels it again, or sends a frame. -/
def isInput : PipelineLabel k → Bool
  | .cancel => true
  | .loop _ label => label.isFrame
  | .sender _ _ | .receiver _ _ | .isCancelled | .publish _ _ => false

theorem rank_le_of_thread {s s' : Pipeline k H} (e : Fin k) {bound : Nat}
    (hothers : ∀ e', e' ≠ e → s'.threadRank e' = s.threadRank e')
    (h : s'.threadRank e + s'.system.merger.pc.rank k + 1
      ≤ s.threadRank e + s.system.merger.pc.rank k + bound) :
    s'.rank + 1 ≤ s.rank + bound := by
  have hsum : ∑ e' ∈ Finset.univ.erase e, s'.threadRank e'
      = ∑ e' ∈ Finset.univ.erase e, s.threadRank e' :=
    Finset.sum_congr rfl fun e' he' => hothers e' (Finset.ne_of_mem_erase he')
  have hafter := Finset.add_sum_erase Finset.univ s'.threadRank (Finset.mem_univ e)
  have hbefore := Finset.add_sum_erase Finset.univ s.threadRank (Finset.mem_univ e)
  rw [rank, rank]
  omega

theorem rank_le (s : Pipeline k H) : s.rank ≤ 20 * k + 1 := by
  have hthread (e : Fin k) : s.threadRank e ≤ 14 := by
    have hloop : (s.loops e).pc.rank ≤ 4 := by
      cases (s.loops e).pc <;> simp [WsPc.rank]
    have hsender : (s.system.slots e).sender.rank (s.outbox e) ≤ 5 := by
      cases (s.system.slots e).sender with
      | idle =>
          rw [SenderPc.rank]
          split <;> omega
      | wrote | swapped | released | gone => simp [SenderPc.rank]
    have hreceiver : (s.system.slots e).receiver.rank ≤ 5 := by
      cases (s.system.slots e).receiver <;> simp [ReceiverPc.rank]
    rw [threadRank]
    omega
  have hmerger : s.system.merger.pc.rank k ≤ 1 + 6 * k := by
    cases s.system.merger.pc <;> simp only [MergerPc.rank] <;> omega
  have hsum : ∑ e, s.threadRank e ≤ 14 * k := by
    calc ∑ e, s.threadRank e ≤ ∑ _e : Fin k, 14 := Finset.sum_le_sum fun e _ => hthread e
      _ = 14 * k := by simp [Nat.mul_comm]
  rw [rank]
  omega

/-! ### What a run keeps -/

theorem inRange_of_systemStep {s s' : System k} {label : SystemLabel k}
    (h : s.step label = some s') (hrange : s.merger.pc.InRange k) : s'.merger.pc.InRange k := by
  cases System.step_cases h with
  | producer => exact hrange
  | @receiver e op slot merger hmay hslot hmerger =>
      cases hlearned : System.learned (s.slots e) op with
      | none =>
          rw [hlearned] at hmerger
          cases hmerger
          exact hrange
      | some mergerLabel =>
          rw [hlearned] at hmerger
          exact Merger.inRange_of_step hmerger hrange
  | isCancelled hmerger => exact Merger.inRange_of_step hmerger hrange
  | publish hmerger => exact Merger.inRange_of_step hmerger hrange

theorem inRange_of_run {s : System k} {labels : List (SystemLabel k)}
    (hrun : run System.step .start labels = some s) : s.merger.pc.InRange k := by
  have hstart : (System.start : System k).merger.pc.InRange k := trivial
  exact @invariant_of_run _ _ System.step (fun s => s.merger.pc.InRange k)
    (fun _ _ _ hrange hstep => inRange_of_systemStep hstep hrange) _ _ _ hstart hrun

/-- A state that the program reaches when it is cancelled. -/
structure Closing (ws : (e : Fin k) → WsHandler (H e)) (symbol : Bytes)
    (handlers : (e : Fin k) → H e) (s : Pipeline k H) : Prop where
  reached : ∃ labels, run (step ws symbol) (start handlers) labels = some s
  cancelled : s.cancelled = true

variable {handlers : (e : Fin k) → H e}

theorem Closing.step {s s' : Pipeline k H} {label : PipelineLabel k}
    (h : Closing ws symbol handlers s) (hstep : s.step ws symbol label = some s') :
    Closing ws symbol handlers s' := by
  obtain ⟨labels, hrun⟩ := h.reached
  refine ⟨⟨labels ++ [label], run_concat_eq_some.mpr ⟨s, hrun, hstep⟩⟩, ?_⟩
  cases step_cases hstep with
  | cancel => rfl
  | loop | post | sender | receiver | isCancelled | publish => exact h.cancelled

theorem Closing.system {s : Pipeline k H} (h : Closing ws symbol handlers s) :
    ∃ labels, run System.step .start labels = some s.system := by
  obtain ⟨labels, hrun⟩ := h.reached
  exact ⟨_, run_system hrun⟩

theorem Closing.inRange {s : Pipeline k H} (h : Closing ws symbol handlers s) :
    s.system.merger.pc.InRange k :=
  inRange_of_run h.system.choose_spec

theorem Closing.wiring (hfeeds : ∀ e : Fin k, (ws e).Feeds e (decodes e)) {s : Pipeline k H}
    (h : Closing ws symbol handlers s) : Wiring s := by
  obtain ⟨labels, hrun⟩ := h.reached
  exact wiring_of_run hfeeds hrun

/-! ### Every step counts -/

theorem rank_of_receiver {s s' : System k} {e : Fin k} {op : ReceiverOp}
    (h : s.step (.receiver e op) = some s') (hinv : (s.slots e).Inv)
    (hrange : s.merger.pc.InRange k) :
    (s'.slots e).receiver.rank + s'.merger.pc.rank k + 1
      ≤ (s.slots e).receiver.rank + s.merger.pc.rank k := by
  cases System.step_cases h with
  | @receiver _ _ slot merger hmay hslot hmerger =>
      have hslot' : (s.slots e).step (.receiver op) = some slot := hslot
      change (Function.update s.slots e slot e).receiver.rank + merger.pc.rank k + 1 ≤ _
      rw [Function.update_self]
      cases Slot.step_cases hslot' with
      | load hpc =>
          rw [System.learned_load] at hmerger
          change (if (s.slots e).isDirty then ReceiverPc.loaded else .idle).rank
            + merger.pc.rank k + 1 ≤ _
          rw [hpc]
          cases hdirty : (s.slots e).isDirty with
          | true =>
              rw [hdirty] at hmerger
              cases hmerger
              change 4 + s.merger.pc.rank k + 1 ≤ 5 + s.merger.pc.rank k
              omega
          | false =>
              rw [hdirty] at hmerger
              have hstep : s.merger.step k (.recv none) = some merger := hmerger
              have hless := Merger.rank_of_step hstep hrange (by simp)
              change 5 + merger.pc.rank k + 1 ≤ 5 + s.merger.pc.rank k
              simp only [Bool.false_eq_true, if_false] at hless
              omega
      | take hpc =>
          obtain ⟨v, hreturned⟩ := hinv.returned_take hslot
          rw [System.learned_take hreturned] at hmerger
          have hstep : s.merger.step k (.recv (some v.2)) = some merger := hmerger
          have hless := Merger.rank_of_step hstep hrange (by simp)
          rw [hpc]
          change 5 + merger.pc.rank k + 1 ≤ 2 + s.merger.pc.rank k
          simp only [if_true] at hless
          omega
      | receiverIsAbandoned hpc =>
          have hstep : s.merger.step k (.isAbandoned (s.slots e).isAbandoned) = some merger := hmerger
          have hless := Merger.rank_of_step hstep hrange (by simp)
          simp only [Bool.false_eq_true, if_false] at hless
          omega
      | receiverSwap hpc | setFront hpc | receiverDrop hpc | receiverEndDrop hpc =>
          cases hmerger
          rw [hpc]
          dsimp only [ReceiverPc.rank]
          omega

theorem threadRank_congr {s s' : Pipeline k H} {e : Fin k}
    (hloop : (s'.loops e).pc = (s.loops e).pc) (houtbox : s'.outbox e = s.outbox e)
    (hslot : s'.system.slots e = s.system.slots e) : s'.threadRank e = s.threadRank e := by
  rw [threadRank, threadRank, hloop, houtbox, hslot]

theorem slots_of_producer {s s' : System k} {e : Fin k} {op : SenderOp Sent}
    (h : s.step (.producer e op) = some s') :
    ∃ slot, (s.slots e).step (.sender op) = some slot ∧ s'.slots = Function.update s.slots e slot
      ∧ s'.merger = s.merger := by
  cases System.step_cases h with
  | producer hmay hslot => exact ⟨_, hslot, rfl, rfl⟩

theorem rank_of_sender {s : Pipeline k H} {e : Fin k} {op : SenderOp Sent} {slot : Slot Sent}
    (hwiring : Wiring s) (hmay : s.MaySend e op)
    (hslot : (s.system.slots e).step (.sender op) = some slot) :
    slot.sender.rank (s.sent e op e) + 1 ≤ (s.system.slots e).sender.rank (s.outbox e)
      ∧ slot.receiver = (s.system.slots e).receiver := by
  have hthread := hwiring.thread e
  cases Slot.step_cases hslot with
  | @write v hpc =>
      have hposted : s.outbox e = some v.2 := hmay
      have hsent : s.sent e (.write v) e = none := Function.update_self ..
      rw [hpc, hposted, hsent]
      exact ⟨by simp [SenderPc.rank], rfl⟩
  | senderIsAbandoned => exact hmay.elim
  | senderSwap hpc =>
      rw [hpc]
      exact ⟨by simp [SenderPc.rank], rfl⟩
  | setBack hpc =>
      rw [hpc] at hthread ⊢
      change SenderPc.rank (s.outbox e) .idle + 1 ≤ _ ∧ _
      rw [hthread.outbox_eq_none nofun]
      exact ⟨by simp [SenderPc.rank], rfl⟩
  | senderDrop hpc =>
      rw [hpc, hmay.2]
      exact ⟨by simp [SenderPc.rank], rfl⟩
  | senderEndDrop hpc =>
      rw [hpc]
      exact ⟨by simp [SenderPc.rank], rfl⟩

/-- A step of a cancelled program takes it nearer to its end, but for an input. -/
theorem rank_of_step (hfeeds : ∀ e : Fin k, (ws e).Feeds e (decodes e)) {s s' : Pipeline k H}
    {label : PipelineLabel k} (h : Closing ws symbol handlers s)
    (hstep : s.step ws symbol label = some s') :
    s'.rank + 1 ≤ s.rank + if isInput label then 4 else 0 := by
  have hwiring := h.wiring hfeeds
  obtain ⟨labels, hsystemRun⟩ := h.system
  cases step_cases hstep with
  | cancel =>
      change s.rank + 1 ≤ s.rank + 4
      omega
  | @loop e label loop hmay hloop hbook =>
      have hcancelled := (hwiring.token e).trans h.cancelled
      have hless := WsLoop.rank_of_step hloop hcancelled hmay.ne_cancel
      refine rank_le_of_thread e (fun e' he' => ?_) ?_
      · exact threadRank_congr (by rw [loops_setLoop_of_ne s he']) rfl rfl
      · have hself : (s.setLoop e loop).threadRank e = loop.pc.rank
            + (s.system.slots e).sender.rank (s.outbox e) + (s.system.slots e).receiver.rank := by
          rw [threadRank, loops_setLoop_self]
          rfl
        change _ + s.system.merger.pc.rank k + 1 ≤ _
        rw [hself, threadRank]
        change _ ≤ _ + if label.isFrame then 4 else 0
        split_ifs at hless ⊢ <;> omega
  | @post e label loop book system hmay hloop hbook hsystem =>
      obtain ⟨frame, rfl, hpc, hpc', -⟩ := post_cases (hfeeds e) hloop hbook
      obtain ⟨slot, hslot, hslots, hmerger⟩ := slots_of_producer hsystem
      have hempty : s.outbox e = none := by
        by_contra hne
        exact hmay.not_busy (Or.inl hne)
      have hidle : (s.system.slots e).sender = .idle ∧ slot = s.system.slots e := by
        cases Slot.step_cases hslot with
        | senderIsAbandoned hidle => exact ⟨hidle, rfl⟩
      refine rank_le_of_thread e (fun e' he' => ?_) ?_
      · refine threadRank_congr ?_ (Function.update_of_ne he' ..) ?_
        · dsimp only
          rw [loops_setLoop_of_ne s he']
        · dsimp only
          rw [hslots, Function.update_of_ne he']
      · dsimp only [threadRank]
        rw [loops_setLoop_self, hslots, Function.update_self, Function.update_self, hmerger, hidle.2,
          hidle.1, hempty, hpc, hpc']
        simp [SenderPc.rank, isInput, WsLabel.isFrame]
        omega
  | @sender e op system hmay hsystem =>
      obtain ⟨slot, hslot, hslots, hmerger⟩ := slots_of_producer hsystem
      obtain ⟨hless, hreceiver⟩ := rank_of_sender hwiring hmay hslot
      refine rank_le_of_thread e (fun e' he' => ?_) ?_
      · refine threadRank_congr rfl ?_ ?_
        · cases op with
          | write => exact Function.update_of_ne he' ..
          | swap | setBack | isAbandoned | drop | endDrop => rfl
        · dsimp only
          rw [hslots, Function.update_of_ne he']
      · dsimp only [threadRank]
        rw [hslots, Function.update_self, hmerger, hreceiver]
        simp only [isInput, Bool.false_eq_true, if_false]
        omega
  | @receiver e op system hsystem =>
      have hless := rank_of_receiver hsystem (System.inv_slot hsystemRun e) h.inRange
      cases System.step_cases hsystem with
      | @receiver _ _ slot merger _ hslot _ =>
          refine rank_le_of_thread e (fun e' he' => ?_) ?_
          · exact threadRank_congr rfl rfl (Function.update_of_ne he' ..)
          · have hsender := sender_of_receiverStep hslot
            dsimp only [threadRank] at hless ⊢
            rw [Function.update_self] at hless ⊢
            rw [hsender]
            simp only [isInput, Bool.false_eq_true, if_false]
            omega
  | isCancelled hsystem =>
      rw [h.cancelled] at hsystem
      cases System.step_cases hsystem with
      | @isCancelled _ merger hmerger =>
          have hless := Merger.rank_of_step hmerger h.inRange (by simp)
          simp only [Bool.false_eq_true, if_false] at hless
          change ∑ e, s.threadRank e + merger.pc.rank k + 1
            ≤ ∑ e, s.threadRank e + s.system.merger.pc.rank k
          omega
  | publish hsystem =>
      cases System.step_cases hsystem with
      | @publish _ _ merger hmerger =>
          have hless := Merger.rank_of_step hmerger h.inRange (by simp)
          simp only [Bool.false_eq_true, if_false] at hless
          change ∑ e, s.threadRank e + merger.pc.rank k + 1
            ≤ ∑ e, s.threadRank e + s.system.merger.pc.rank k
          omega

/-! ### Something can always be done -/

/-- All threads have ended. -/
structure Finished (s : Pipeline k H) : Prop where
  loops : ∀ e, (s.loops e).pc = .returned
  senders : ∀ e, (s.system.slots e).sender = .gone
  receivers : ∀ e, (s.system.slots e).receiver = .gone
  merger : ∃ reason, s.system.merger.pc = .exited reason

/-- A step that takes no input is possible. -/
def CanGoOn (ws : (e : Fin k) → WsHandler (H e)) (symbol : Bytes) (s : Pipeline k H) : Prop :=
  ∃ label, isInput label = false ∧ (s.step ws symbol label).isSome

theorem canGoOn_of_loop {s : Pipeline k H} (e : Fin k) (label : WsLabel)
    (hquiet : label.isFrame = false) (hmay : s.MayLoop e label)
    (hloop : ((s.loops e).step (ws e) symbol label).isSome)
    (hbook : (s.loops e).outgoing (ws e) label = none) : CanGoOn ws symbol s := by
  obtain ⟨loop, hloop⟩ := Option.isSome_iff_exists.mp hloop
  refine ⟨.loop e label, hquiet, ?_⟩
  rw [step, if_pos hmay, hloop, Option.bind_some, hbook]
  rfl

theorem canGoOn_of_sender {s : Pipeline k H} (e : Fin k) (op : SenderOp Sent)
    (hmay : s.MaySend e op) (hproduce : s.system.MayProduce e op)
    (hslot : ((s.system.slots e).senderStep op).isSome) : CanGoOn ws symbol s := by
  obtain ⟨slot, hslot⟩ := Option.isSome_iff_exists.mp hslot
  refine ⟨.sender e op, rfl, ?_⟩
  rw [step, if_pos hmay, System.step, if_pos hproduce, hslot]
  rfl

theorem canGoOn_of_receiver {s : Pipeline k H} (e : Fin k) (op : ReceiverOp)
    (hmay : s.system.MayReceive e op) (hslot : ((s.system.slots e).receiverStep op).isSome)
    (hmerger : (System.advance s.system.merger k (System.learned (s.system.slots e) op)).isSome) :
    CanGoOn ws symbol s := by
  obtain ⟨slot, hslot⟩ := Option.isSome_iff_exists.mp hslot
  obtain ⟨merger, hmerger⟩ := Option.isSome_iff_exists.mp hmerger
  refine ⟨.receiver e op, rfl, ?_⟩
  rw [step, System.step, if_pos hmay, hslot, Option.bind_some, hmerger]
  rfl

theorem canGoOn_of_thread {s : Pipeline k H} (hwiring : Wiring s) (hcancelled : s.cancelled = true)
    (e : Fin k) (hrunning : ¬ ((s.loops e).pc = .returned ∧ (s.system.slots e).sender = .gone)) :
    CanGoOn ws symbol s := by
  have hthread := hwiring.thread e
  have htoken := (hwiring.token e).trans hcancelled
  generalize hpc : (s.loops e).pc = pc at hthread hrunning
  generalize houtbox : s.outbox e = outbox at hthread
  generalize hsender : (s.system.slots e).sender = sender at hthread hrunning
  generalize hcleared : s.system.cleared e = cleared at hthread
  cases hthread with
  | looping =>
      have hbusy : ¬ s.Busy e := by
        rintro (hposted | hsending)
        · exact hposted houtbox
        · exact hsending hsender
      cases pc with
      | top => exact canGoOn_of_loop e .start rfl hbusy (by rw [WsLoop.step, hpc]; rfl) rfl
      | connecting =>
          exact canGoOn_of_loop e (.connect .failed) rfl hbusy (by rw [WsLoop.step, hpc]; rfl) rfl
      | subscribing message =>
          exact canGoOn_of_loop e (.subscribe false) rfl hbusy (by rw [WsLoop.step, hpc]; rfl) rfl
      | reading =>
          refine canGoOn_of_loop e (.read .cancelled) rfl hbusy ?_ rfl
          rw [WsLoop.step, hpc]
          simp [WsLoop.read, htoken]
      | ended =>
          refine canGoOn_of_loop e (.backoff 0) rfl hbusy ?_ rfl
          rw [WsLoop.step, hpc]
          simp [htoken]
      | sleeping delayMs =>
          refine canGoOn_of_loop e .cutShort rfl hbusy ?_ rfl
          rw [WsLoop.step, hpc]
          simp [htoken]
      | returned =>
          exact canGoOn_of_sender e .drop ⟨hpc, houtbox⟩ hcleared
            (by rw [Slot.senderStep, hsender]; rfl)
  | @posting book howner =>
      exact canGoOn_of_sender e (.write (s.system.sends e, book)) houtbox ⟨hcleared, rfl, howner⟩
        (by rw [Slot.senderStep, hsender]; rfl)
  | wrote v =>
      exact canGoOn_of_sender e .swap trivial trivial (by rw [Slot.senderStep, hsender]; rfl)
  | swapped oldState =>
      exact canGoOn_of_sender e .setBack trivial trivial (by rw [Slot.senderStep, hsender]; rfl)
  | released prev =>
      exact canGoOn_of_sender e .endDrop trivial trivial (by rw [Slot.senderStep, hsender]; rfl)
  | gone => exact absurd ⟨rfl, rfl⟩ hrunning

theorem canGoOn_of_merger {s : Pipeline k H} {labels : List (SystemLabel k)}
    (hrun : run System.step .start labels = some s.system)
    (hrunning : ∀ reason, s.system.merger.pc ≠ .exited reason) : CanGoOn ws symbol s := by
  have hattends := System.attends_of_run hrun
  have hrange := inRange_of_run hrun
  cases hpc : s.system.merger.pc with
  | loopHead =>
      refine ⟨.isCancelled, rfl, ?_⟩
      rw [step, System.step, Merger.step, hpc]
      rfl
  | checking i =>
      rw [hpc] at hrange
      have hidle : (s.system.slots ⟨i, hrange⟩).receiver = .idle :=
        (hattends ⟨i, hrange⟩).eq_idle (by simp [hpc]) (by simp [hpc])
      refine canGoOn_of_receiver ⟨i, hrange⟩ .isAbandoned hpc
        (by rw [Slot.receiverStep, hidle]; rfl) ?_
      change (Merger.step k s.system.merger (.isAbandoned _)).isSome
      rw [Merger.step, hpc]
      rfl
  | polling i =>
      rw [hpc] at hrange
      have hattend := hattends ⟨i, hrange⟩
      cases hreceiver : (s.system.slots ⟨i, hrange⟩).receiver with
      | idle =>
          refine canGoOn_of_receiver ⟨i, hrange⟩ .load hpc
            (by rw [Slot.receiverStep, hreceiver]; rfl) ?_
          rw [System.learned_load]
          cases hdirty : (s.system.slots ⟨i, hrange⟩).isDirty with
          | true => rfl
          | false =>
              change (Merger.step k s.system.merger (.recv none)).isSome
              rw [Merger.step, hpc]
              rfl
      | loaded =>
          exact canGoOn_of_receiver ⟨i, hrange⟩ .swap hpc
            (by rw [Slot.receiverStep, hreceiver]; rfl) rfl
      | swapped oldState =>
          exact canGoOn_of_receiver ⟨i, hrange⟩ .setFront hpc
            (by rw [Slot.receiverStep, hreceiver]; rfl) rfl
      | moved newFront =>
          refine canGoOn_of_receiver ⟨i, hrange⟩ .take hpc
            (by rw [Slot.receiverStep, hreceiver]; rfl) ?_
          have hreturned : (s.system.slots ⟨i, hrange⟩).returned .take
              = some ((s.system.slots ⟨i, hrange⟩).buffers newFront) := by
            rw [Slot.returned, hreceiver]
          rw [System.learned_take hreturned]
          change (Merger.step k s.system.merger (.recv _)).isSome
          rw [Merger.step, hpc]
          rfl
      | released prev =>
          rw [hreceiver] at hattend
          obtain ⟨reason, hexited⟩ := hattend
          exact absurd hexited (hrunning reason)
      | gone =>
          rw [hreceiver] at hattend
          obtain ⟨reason, hexited⟩ := hattend
          exact absurd hexited (hrunning reason)
  | received i book =>
      refine ⟨.publish 0 0, rfl, ?_⟩
      rw [step, System.step, Merger.step, hpc]
      rfl
  | exited reason => exact absurd hpc (hrunning reason)

theorem canGoOn_of_receivers {s : Pipeline k H} {labels : List (SystemLabel k)}
    (hrun : run System.step .start labels = some s.system)
    (hexited : ∃ reason, s.system.merger.pc = .exited reason) (e : Fin k)
    (hrunning : (s.system.slots e).receiver ≠ .gone) : CanGoOn ws symbol s := by
  have hattend := System.attends_of_run hrun e
  obtain ⟨reason, hpc⟩ := hexited
  cases hreceiver : (s.system.slots e).receiver with
  | idle =>
      exact canGoOn_of_receiver e .drop ⟨reason, hpc⟩ (by rw [Slot.receiverStep, hreceiver]; rfl) rfl
  | released prev =>
      exact canGoOn_of_receiver e .endDrop ⟨reason, hpc⟩ (by rw [Slot.receiverStep, hreceiver]; rfl)
        rfl
  | gone => exact absurd hreceiver hrunning
  | loaded | swapped | moved =>
      rw [hreceiver, hpc] at hattend
      cases hattend

theorem canGoOn_of_not_finished (hfeeds : ∀ e : Fin k, (ws e).Feeds e (decodes e))
    {s : Pipeline k H} (h : Closing ws symbol handlers s) (hrunning : ¬ Finished s) :
    CanGoOn ws symbol s := by
  obtain ⟨labels, hrun⟩ := h.system
  by_contra hstuck
  refine hrunning ⟨fun e => ?_, fun e => ?_, fun e => ?_, ?_⟩
  · by_contra hpc
    exact hstuck (canGoOn_of_thread (h.wiring hfeeds) h.cancelled e fun hended => hpc hended.1)
  · by_contra hsender
    exact hstuck (canGoOn_of_thread (h.wiring hfeeds) h.cancelled e fun hended => hsender hended.2)
  · by_contra hreceiver
    refine hstuck (canGoOn_of_receivers hrun ?_ e hreceiver)
    by_contra hexited
    exact hstuck (canGoOn_of_merger hrun fun reason hpc => hexited ⟨reason, hpc⟩)
  · by_contra hexited
    exact hstuck (canGoOn_of_merger hrun fun reason hpc => hexited ⟨reason, hpc⟩)

/-! ### The end -/

/-- All threads end in some run without inputs. -/
theorem exists_finished (hfeeds : ∀ e : Fin k, (ws e).Feeds e (decodes e)) {s : Pipeline k H}
    (h : Closing ws symbol handlers s) :
    ∃ rest s', (∀ label ∈ rest, isInput label = false)
      ∧ run (step ws symbol) s rest = some s' ∧ Finished s' := by
  have hlower (s : Pipeline k H) (label : PipelineLabel k) (s' : Pipeline k H)
      (h : Closing ws symbol handlers s) (hlabel : isInput label = false)
      (hstep : s.step ws symbol label = some s') : s'.rank < s.rank := by
    have hless := rank_of_step hfeeds h hstep
    rwa [hlabel] at hless
  exact exists_run_of_potential (fun _ _ _ h hstep => h.step hstep) hlower
    (fun _ h hrunning => canGoOn_of_not_finished hfeeds h hrunning) h

/-- When both halves of a slot are gone its block was freed once, and every value sent is taken,
overwritten or dropped with the block. -/
theorem sent_perm_of_gone {s : Slot Sent} {labels : List (SlotLabel Sent)}
    (hrun : run Slot.step .new labels = some s) (hsender : s.sender = .gone)
    (hreceiver : s.receiver = .gone) :
    s.frees = 1 ∧ (Slot.sent labels).Perm ((Slot.received labels).filterMap id
      ++ Slot.overwritten labels ++ Slot.disposed labels) := by
  have hfree := Slot.freeInv_of_run hrun
  obtain ⟨first, last, -, hfreers⟩ := hfree.freers_of_gone hsender hreceiver
  have hfrees : s.frees = 1 := by
    rw [hfree.frees, hfreers]
    rfl
  have hperm := Slot.sent_perm hrun
  rw [Slot.held, hfrees, if_neg Nat.one_ne_zero, List.append_nil] at hperm
  exact ⟨hfrees, hperm⟩

/-- What became of the books that the thread of an exchange has sent. -/
def Settled (e : Fin k) (labels : List (SystemLabel k)) : Prop :=
  (System.sentBy e labels).Perm (System.taken e labels
    ++ Slot.overwritten (System.slotLabels e labels) ++ Slot.disposed (System.slotLabels e labels))

theorem settled_of_finished {s : Pipeline k H} {labels : List (PipelineLabel k)}
    (hrun : run (step ws symbol) (start handlers) labels = some s) (hfinished : Finished s)
    (e : Fin k) : (s.system.slots e).frees = 1
      ∧ Settled e (systemLabels ws symbol (start handlers) labels) :=
  sent_perm_of_gone (System.run_slot (run_system hrun) e) (hfinished.senders e)
    (hfinished.receivers e)

/-- **What follows a cancellation.** From any state in which the token is cancelled, a run has at most
41 steps, and four more for each frame that a loop still reads and for each further cancellation. No
attempt to connect is started. In every state some thread can go on without a frame, until all threads
have ended; then every slot is freed once and every book sent was taken, overwritten or dropped with
its slot. So from every state all threads end in some run in which no frame is read. -/
theorem shutdown_ends (memmem : Memmem) (symbol : Bytes) {before labels : List (PipelineLabel 2)}
    {s s' : Pipeline 2 Adapter}
    (hbefore : run (step (adapters memmem) symbol) wired before = some s)
    (hcancelled : s.cancelled = true)
    (hrun : run (step (adapters memmem) symbol) s labels = some s') :
    labels.length ≤ 41 + 4 * labels.countP isInput
    ∧ (∀ e, (loopLabels e labels).countP WsLabel.isConnect
      ≤ if (s.loops e).pc = .connecting then 1 else 0)
    ∧ (CanGoOn (adapters memmem) symbol s' ∨ Finished s' ∧ ∀ e,
      (s'.system.slots e).frees = 1
        ∧ Settled e (systemLabels (adapters memmem) symbol wired (before ++ labels)))
    ∧ ∃ rest s'', (∀ label ∈ rest, isInput label = false)
      ∧ run (step (adapters memmem) symbol) s' rest = some s'' ∧ Finished s'' := by
  have hfeeds := feeds_adapters memmem
  have hclosing : Closing (adapters memmem) symbol newAdapters s := ⟨⟨before, hbefore⟩, hcancelled⟩
  have hclosing' : Closing (adapters memmem) symbol newAdapters s' :=
    invariant_of_run (fun _ _ _ h hstep => h.step hstep) hclosing hrun
  refine ⟨?_, fun e => ?_, ?_, ?_⟩
  · have hlength : s'.rank + labels.length ≤ s.rank + 4 * labels.countP isInput :=
      length_le_of_potential (fun _ _ _ h hstep => h.step hstep)
        (fun _ _ _ h hstep => rank_of_step hfeeds h hstep) hclosing hrun
    have hrank := s.rank_le
    omega
  · have htoken := ((hclosing.wiring hfeeds).token e).trans hcancelled
    exact (Nat.le_add_right _ _).trans (WsLoop.connects_of_run htoken (run_loop hrun e))
  · by_cases hfinished : Finished s'
    · have hall := run_append_eq_some.mpr ⟨s, hbefore, hrun⟩
      exact Or.inr ⟨hfinished, settled_of_finished hall hfinished⟩
    · exact Or.inl (canGoOn_of_not_finished hfeeds hclosing' hfinished)
  · exact exists_finished hfeeds hclosing'

/-- What the threads do after a cancellation that comes while a book is being taken. -/
def lastSteps : List (PipelineLabel 2) :=
  [.publish 7 8, .receiver bitstamp .load, .isCancelled, .sender binance .setBack,
    .loop binance (.read .cancelled), .sender binance .drop, .receiver binance .drop,
    .receiver binance .endDrop, .sender binance .endDrop, .loop bitstamp .start,
    .sender bitstamp .drop, .sender bitstamp .endDrop, .receiver bitstamp .drop,
    .receiver bitstamp .endDrop]

def cancelledState : Option (Pipeline 2 Adapter) :=
  run (step (adapters .scan) []) wired (firstSnapshot ++ [.cancel])

theorem isSome_cancelledState : cancelledState.isSome := by decide +kernel

theorem isSome_lastSteps :
    (run (step (adapters .scan) []) (cancelledState.get isSome_cancelledState) lastSteps).isSome := by
  decide +kernel

theorem lastSteps_end :
    ∃ s s', run (step (adapters .scan) []) wired (firstSnapshot ++ [.cancel]) = some s
      ∧ run (step (adapters .scan) []) s lastSteps = some s'
      ∧ lastSteps.length ≤ 41 + 4 * lastSteps.countP isInput
      ∧ (CanGoOn (adapters .scan) [] s' ∨ Finished s' ∧ ∀ e, (s'.system.slots e).frees = 1
        ∧ Settled e (systemLabels (adapters .scan) [] wired
          ((firstSnapshot ++ [.cancel]) ++ lastSteps))) := by
  have hbefore := (Option.some_get isSome_cancelledState).symm
  have hrun := (Option.some_get isSome_lastSteps).symm
  have h := shutdown_ends .scan [] hbefore (by decide +kernel) hrun
  exact ⟨_, _, hbefore, hrun, h.1, h.2.2.1⟩

end Pipeline

end OrderbookAggregator
