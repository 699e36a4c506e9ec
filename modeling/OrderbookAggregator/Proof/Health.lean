import OrderbookAggregator.Exposition
import OrderbookAggregator.Proof.Connection
import OrderbookAggregator.Proof.Provenance

/-!
# What the health endpoint tells

A handler shuts its loop down, and leaves the connection flag as it was, only when it finds its
receiver dropped. The merger drops the receivers behind its loop. So while the merger runs the flags
are right, and what is answered to a request tells how many exchanges are connected.
-/

namespace OrderbookAggregator

open LabelledRun

namespace Pipeline

variable {k : Nat} {H : Fin k → Type} {ws : (e : Fin k) → WsHandler (H e)} {symbol : Bytes}
  {decodes : Fin k → Bytes → OrderBook → Prop} {handlers : (e : Fin k) → H e}

def MergerExited (s : Pipeline k H) : Prop := ∃ reason, s.system.merger.pc = .exited reason

/-- A sender that is still there finds the slot abandoned only when the merger has left its loop. -/
theorem mergerExited_of_isAbandoned {s : System k} {labels : List (SystemLabel k)}
    (hrun : run System.step .start labels = some s) {e : Fin k}
    (hsender : (s.slots e).sender = .idle) (habandoned : (s.slots e).isAbandoned = true) :
    ∃ reason, s.merger.pc = .exited reason := by
  have hone : (s.slots e).refcount = 1 := of_decide_eq_true habandoned
  have hleft : (s.slots e).senderDropped = false := by rw [Slot.senderDropped, hsender]
  have hattend := System.attends_of_run hrun e
  rw [Slot.refcount_of_run (System.run_slot hrun e), hleft] at hone
  cases hreceiver : (s.slots e).receiver with
  | released prev =>
      rw [hreceiver] at hattend
      exact hattend
  | gone =>
      rw [hreceiver] at hattend
      exact hattend
  | idle | loaded | swapped | moved =>
      have hright : (s.slots e).receiverDropped = false := by rw [Slot.receiverDropped, hreceiver]
      rw [hright] at hone
      exact absurd hone (by decide)

theorem mergerExited_of_step {s s' : Pipeline k H} {label : PipelineLabel k}
    (hstep : s.step ws symbol label = some s') (h : MergerExited s) : MergerExited s' := by
  obtain ⟨reason, hpc⟩ := h
  have hsystem {systemLabel : SystemLabel k} {system : System k}
      (hsystem : s.system.step systemLabel = some system) : system.merger.pc = .exited reason := by
    cases System.step_cases hsystem with
    | producer => exact hpc
    | @receiver e op slot merger hmay hslot hmerger =>
        cases op with
        | isAbandoned | load | swap | setFront | take =>
            rw [show s.system.merger.pc = _ from hmay] at hpc
            cases hpc
        | drop | endDrop =>
            cases hmerger
            exact hpc
    | isCancelled hmerger | publish hmerger =>
        rw [Merger.step, hpc] at hmerger
        cases hmerger
  cases step_cases hstep with
  | cancel | loop => exact ⟨reason, hpc⟩
  | post _ _ _ h | sender _ h | receiver h | isCancelled h | publish h => exact ⟨reason, hsystem h⟩

theorem mergerExited_of_run {s s' : Pipeline k H} {labels : List (PipelineLabel k)}
    (hrun : run (step ws symbol) s labels = some s') (h : MergerExited s) : MergerExited s' :=
  invariant_of_run (fun _ _ _ h hstep => mergerExited_of_step hstep h) h hrun

/-- A handler that shuts its loop down has found the merger gone. -/
theorem mergerExited_of_shutsDown (hfeeds : ∀ e : Fin k, (ws e).Feeds e (decodes e))
    {s : Pipeline k H} {labels : List (PipelineLabel k)}
    (hrun : run (step ws symbol) (start handlers) labels = some s) {e : Fin k} {label : WsLabel}
    (hmay : s.MayLoop e label) (hshuts : WsLoop.ShutsDown (ws e) (s.loops e) label) :
    MergerExited s := by
  obtain ⟨frame, abandoned, out, rfl, hprocess, hresult⟩ := hshuts
  obtain rfl := (hfeeds e).shutsDown hprocess hresult
  have hidle : (s.system.slots e).sender = .idle := by
    by_contra hbusy
    exact hmay.2 (Or.inr hbusy)
  exact mergerExited_of_isAbandoned (run_system hrun) hidle hmay.1.symm

/-- While the merger runs, the flag of every exchange tells whether it is connected. -/
theorem truthful_of_run (hfeeds : ∀ e : Fin k, (ws e).Feeds e (decodes e))
    {s : Pipeline k H} {labels : List (PipelineLabel k)}
    (hrun : run (step ws symbol) (start handlers) labels = some s) (e : Fin k) :
    MergerExited s ∨ (s.loops e).Truthful := by
  refine run_induction (fun _ s => MergerExited s ∨ (s.loops e).Truthful) ?_ ?_ hrun
  · exact Or.inr (Eq.refl false)
  intro labels s label s' hrun ih hstep
  rcases ih with hexited | htruthful
  · exact Or.inl (mergerExited_of_step hstep hexited)
  have hloop {label : WsLabel} {loop : WsLoop (H e)} (hmay : s.MayLoop e label)
      (hloop : (s.loops e).step (ws e) symbol label = some loop) :
      MergerExited s ∨ loop.Truthful := by
    by_cases hshuts : WsLoop.ShutsDown (ws e) (s.loops e) label
    · exact Or.inl (mergerExited_of_shutsDown hfeeds hrun hmay hshuts)
    · exact Or.inr ((WsLoop.truthful_of_step htruthful hloop).mpr hshuts)
  have hset {e' : Fin k} {label : WsLabel} {loop : WsLoop (H e')} (hmay : s.MayLoop e' label)
      (hloop' : (s.loops e').step (ws e') symbol label = some loop) :
      MergerExited s ∨ ((s.setLoop e' loop).loops e).Truthful := by
    by_cases he : e = e'
    · subst he
      rw [loops_setLoop_self]
      exact hloop hmay hloop'
    · rw [loops_setLoop_of_ne s he]
      exact Or.inr htruthful
  refine Or.imp_left (mergerExited_of_step hstep) ?_
  cases step_cases hstep with
  | loop hmay hloop | post hmay hloop => exact hset hmay hloop
  | cancel | sender | receiver | isCancelled | publish => exact Or.inr htruthful

end Pipeline

theorem health_ofFn {k : Nat} (flag : Fin k → Bool) :
    (health (List.ofFn flag) = (.ok, "OK\n") ↔ ∀ e, flag e = true)
      ∧ (health (List.ofFn flag) = (.ok, "DEGRADED\n")
        ↔ (∃ e, flag e = true) ∧ ∃ e, flag e = false)
      ∧ (health (List.ofFn flag) = (.serviceUnavailable, "DOWN\n")
        ↔ (∃ e, flag e = false) ∧ ∀ e, flag e = false) := by
  have hall : ((List.ofFn flag).filter id).length = (List.ofFn flag).length ↔ ∀ e, flag e = true := by
    rw [List.length_filter_eq_length_iff, List.forall_mem_ofFn_iff]
    rfl
  have hsome : 0 < ((List.ofFn flag).filter id).length ↔ ∃ e, flag e = true := by
    simp [List.length_pos_iff_exists_mem, List.mem_filter, List.mem_ofFn]
  simp only [health]
  split_ifs with hlength hpos
  · have hflags := hall.mp hlength
    simp [hflags]
  · have hone := hsome.mp hpos
    have hother : ∃ e, flag e = false := by
      by_contra hnone
      exact hlength (hall.mpr (by simpa using hnone))
    simp [hone, hother, -Bool.forall_bool]
  · have hnone : ∀ e, flag e = false := by
      intro e
      by_contra hflag
      exact hpos (hsome.mpr ⟨e, by simpa using hflag⟩)
    have hother : ∃ e, flag e = false := by
      by_contra hnone
      exact hlength (hall.mpr (by simpa using hnone))
    have : Nonempty (Fin k) := hother.nonempty
    simp [hnone]

/-- **What `/health` answers.** The flags are loaded one by one, at moments of a run that may all be
different. If the merger still runs, the answer is `OK` if every exchange was connected at its
moment, `DOWN` if none was, and `DEGRADED` if some were and some were not. -/
theorem Pipeline.health_of_run (memmem : Memmem) (symbol : Bytes)
    {labels : List (PipelineLabel 2)} {s : Pipeline 2 Adapter}
    (hrun : run (step (adapters memmem) symbol) wired labels = some s) (hruns : ¬ MergerExited s)
    (moments : Fin 2 → Pipeline 2 Adapter)
    (hmoments : ∀ e, Reached (step (adapters memmem) symbol) wired labels (moments e)) :
    (health (List.ofFn fun e => ((moments e).loops e).metrics.connected) = (.ok, "OK\n")
        ↔ ∀ e, ((moments e).loops e).pc.isConnected = true)
      ∧ (health (List.ofFn fun e => ((moments e).loops e).metrics.connected) = (.ok, "DEGRADED\n")
        ↔ (∃ e, ((moments e).loops e).pc.isConnected = true)
          ∧ ∃ e, ((moments e).loops e).pc.isConnected = false)
      ∧ (health (List.ofFn fun e => ((moments e).loops e).metrics.connected)
          = (.serviceUnavailable, "DOWN\n")
        ↔ (∃ e, ((moments e).loops e).pc.isConnected = false)
          ∧ ∀ e, ((moments e).loops e).pc.isConnected = false) := by
  have hflags : (fun e => ((moments e).loops e).metrics.connected)
      = fun e => ((moments e).loops e).pc.isConnected := by
    funext e
    obtain ⟨before, ⟨after, rfl⟩, hbefore⟩ := hmoments e
    obtain ⟨moment, hmoment, hafter⟩ := run_append_eq_some.mp hrun
    obtain rfl := Option.some_inj.mp (hbefore.symm.trans hmoment)
    rcases truthful_of_run (feeds_adapters memmem) hbefore e with hexited | htruthful
    · exact absurd (mergerExited_of_run hafter hexited) hruns
    · exact htruthful
  rw [hflags]
  exact health_ofFn _

theorem Pipeline.firstSnapshot_runs :
    ¬ MergerExited ((run (step (adapters .scan) []) wired (firstSnapshot ++ [.publish 7 8])).get
      isSome_firstSnapshot) := by
  rintro ⟨reason, hpc⟩
  have hpolling : ((run (step (adapters .scan) []) wired (firstSnapshot ++ [.publish 7 8])).get
      isSome_firstSnapshot).system.merger.pc = .polling 1 := by decide +kernel
  rw [hpolling] at hpc
  cases hpc

/-- The flag of Binance is loaded when it is connected, that of Bitstamp before. -/
theorem health_firstSnapshot :
    ∃ s, run (Pipeline.step (adapters .scan) []) .wired (firstSnapshot ++ [.publish 7 8]) = some s
      ∧ (health [(s.loops binance).metrics.connected,
            (Pipeline.wired.loops bitstamp).metrics.connected]
          = (.ok, "DEGRADED\n")
        ↔ (∃ e : Fin 2, ((if e = 0 then s else .wired).loops e).pc.isConnected = true)
          ∧ ∃ e : Fin 2, ((if e = 0 then s else .wired).loops e).pc.isConnected = false) := by
  have hrun := (Option.some_get isSome_firstSnapshot).symm
  refine ⟨_, hrun, ?_⟩
  exact (Pipeline.health_of_run .scan [] hrun Pipeline.firstSnapshot_runs
    (fun e => if e = 0 then _ else .wired) (fun e => by
      split_ifs
      · exact ⟨_, List.prefix_rfl, hrun⟩
      · exact ⟨[], List.nil_prefix, rfl⟩)).2.1

end OrderbookAggregator
