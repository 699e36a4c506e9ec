import OrderbookAggregator.Proof.Contribution
import OrderbookAggregator.Proof.SlotHalves

/-!
# What is lost when the merger exits

The merger leaves its loop when it finds every slot abandoned. It looks at the reference counts only,
and it does so before it polls the slots again. A producer that sends and is dropped between the
poll of its slot and the check leaves its last book behind in the slot.
-/

namespace OrderbookAggregator

/-- Where the merger stands while a receiver is not idle. -/
def Attends (pc : MergerPc) (e : Nat) : ReceiverPc → Prop
  | .idle => True
  | .loaded | .swapped _ | .moved _ => pc = .polling e
  | .released _ | .gone => ∃ reason, pc = .exited reason

theorem Attends.eq_idle {pc : MergerPc} {e : Nat} {receiver : ReceiverPc} (h : Attends pc e receiver)
    (hpolling : pc ≠ .polling e) (hexited : ∀ reason, pc ≠ .exited reason) : receiver = .idle := by
  cases receiver with
  | idle => rfl
  | loaded | swapped _ | moved _ => exact absurd h hpolling
  | released _ | gone =>
      obtain ⟨reason, h⟩ := h
      exact absurd h (hexited reason)

/-- The senders that the merger has found dropped in the check under way. -/
def FoundDropped : MergerPc → Nat → Prop
  | .checking i, e => e < i
  | .exited .allDropped, _ => True
  | _, _ => False

theorem foundDropped_checkFrom {receivers i e : Nat} (he : e < receivers)
    (h : FoundDropped (Merger.checkFrom receivers i) e) : e < i := by
  unfold Merger.checkFrom at h
  split at h
  · exact h
  · omega

theorem not_foundDropped_pollFrom (receivers i e : Nat) :
    ¬ FoundDropped (Merger.pollFrom receivers i) e := by
  unfold Merger.pollFrom
  split <;> exact not_false

/-- A sender is found dropped by a check of its own receiver only. -/
theorem Merger.foundDropped_of_step {receivers : Nat} {m m' : Merger} {label : MergerLabel}
    (h : step receivers m label = some m') {e : Nat} (he : e < receivers)
    (hfound : FoundDropped m'.pc e) :
    FoundDropped m.pc e ∨ (m.pc = .checking e ∧ label = .isAbandoned true) := by
  rcases step_cases h with ⟨cancelled, rfl, hpc, rfl⟩ | ⟨i, abandoned, rfl, hpc, rfl⟩ |
    ⟨i, rfl, hpc, rfl⟩ | ⟨i, book, rfl, hpc, rfl⟩ | ⟨i, book, t0, t1, rfl, hpc, rfl⟩
  · dsimp only at hfound
    split at hfound
    · exact hfound.elim
    · exact absurd (foundDropped_checkFrom he hfound) (Nat.not_lt_zero e)
  · dsimp only at hfound
    split at hfound
    · rename_i habandoned
      have hle := foundDropped_checkFrom he hfound
      rcases Nat.lt_succ_iff_lt_or_eq.mp hle with hlt | rfl
      · exact Or.inl (by rw [hpc]; exact hlt)
      · exact Or.inr ⟨hpc, by rw [habandoned]⟩
    · exact absurd hfound (not_foundDropped_pollFrom _ _ _)
  · exact absurd hfound (not_foundDropped_pollFrom _ _ _)
  · exact hfound.elim
  · exact absurd hfound (not_foundDropped_pollFrom _ _ _)

namespace System

open LabelledRun

variable {k : Nat}

/-! ### The halves of the slots -/

theorem receiver_of_senderStep {slot slot' : Slot Sent} {op : SenderOp Sent}
    (h : slot.senderStep op = some slot') : slot'.receiver = slot.receiver := by
  have hstep : slot.step (.sender op) = some slot' := h
  cases Slot.step_cases hstep <;> rfl

theorem attends_update {pc : MergerPc} {slots : Fin k → Slot Sent} {e : Fin k} {slot : Slot Sent}
    (hslot : Attends pc e slot.receiver)
    (hothers : ∀ e', e' ≠ e → Attends pc e' (slots e').receiver) (e' : Fin k) :
    Attends pc e' (Function.update slots e slot e').receiver := by
  by_cases he : e' = e
  · subst he
    rwa [Function.update_self]
  · rw [Function.update_of_ne he]
    exact hothers e' he

/-- The merger attends to one receiver at a time; all the others are idle. -/
theorem attends_of_step {s s' : System k} {label : SystemLabel k}
    (h : ∀ e : Fin k, Attends s.merger.pc e (s.slots e).receiver) (hstep : s.step label = some s')
    (e : Fin k) : Attends s'.merger.pc e (s'.slots e).receiver := by
  have hidle : ∀ {e' : Fin k}, s.merger.pc ≠ .polling e' →
      (∀ reason, s.merger.pc ≠ .exited reason) → ∀ pc, Attends pc e' (s.slots e').receiver :=
    fun hpolling hexited pc => by rw [(h _).eq_idle hpolling hexited]; trivial
  cases step_cases hstep with
  | @producer e' op slot hmay hslot =>
      refine attends_update ?_ (fun e'' _ => h e'') e
      rw [receiver_of_senderStep hslot]
      exact h e'
  | @receiver e' op slot merger hmay hslot hmerger =>
      have hslot' : (s.slots e').step (.receiver op) = some slot := hslot
      cases Slot.step_cases hslot' with
      | load hpc =>
          have hpolling : s.merger.pc = .polling e' := hmay
          rw [learned_load] at hmerger
          cases hdirty : (s.slots e').isDirty with
          | true =>
              rw [hdirty] at hmerger
              cases hmerger
              refine attends_update ?_ (fun e'' _ => h e'') e
              exact hpolling
          | false =>
              refine attends_update ?_ (fun e'' he'' => hidle ?_ ?_ _) e
              · trivial
              · rw [hpolling]
                simpa [Fin.ext_iff] using he''.symm
              · simp [hpolling]
      | receiverSwap hpc =>
          cases hmerger
          have hpolling : s.merger.pc = .polling e' := hmay
          refine attends_update ?_ (fun e'' _ => h e'') e
          exact hpolling
      | setFront hpc =>
          cases hmerger
          have hpolling : s.merger.pc = .polling e' := hmay
          refine attends_update ?_ (fun e'' _ => h e'') e
          exact hpolling
      | take hpc =>
          have hpolling : s.merger.pc = .polling e' := hmay
          refine attends_update ?_ (fun e'' he'' => hidle ?_ ?_ _) e
          · trivial
          · rw [hpolling]
            simpa [Fin.ext_iff] using he''.symm
          · simp [hpolling]
      | receiverIsAbandoned hpc =>
          have hchecking : s.merger.pc = .checking e' := hmay
          refine attends_update ?_ (fun e'' _ => hidle ?_ ?_ _) e
          · rw [hpc]
            trivial
          · simp [hchecking]
          · simp [hchecking]
      | receiverDrop hpc =>
          cases hmerger
          refine attends_update ?_ (fun e'' _ => h e'') e
          exact hmay
      | receiverEndDrop hpc =>
          cases hmerger
          refine attends_update ?_ (fun e'' _ => h e'') e
          exact hmay
  | isCancelled hmerger =>
      rcases Merger.step_cases hmerger with ⟨_, -, hpc, -⟩ | ⟨_, _, heq, -⟩ | ⟨_, heq, -⟩ |
        ⟨_, _, heq, -⟩ | ⟨_, _, _, _, heq, -⟩
      · exact hidle (by simp [hpc]) (by simp [hpc]) _
      all_goals cases heq
  | publish hmerger =>
      obtain ⟨i, book, hpc⟩ := Merger.pc_of_publish hmerger
      exact hidle (by simp [hpc]) (by simp [hpc]) _

theorem attends_of_run {s : System k} {labels : List (SystemLabel k)}
    (hrun : run step start labels = some s) (e : Fin k) :
    Attends s.merger.pc e (s.slots e).receiver := by
  refine run_induction (fun _ s => ∀ e : Fin k, Attends s.merger.pc e (s.slots e).receiver) ?_
    (fun _ _ _ _ _ h hstep => attends_of_step h hstep) hrun e
  intro e
  trivial

theorem senderDropped_of_step {s s' : System k} {label : SystemLabel k}
    (hstep : s.step label = some s') {e : Fin k} (h : (s.slots e).senderDropped = true) :
    (s'.slots e).senderDropped = true :=
  run_induction (fun _ slot => slot.senderDropped = true) h
    (fun _ _ _ _ _ h hslot => Slot.senderDropped_of_step hslot h) (run_slot_of_step hstep e)

theorem eq_isAbandoned_of_learned {slot : Slot Sent} {op : ReceiverOp} {abandoned : Bool}
    (h : learned slot op = some (.isAbandoned abandoned)) :
    op = .isAbandoned ∧ slot.isAbandoned = abandoned := by
  cases op with
  | isAbandoned =>
      cases h
      exact ⟨rfl, rfl⟩
  | swap | setFront | drop | endDrop => cases h
  | load | take =>
      obtain ⟨result, -, hresult⟩ := Option.map_eq_some_iff.mp h
      cases hresult

theorem senderDropped_of_foundDropped {s : System k} {labels : List (SystemLabel k)}
    (hrun : run step start labels = some s) {e : Fin k} (hfound : FoundDropped s.merger.pc e) :
    (s.slots e).senderDropped = true := by
  refine run_induction
    (fun _ s => ∀ e : Fin k, FoundDropped s.merger.pc e → (s.slots e).senderDropped = true) ?_ ?_
    hrun e hfound
  · intro e hfound
    exact hfound.elim
  intro labels s label s' hrun h hstep e hfound
  by_cases hfound' : FoundDropped s.merger.pc e
  · exact senderDropped_of_step hstep (h e hfound')
  -- so the merger has just checked this receiver
  cases step_cases hstep with
  | producer => exact absurd hfound hfound'
  | @receiver e' op slot merger hmay hslot hmerger =>
      cases hlearned : learned (s.slots e') op with
      | none =>
          rw [hlearned] at hmerger
          cases hmerger
          exact absurd hfound hfound'
      | some mergerLabel =>
          rw [hlearned] at hmerger
          rcases Merger.foundDropped_of_step hmerger e.isLt hfound with hfound | ⟨hpc, rfl⟩
          · exact absurd hfound hfound'
          obtain ⟨rfl, habandoned⟩ := eq_isAbandoned_of_learned hlearned
          have he : e' = e := by
            have hchecking : s.merger.pc = .checking e' := hmay
            rw [hchecking, MergerPc.checking.injEq] at hpc
            exact Fin.ext hpc
          subst he
          have hidle := (attends_of_run hrun e').eq_idle (by simp [hpc]) (by simp [hpc])
          have hreceiver : (s.slots e').receiverDropped = false := by
            rw [Slot.receiverDropped, hidle]
          exact senderDropped_of_step hstep
            (Slot.senderDropped_of_isAbandoned (run_slot hrun e') habandoned hreceiver)
  | isCancelled hmerger =>
      rcases Merger.foundDropped_of_step hmerger e.isLt hfound with hfound | ⟨-, heq⟩
      · exact absurd hfound hfound'
      · cases heq
  | publish hmerger =>
      rcases Merger.foundDropped_of_step hmerger e.isLt hfound with hfound | ⟨-, heq⟩
      · exact absurd hfound hfound'
      · cases heq

/-! ### The books taken -/

/-- A book of an exchange was inserted into the store as the last one so far that was taken from the
slot, and the summary of that store was published. -/
def Published (e : Fin k) (v : Sent) (labels : List (SystemLabel k)) (s : System k) : Prop :=
  ∃ before t0 t1 after s₁ store, labels = before ++ .publish t0 t1 :: after
    ∧ run step start before = some s₁ ∧ s₁.merger.pc = .received e v.2
    ∧ (taken e before).getLast? = some v
    ∧ s₁.merger.mergedStore t0 = some store ∧ merge store ∈ s.merger.published

theorem Published.concat {e : Fin k} {v : Sent} {labels : List (SystemLabel k)} {s s' : System k}
    (h : Published e v labels s) (label : SystemLabel k)
    (hpublished : s.merger.published ⊆ s'.merger.published) :
    Published e v (labels ++ [label]) s' := by
  obtain ⟨before, t0, t1, after, s₁, store, rfl, hbefore, hpc, hlast, hstore, hmem⟩ := h
  exact ⟨before, t0, t1, after ++ [label], s₁, store, by simp, hbefore, hpc, hlast, hstore,
    hpublished hmem⟩

/-- A book that was taken is published, at once but for the book that is about to be. -/
theorem published_of_taken {s : System k} {labels : List (SystemLabel k)}
    (hrun : run step start labels = some s) {e : Fin k} {v : Sent}
    (hlast : (taken e labels).getLast? = some v) :
    s.merger.pc = .received e v.2 ∨ Published e v labels s := by
  refine run_induction (fun labels s => ∀ (e : Fin k) v, (taken e labels).getLast? = some v →
    s.merger.pc = .received e v.2 ∨ Published e v labels s) ?_ ?_ hrun e v hlast
  · intro e v hlast
    cases hlast
  intro labels s label s' hrun h hstep e v hlast
  cases affects_of_step hrun hstep with
  | @take e' slot v' hpc hreturned =>
      by_cases he : e' = e
      · subst he
        rw [taken_take hrun hreturned, List.getLast?_concat, Option.some_inj] at hlast
        subst hlast
        exact Or.inl rfl
      · rw [taken_of_ne_take hrun e (by simpa using he)] at hlast
        rcases h e v hlast with hpc' | hpublished
        · rw [hpc] at hpc'
          cases hpc'
        · exact Or.inr (hpublished.concat _ (List.Subset.refl _))
  | @publish t0 t1 i book hpc =>
      rw [taken_of_ne_take hrun e (by simp)] at hlast
      refine Or.inr ?_
      rcases h e v hlast with hpc' | hpublished
      · rw [hpc] at hpc'
        cases hpc'
        refine ⟨labels, t0, t1, [], s, (s.merger.books.insert v.2).evictStale t0 staleThreshold, rfl,
          hrun, hpc, hlast, ?_, List.mem_append_right _ ?_⟩
        · rw [Merger.mergedStore, hpc]
        · exact List.mem_singleton.mpr rfl
      · exact hpublished.concat _ (List.subset_append_left _ _)
  | stay hlabel hmerger =>
      rw [taken_of_ne_take hrun e (hlabel e)] at hlast
      rcases h e v hlast with hpc | hpublished
      · exact Or.inl (by rw [hmerger, hpc])
      · exact Or.inr (hpublished.concat _ (by rw [hmerger]; exact List.Subset.refl _))
  | move hlabel hpc _ hmerger =>
      rw [taken_of_ne_take hrun e (hlabel e)] at hlast
      rcases h e v hlast with hpc' | hpublished
      · exact absurd hpc' (hpc _ _)
      · exact Or.inr (hpublished.concat _ (by rw [hmerger]; exact List.Subset.refl _))

/-! ### The exit -/

/-- Nothing is left behind in the slot of an exchange: it is clean, the last book sent was taken from
it, and that book was merged and published. -/
structure Delivered (e : Fin k) (labels : List (SystemLabel k)) (s : System k) : Prop where
  clean : (s.slots e).isDirty = false
  received : (taken e labels).getLast? = (sentBy e labels).getLast?
  published : ∀ v, (sentBy e labels).getLast? = some v → Published e v labels s

/-- Behind every send of an exchange the merger looks at the slot of the exchange again. -/
def PolledAfterSends (e : Fin k) (labels : List (SystemLabel k)) : Prop :=
  FollowedBy (· = .producer e .swap)
    (fun label => label = .receiver e .load ∨ label = .receiver e .swap) labels

instance (e : Fin k) (labels : List (SystemLabel k)) : Decidable (PolledAfterSends e labels) :=
  decidableFollowedBy labels

theorem looksAfterSends_slotLabels (e : Fin k) (labels : List (SystemLabel k)) :
    Slot.LooksAfterSends (slotLabels e labels) ↔ PolledAfterSends e labels := by
  refine followedBy_flatMap (fun label => ?_) labels
  cases label with
  | producer e' op =>
      by_cases he : e' = e
      · exact Or.inr ⟨.sender op, by rw [slotLabel, if_pos he], by simp [he], by simp⟩
      · exact Or.inl ⟨by rw [slotLabel, if_neg he], by simp [he], by simp⟩
  | receiver e' op =>
      by_cases he : e' = e
      · exact Or.inr ⟨.receiver op, by rw [slotLabel, if_pos he], by simp, by simp [he]⟩
      · exact Or.inl ⟨by rw [slotLabel, if_neg he], by simp, by simp [he]⟩
  | isCancelled cancelled => exact Or.inl ⟨rfl, by simp, by simp⟩
  | publish t0 t1 => exact Or.inl ⟨rfl, by simp, by simp⟩

theorem delivered_iff {s : System k} {labels : List (SystemLabel k)}
    (hrun : run step start labels = some s) (hexit : s.merger.pc = .exited .allDropped)
    (e : Fin k) : Delivered e labels s ↔ PolledAfterSends e labels := by
  have hattends := attends_of_run hrun e
  rw [hexit] at hattends
  have hloaded : (s.slots e).receiver ≠ .loaded := by
    intro hpc
    rw [hpc] at hattends
    cases hattends
  rw [← looksAfterSends_slotLabels, ← Slot.isDirty_eq_false_iff (run_slot hrun e) hloaded]
  refine ⟨Delivered.clean, fun hclean => ?_⟩
  have hrecv : (s.slots e).inRecv = false := by
    rw [Slot.inRecv]
    cases hpc : (s.slots e).receiver with
    | swapped _ | moved _ =>
        rw [hpc] at hattends
        cases hattends
    | idle | loaded | released _ | gone => rfl
  have hdropped : (s.slots e).senderDropped = true :=
    senderDropped_of_foundDropped hrun (by rw [hexit]; trivial)
  have hlast : (taken e labels).getLast? = (sentBy e labels).getLast? :=
    (slot_refines hrun e).getLast?_received hclean (Slot.pendingSend_of_senderDropped hdropped) hrecv
  refine ⟨hclean, hlast, fun v hv => ?_⟩
  refine (published_of_taken hrun (hlast.trans hv)).resolve_left fun hpc => ?_
  rw [hexit] at hpc
  cases hpc

/-- **What the merger leaves behind when it exits.** When it leaves its loop because all producers
are dropped, the last book sent on every slot has been received, merged and published exactly if
behind every send the merger has looked at the slot again. -/
theorem allDelivered_iff {s : System k} {labels : List (SystemLabel k)}
    (hrun : run step start labels = some s) (hexit : s.merger.pc = .exited .allDropped) :
    (∀ e, Delivered e labels s) ↔ ∀ e, PolledAfterSends e labels :=
  forall_congr' fun e => delivered_iff hrun hexit e

/-- The producer sends between the check and the poll and is dropped then. -/
def deliveredRun : List (SystemLabel 1) :=
  [.isCancelled false, .receiver only .isAbandoned] ++ sendLabels only (0, bareBook 0)
    ++ [.producer only .drop, .producer only .endDrop] ++ recvLabels only
    ++ [.publish 0 0, .isCancelled false, .receiver only .isAbandoned]

theorem isSome_deliveredRun : (run step start deliveredRun).isSome := by decide +kernel

theorem allDelivered_deliveredRun :
    ∃ s, run step start deliveredRun = some s ∧ ∀ e, Delivered e deliveredRun s := by
  have hrun := (Option.some_get isSome_deliveredRun).symm
  exact ⟨_, hrun, (allDelivered_iff hrun (by decide +kernel)).mpr (by decide +kernel)⟩

/-- The producer of slot 0 sends between the poll and the next check and is dropped then. -/
def lostRun : List (SystemLabel 2) :=
  [.isCancelled false, .receiver 0 .isAbandoned, .receiver 0 .load, .receiver 1 .load]
    ++ sendLabels 0 (0, bareBook 0)
    ++ [.producer 0 .drop, .producer 0 .endDrop, .producer 1 .drop, .producer 1 .endDrop,
      .isCancelled false, .receiver 0 .isAbandoned, .receiver 1 .isAbandoned]

theorem isSome_lostRun : (run step start lostRun).isSome := by decide +kernel

/-- The merger exits while a book that it has never seen stands in slot 0. -/
theorem lostRun_loses_book :
    ∃ s, run step start lostRun = some s ∧ s.merger.pc = .exited .allDropped
      ∧ (s.slots 0).isDirty = true ∧ (sentBy 0 lostRun).getLast? = some (0, bareBook 0)
      ∧ taken 0 lostRun = [] ∧ s.merger.published = [] :=
  ⟨_, (Option.some_get isSome_lostRun).symm, by decide +kernel⟩

end System

end OrderbookAggregator
