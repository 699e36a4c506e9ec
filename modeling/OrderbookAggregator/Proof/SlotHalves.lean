import OrderbookAggregator.Proof.AtomicSlot

/-!
# What one half of a slot can tell of the other

The reference count tells how many halves are left, the dirty flag whether something was sent since
the receiver last looked at the state byte.
-/

namespace OrderbookAggregator.Slot

open LabelledRun

variable {T : Type}

/-! ### The reference count -/

def senderDropped (s : Slot T) : Bool :=
  match s.sender with
  | .released _ | .gone => true
  | _ => false

def receiverDropped (s : Slot T) : Bool :=
  match s.receiver with
  | .released _ | .gone => true
  | _ => false

/-- The reference count while halves are left or dropped. -/
def halves (senderDropped receiverDropped : Bool) : UInt8 :=
  (if senderDropped then 0 else 1) + (if receiverDropped then 0 else 1)

theorem halves_sub_sender (receiverDropped : Bool) :
    halves false receiverDropped - 1 = halves true receiverDropped := by
  cases receiverDropped <;> rfl

theorem halves_sub_receiver (senderDropped : Bool) :
    halves senderDropped false - 1 = halves senderDropped true := by
  cases senderDropped <;> rfl

theorem refcount_of_step {s s' : Slot T} {label : SlotLabel T} (hstep : s.step label = some s')
    (h : s.refcount = halves s.senderDropped s.receiverDropped) :
    s'.refcount = halves s'.senderDropped s'.receiverDropped := by
  cases step_cases hstep with
  | senderIsAbandoned | receiverIsAbandoned => exact h
  | write hpc | senderSwap hpc | setBack hpc =>
      have hleft : s.senderDropped = false := by rw [senderDropped, hpc]
      exact h.trans (congrArg (halves · _) hleft)
  | senderDrop hpc =>
      have hleft : s.senderDropped = false := by rw [senderDropped, hpc]
      rw [hleft] at h
      exact (congrArg (· - 1) h).trans (halves_sub_sender _)
  | senderEndDrop hpc =>
      have hdropped : s.senderDropped = true := by rw [senderDropped, hpc]
      exact h.trans (congrArg (halves · _) hdropped)
  | load hpc =>
      have hleft : s.receiverDropped = false := by rw [receiverDropped, hpc]
      rw [hleft] at h
      refine h.trans ?_
      change halves s.senderDropped false
        = halves s.senderDropped { s with receiver := if s.isDirty then _ else _ }.receiverDropped
      cases s.isDirty <;> rfl
  | receiverSwap hpc | setFront hpc | take hpc =>
      have hleft : s.receiverDropped = false := by rw [receiverDropped, hpc]
      exact h.trans (congrArg (halves _) hleft)
  | receiverDrop hpc =>
      have hleft : s.receiverDropped = false := by rw [receiverDropped, hpc]
      rw [hleft] at h
      exact (congrArg (· - 1) h).trans (halves_sub_receiver _)
  | receiverEndDrop hpc =>
      have hdropped : s.receiverDropped = true := by rw [receiverDropped, hpc]
      exact h.trans (congrArg (halves _) hdropped)

theorem refcount_of_run {s : Slot T} {labels : List (SlotLabel T)}
    (hrun : run step new labels = some s) : s.refcount = halves s.senderDropped s.receiverDropped :=
  run_induction (fun _ s => s.refcount = halves s.senderDropped s.receiverDropped) rfl
    (fun _ _ _ _ _ h hstep => refcount_of_step hstep h) hrun

/-- A receiver that is not dropped itself and finds the slot abandoned knows that the sender is
dropped. -/
theorem senderDropped_of_isAbandoned {s : Slot T} {labels : List (SlotLabel T)}
    (hrun : run step new labels = some s) (habandoned : s.isAbandoned = true)
    (hreceiver : s.receiverDropped = false) : s.senderDropped = true := by
  have hone : s.refcount = 1 := of_decide_eq_true habandoned
  rw [refcount_of_run hrun, hreceiver] at hone
  cases hsender : s.senderDropped with
  | true => rfl
  | false =>
      rw [hsender] at hone
      exact absurd hone (by decide)

theorem senderDropped_of_step {s s' : Slot T} {label : SlotLabel T} (h : s.step label = some s')
    (hdropped : s.senderDropped = true) : s'.senderDropped = true := by
  cases step_cases h with
  | write hpc | senderSwap hpc | setBack hpc | senderIsAbandoned hpc | senderDrop hpc =>
      rw [senderDropped, hpc] at hdropped
      cases hdropped
  | senderEndDrop | load | receiverSwap | setFront | take | receiverIsAbandoned | receiverDrop
  | receiverEndDrop => first | rfl | exact hdropped

theorem pendingSend_of_senderDropped {s : Slot T} (h : s.senderDropped = true) :
    s.pendingSend = [] := by
  rw [senderDropped] at h
  rw [pendingSend]
  cases hpc : s.sender with
  | wrote value =>
      rw [hpc] at h
      cases h
  | idle | swapped oldState | released prev | gone => rfl

/-! ### The flag -/

/-- Behind the swap of a send the receiver loads or swaps the state byte. -/
def LooksAfterSends (labels : List (SlotLabel T)) : Prop :=
  FollowedBy (· = .sender .swap)
    (fun label => label = .receiver .load ∨ label = .receiver .swap) labels

/-- The flag is clear exactly if the receiver has looked since the last send, but for a receiver that
has seen the flag and is about to swap. -/
theorem isDirty_eq_false_iff {s : Slot T} {labels : List (SlotLabel T)}
    (hrun : run step new labels = some s) (hloaded : s.receiver ≠ .loaded) :
    s.isDirty = false ↔ LooksAfterSends labels := by
  refine run_induction
    (fun labels s => s.receiver ≠ .loaded → (s.isDirty = false ↔ LooksAfterSends labels))
    (fun _ => iff_of_true isDirty_new followedBy_nil) ?_ hrun hloaded
  intro labels s label s' hrun ih hstep hloaded
  have hinv := inv_of_run hrun
  cases step_cases hstep with
  | write | setBack | senderIsAbandoned | senderDrop | senderEndDrop =>
      exact (ih hloaded).trans (followedBy_concat_of_quiet (by simp) (by simp)).symm
  | @senderSwap value hpc =>
      have hback : s.backIndex = s.back := by rw [backIndex, hpc]
      have hdirty := (pack_dirty (hback ▸ hinv.back_lt)).2
      refine iff_of_false ?_ fun h => (followedBy_concat.mp h).1 rfl
      change ¬ decide (((s.back <<< 1) ||| dirty) &&& dirty ≠ 0) = false
      simpa using hdirty
  | load hpc =>
      have hclean : s.isDirty = false := by
        by_contra hdirty
        rw [Bool.not_eq_false] at hdirty
        exact hloaded (if_pos hdirty)
      exact iff_of_true hclean (followedBy_concat.mpr ⟨by simp, Or.inl (Or.inl rfl)⟩)
  | receiverSwap hpc =>
      have hfront : s.frontIndex = s.front := by rw [frontIndex, hpc]
      have hclean := (pack_clean (hfront ▸ hinv.front_lt)).2
      refine iff_of_true ?_ (followedBy_concat.mpr ⟨by simp, Or.inl (Or.inr rfl)⟩)
      change decide ((s.front <<< 1) &&& dirty ≠ 0) = false
      simpa using hclean
  | setFront hpc | take hpc | receiverIsAbandoned hpc | receiverDrop hpc | receiverEndDrop hpc =>
      have hloaded' : s.receiver ≠ .loaded := by rw [hpc]; simp
      exact (ih hloaded').trans (followedBy_concat_of_quiet (by simp) (by simp)).symm

/-- When both halves are at rest and the flag is clear, the last value received is the last one
sent. -/
theorem Refines.getLast?_received {s : Slot T} {labels : List (SlotLabel T)} (h : Refines labels s)
    (hclean : s.isDirty = false) (hsend : s.pendingSend = []) (hrecv : s.inRecv = false) :
    ((received labels).filterMap id).getLast? = (sent labels).getLast? := by
  have hcell : Register.cellAfter none (history labels) = none :=
    h.cell.symm.trans (h.inv.cell_eq_none hclean)
  have hlast := h.legal.getLast?_gets hcell
  rwa [h.recvs, pendingRecv_of_inRecv_eq_false hrecv, List.append_nil,
    ← List.append_nil (Register.puts _), ← hsend, ← h.sends] at hlast

end OrderbookAggregator.Slot
