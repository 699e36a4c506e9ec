import OrderbookAggregator.Proof.AtomicSlot
import OrderbookAggregator.Proof.MergerRun
import OrderbookAggregator.System

/-!
# Runs of the system

A run of the system is a run of every slot and a run of the merger. What a slot has been sent and
what was taken from it can be read off the labels of its own steps.
-/

namespace OrderbookAggregator.System

open LabelledRun

variable {k : Nat}

/-! ### Slots -/

/-- The step of a slot that a step of the system is. -/
def slotLabel (e : Fin k) : SystemLabel k → List (SlotLabel Sent)
  | .producer e' op => if e' = e then [.sender op] else []
  | .receiver e' op => if e' = e then [.receiver op] else []
  | _ => []

def slotLabels (e : Fin k) (labels : List (SystemLabel k)) : List (SlotLabel Sent) :=
  labels.flatMap (slotLabel e)

theorem slotLabels_append (e : Fin k) (labels labels' : List (SystemLabel k)) :
    slotLabels e (labels ++ labels') = slotLabels e labels ++ slotLabels e labels' :=
  List.flatMap_append

theorem slotLabels_singleton (e : Fin k) (label : SystemLabel k) :
    slotLabels e [label] = slotLabel e label := by
  simp [slotLabels]

theorem run_slot_of_step {s s' : System k} {label : SystemLabel k} (h : s.step label = some s')
    (e : Fin k) : run Slot.step (s.slots e) (slotLabel e label) = some (s'.slots e) := by
  cases step_cases h with
  | @producer e' op slot hmay hslot =>
      change run Slot.step (s.slots e) (if e' = e then [.sender op] else [])
        = some (Function.update s.slots e' slot e)
      by_cases he : e' = e
      · subst he
        rw [if_pos rfl, Function.update_self]
        simpa [Slot.step] using hslot
      · rw [if_neg he, Function.update_of_ne (Ne.symm he)]
        rfl
  | @receiver e' op slot merger hmay hslot hmerger =>
      change run Slot.step (s.slots e) (if e' = e then [.receiver op] else [])
        = some (Function.update s.slots e' slot e)
      by_cases he : e' = e
      · subst he
        rw [if_pos rfl, Function.update_self]
        simpa [Slot.step] using hslot
      · rw [if_neg he, Function.update_of_ne (Ne.symm he)]
        rfl
  | isCancelled hmerger => rfl
  | publish hmerger => rfl

theorem run_slot {s s' : System k} {labels : List (SystemLabel k)}
    (hrun : run step s labels = some s') (e : Fin k) :
    run Slot.step (s.slots e) (slotLabels e labels) = some (s'.slots e) := by
  have hsim := @run_simulation _ _ _ _ step Slot.step (fun s => s.slots e)
    (fun _ label => slotLabel e label) s (fun _ _ _ _ _ hstep => run_slot_of_step hstep e)
    labels s' hrun
  rwa [observe_eq_flatMap hrun] at hsim

theorem slot_refines {s : System k} {labels : List (SystemLabel k)}
    (hrun : run step start labels = some s) (e : Fin k) :
    Slot.Refines (slotLabels e labels) (s.slots e) :=
  Slot.refines_of_run (run_slot hrun e)

/-- What was put into a slot, the last of it perhaps not published yet. -/
def sentBy (e : Fin k) (labels : List (SystemLabel k)) : List Sent :=
  Slot.sent (slotLabels e labels)

def taken (e : Fin k) (labels : List (SystemLabel k)) : List Sent :=
  (Slot.received (slotLabels e labels)).filterMap id

theorem sentBy_append (e : Fin k) (labels labels' : List (SystemLabel k)) :
    sentBy e (labels ++ labels') = sentBy e labels ++ sentBy e labels' := by
  rw [sentBy, slotLabels_append, Slot.sent, List.flatMap_append]
  rfl

theorem taken_append {s : System k} {labels : List (SystemLabel k)}
    (hrun : run step start labels = some s) (e : Fin k) (labels' : List (SystemLabel k)) :
    taken e (labels ++ labels') = taken e labels
      ++ (observe Slot.step Slot.results (s.slots e) (slotLabels e labels')).filterMap id := by
  have hslot : run Slot.step Slot.new (slotLabels e labels) = some (s.slots e) := run_slot hrun e
  rw [taken, slotLabels_append, Slot.received, observe_append hslot, List.filterMap_append]
  rfl

theorem inv_slot {s : System k} {labels : List (SystemLabel k)}
    (hrun : run step start labels = some s) (e : Fin k) : Slot.Inv (s.slots e) :=
  (slot_refines hrun e).inv

/-! ### What is taken -/

theorem taken_of_ne_take {s : System k} {labels : List (SystemLabel k)}
    (hrun : run step start labels = some s) (e : Fin k) {label : SystemLabel k}
    (hlabel : label ≠ .receiver e .take) : taken e (labels ++ [label]) = taken e labels := by
  rw [taken_append hrun, slotLabels_singleton, List.append_right_eq_self]
  cases label with
  | producer e' op =>
      rw [slotLabel]
      split
      · rw [observe]
        cases (s.slots e).step (.sender op) <;> rfl
      · rfl
  | receiver e' op =>
      rw [slotLabel]
      split
      · rename_i he
        subst he
        have hresults : (Slot.results (s.slots e') (.receiver op)).filterMap id = [] := by
          cases op with
          | take => exact absurd rfl hlabel
          | load =>
              cases hdirty : (s.slots e').isDirty <;> simp [Slot.results, Slot.returned, hdirty]
          | swap | setFront | isAbandoned | drop | endDrop => rfl
        rw [observe, List.filterMap_append, hresults]
        cases (s.slots e').step (.receiver op) <;> rfl
      · rfl
  | isCancelled cancelled => rfl
  | publish t0 t1 => rfl

theorem taken_take {s : System k} {labels : List (SystemLabel k)}
    (hrun : run step start labels = some s) {e : Fin k} {v : Sent}
    (hreturned : (s.slots e).returned .take = some (some v)) :
    taken e (labels ++ [.receiver e .take]) = taken e labels ++ [v] := by
  rw [taken_append hrun, slotLabels_singleton, slotLabel, if_pos rfl, observe, Slot.results,
    hreturned]
  cases (s.slots e).step (.receiver .take) <;> rfl

/-- What was taken was sent, in the order it was sent. -/
theorem taken_sublist_sentBy {s : System k} {labels : List (SystemLabel k)}
    (hrun : run step start labels = some s) (e : Fin k) :
    (taken e labels).Sublist (sentBy e labels) := by
  have h := slot_refines hrun e
  rw [sentBy, h.sends]
  exact h.received_sublist.trans (List.sublist_append_left _ _)

/-! ### The merger -/

/-- What a step of the system is to the merger: a book comes out of the slot that is polled, or the
book is published, or neither, and then at most the place of the merger changes. -/
inductive Affects (s : System k) : SystemLabel k → System k → Prop
  | take {e : Fin k} {slot v} (hpc : s.merger.pc = .polling e)
      (hreturned : (s.slots e).returned .take = some (some v)) :
      Affects s (.receiver e .take) { s with
        slots := Function.update s.slots e slot
        merger := { s.merger with pc := .received e v.2 } }
  | publish {t0 t1 i book} (hpc : s.merger.pc = .received i book) :
      Affects s (.publish t0 t1) { s with
        merger := { s.merger.publish book t0 t1 with pc := Merger.pollFrom k (i + 1) } }
  | stay {label s'} (hlabel : ∀ e, label ≠ .receiver e .take) (hmerger : s'.merger = s.merger) :
      Affects s label s'
  | move {label s' pc} (hlabel : ∀ e, label ≠ .receiver e .take)
      (hpc : ∀ i book, s.merger.pc ≠ .received i book) (hpc' : ∀ i book, pc ≠ .received i book)
      (hmerger : s'.merger = { s.merger with pc }) : Affects s label s'

theorem learned_load (slot : Slot Sent) :
    learned slot .load = if slot.isDirty then none else some (.recv none) := by
  change (slot.returned .load).map _ = _
  rw [Slot.returned]
  cases slot.isDirty <;> rfl

theorem learned_take {slot : Slot Sent} {result : Option Sent}
    (hreturned : slot.returned .take = some result) :
    learned slot .take = some (.recv (result.map Prod.snd)) := by
  change (slot.returned .take).map _ = _
  rw [hreturned]
  rfl

theorem affects_of_advance {s s' : System k} {label : SystemLabel k} {mergerLabel : MergerLabel}
    (hlabel : ∀ e, label ≠ .receiver e .take) (hpublish : ∀ t0 t1, mergerLabel ≠ .publish t0 t1)
    (hrecv : ∀ book, mergerLabel ≠ .recv (some book))
    (hmerger : s.merger.step k mergerLabel = some s'.merger) : Affects s label s' := by
  rcases Merger.step_cases hmerger with ⟨cancelled, rfl, hpc, hmerger⟩ |
    ⟨i, abandoned, rfl, hpc, hmerger⟩ | ⟨i, rfl, hpc, hmerger⟩ | ⟨i, book, rfl, -, -⟩ |
    ⟨i, book, t0, t1, rfl, -, -⟩
  · refine .move hlabel (by simp [hpc]) (fun i book => ?_) hmerger
    split
    · simp
    · exact Merger.checkFrom_ne_received _ _ _ _
  · refine .move hlabel (by simp [hpc]) (fun i book => ?_) hmerger
    split
    · exact Merger.checkFrom_ne_received _ _ _ _
    · exact Merger.pollFrom_ne_received _ _ _ _
  · exact .move hlabel (by simp [hpc]) (Merger.pollFrom_ne_received _ _) hmerger
  · exact absurd rfl (hrecv book)
  · exact absurd rfl (hpublish t0 t1)

theorem affects_of_step {s s' : System k} {labels : List (SystemLabel k)} {label : SystemLabel k}
    (hrun : run step start labels = some s) (h : s.step label = some s') : Affects s label s' := by
  cases step_cases h with
  | producer hmay hslot => exact .stay (by simp) rfl
  | @receiver e op slot merger hmay hslot hmerger =>
      cases op with
      | take =>
          obtain ⟨v, hreturned⟩ := (inv_slot hrun e).returned_take hslot
          have hpc : s.merger.pc = .polling e := hmay
          rw [learned_take hreturned] at hmerger
          change s.merger.step k (.recv (some v.2)) = some merger at hmerger
          rw [Merger.step, hpc] at hmerger
          cases hmerger
          exact .take hpc hreturned
      | load =>
          cases hdirty : (s.slots e).isDirty with
          | true =>
              rw [learned_load, hdirty] at hmerger
              cases hmerger
              exact .stay (by simp) rfl
          | false =>
              rw [learned_load, hdirty] at hmerger
              change s.merger.step k (.recv none) = some merger at hmerger
              exact affects_of_advance (by simp) (by simp) (by simp) hmerger
      | isAbandoned =>
          change s.merger.step k (.isAbandoned (s.slots e).isAbandoned) = some merger at hmerger
          exact affects_of_advance (by simp) (by simp) (by simp) hmerger
      | swap | setFront | drop | endDrop =>
          cases hmerger
          exact .stay (by simp) rfl
  | isCancelled hmerger => exact affects_of_advance (by simp) (by simp) (by simp) hmerger
  | @publish t0 t1 merger hmerger =>
      obtain ⟨i, book, hpc⟩ := Merger.pc_of_publish hmerger
      rw [Merger.step, hpc] at hmerger
      cases hmerger
      exact .publish hpc

end OrderbookAggregator.System
