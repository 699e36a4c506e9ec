import OrderbookAggregator.AtomicSlot
import OrderbookAggregator.Library.LabelledRun
import OrderbookAggregator.Library.Register

/-!
# The slot is a register

At every moment one buffer belongs to the sender, one to the receiver, and one stands in the middle.
Which buffer a half owns is told by its private index, or, between a swap and the update of that
index, by what the swap has returned. The abstract register holds what stands in the middle while
the dirty flag is set. A send takes effect at its swap, and so does a `recv` that returns a value;
one that returns nothing takes effect at its load.
-/

namespace OrderbookAggregator.Slot

open LabelledRun

variable {T : Type}

/-- The buffer of the sender. -/
def backIndex (s : Slot T) : UInt8 :=
  match s.sender with
  | .swapped oldState => oldState >>> 1
  | _ => s.back

/-- The buffer in the middle. -/
def middleIndex (s : Slot T) : UInt8 := s.state >>> 1

/-- The buffer of the receiver. -/
def frontIndex (s : Slot T) : UInt8 :=
  match s.receiver with
  | .swapped oldState => oldState >>> 1
  | .moved newFront => newFront
  | _ => s.front

/-! ### Packing an index and a flag into a byte -/

theorem eq_of_lt_three {i : UInt8} (h : i < 3) : i = 0 ∨ i = 1 ∨ i = 2 := by
  have hi : i.toNat < 3 := UInt8.lt_iff_toNat_lt.mp h
  have hcases : i.toNat = 0 ∨ i.toNat = 1 ∨ i.toNat = 2 := by omega
  simpa [← UInt8.toNat_inj] using hcases

theorem pack_dirty {i : UInt8} (h : i < 3) :
    ((i <<< 1) ||| dirty) >>> 1 = i ∧ ((i <<< 1) ||| dirty) &&& dirty ≠ 0 := by
  rcases eq_of_lt_three h with rfl | rfl | rfl <;> decide

theorem pack_clean {i : UInt8} (h : i < 3) :
    (i <<< 1) >>> 1 = i ∧ (i <<< 1) &&& dirty = 0 := by
  rcases eq_of_lt_three h with rfl | rfl | rfl <;> decide

/-! ### The invariant -/

/-- Whether a `recv` has swapped and not yet returned. -/
def inRecv (s : Slot T) : Bool :=
  match s.receiver with
  | .swapped _ => true
  | .moved _ => true
  | _ => false

structure Inv (s : Slot T) : Prop where
  back_lt : s.backIndex < 3
  middle_lt : s.middleIndex < 3
  front_lt : s.frontIndex < 3
  back_ne_middle : s.backIndex ≠ s.middleIndex
  back_ne_front : s.backIndex ≠ s.frontIndex
  middle_ne_front : s.middleIndex ≠ s.frontIndex
  /-- The middle buffer is full exactly while the dirty flag is set. -/
  middle : (s.buffers s.middleIndex).isSome = s.isDirty
  /-- The buffer of the receiver is full exactly while a `recv` is about to take its value. -/
  front : (s.buffers s.frontIndex).isSome = s.inRecv
  /-- A `recv` that has seen the dirty flag finds it set. -/
  loaded : s.receiver = .loaded → s.isDirty
  wrote : ∀ value, s.sender = .wrote value → s.buffers s.backIndex = some value
  moved : ∀ newFront, s.receiver = .moved newFront → s.front = newFront

theorem middleIndex_new : (new : Slot T).middleIndex = 1 := by
  change ((1 : UInt8) <<< 1) >>> 1 = 1
  decide

theorem isDirty_new : (new : Slot T).isDirty = false := by
  change decide ((1 : UInt8) <<< 1 &&& dirty ≠ 0) = false
  decide

theorem inv_new : Inv (new : Slot T) where
  back_lt := show (0 : UInt8) < 3 by decide
  middle_lt := by rw [middleIndex_new]; decide
  front_lt := show (2 : UInt8) < 3 by decide
  back_ne_middle := by rw [middleIndex_new]; exact show (0 : UInt8) ≠ 1 by decide
  back_ne_front := show (0 : UInt8) ≠ 2 by decide
  middle_ne_front := by rw [middleIndex_new]; exact show (1 : UInt8) ≠ 2 by decide
  middle := isDirty_new.symm
  front := rfl
  loaded := by simp [new]
  wrote := by simp [new]
  moved := by simp [new]

theorem Inv.step {s s' : Slot T} {label : SlotLabel T} (hinv : Inv s)
    (h : s.step label = some s') : Inv s' := by
  obtain ⟨hbackLt, hmiddleLt, hfrontLt, hbackMiddle, hbackFront, hmiddleFront, hmiddle, hfront,
    hloaded, hwrote, hmoved⟩ := hinv
  cases step_cases h with
  | @write value hpc =>
      -- the sender writes its own buffer only
      have hback : s.backIndex = s.back := by rw [backIndex, hpc]
      rw [hback] at hbackLt hbackMiddle hbackFront
      refine ⟨hbackLt, hmiddleLt, hfrontLt, hbackMiddle, hbackFront, hmiddleFront, ?_, ?_, hloaded,
        ?_, hmoved⟩
      · exact (congrArg _ (Function.update_of_ne hbackMiddle.symm _ _)).trans hmiddle
      · exact (congrArg _ (Function.update_of_ne hbackFront.symm _ _)).trans hfront
      · intro value' hvalue
        cases hvalue
        exact Function.update_self _ _ _
  | @senderSwap value hpc =>
      -- the back buffer goes to the middle, the middle one comes back
      have hback : s.backIndex = s.back := by rw [backIndex, hpc]
      have hfull := hwrote value hpc
      rw [hback] at hbackLt hbackMiddle hbackFront hfull
      obtain ⟨hindex, hdirty⟩ := pack_dirty hbackLt
      refine ⟨hmiddleLt, (congrArg (· < 3) hindex).mpr hbackLt, hfrontLt,
        hbackMiddle.symm.trans_eq hindex.symm, hmiddleFront, hindex.trans_ne hbackFront, ?_, hfront,
        fun _ => decide_eq_true hdirty, by simp, hmoved⟩
      · change (s.buffers (((s.back <<< 1) ||| dirty) >>> 1)).isSome
          = decide (((s.back <<< 1) ||| dirty) &&& dirty ≠ 0)
        rw [hindex, hfull, decide_eq_true hdirty]
        rfl
  | @setBack oldState hpc =>
      have hback : s.backIndex = oldState >>> 1 := by rw [backIndex, hpc]
      rw [hback] at hbackLt hbackMiddle hbackFront
      exact ⟨hbackLt, hmiddleLt, hfrontLt, hbackMiddle, hbackFront, hmiddleFront, hmiddle, hfront,
        hloaded, by simp, hmoved⟩
  | senderIsAbandoned hpc =>
      exact ⟨hbackLt, hmiddleLt, hfrontLt, hbackMiddle, hbackFront, hmiddleFront, hmiddle, hfront,
        hloaded, hwrote, hmoved⟩
  | senderDrop hpc =>
      have hback : s.backIndex = s.back := by rw [backIndex, hpc]
      rw [hback] at hbackLt hbackMiddle hbackFront
      exact ⟨hbackLt, hmiddleLt, hfrontLt, hbackMiddle, hbackFront, hmiddleFront, hmiddle, hfront,
        hloaded, by simp, hmoved⟩
  | senderEndDrop hpc =>
      have hback : s.backIndex = s.back := by rw [backIndex, hpc]
      rw [hback] at hbackLt hbackMiddle hbackFront
      exact ⟨hbackLt, hmiddleLt, hfrontLt, hbackMiddle, hbackFront, hmiddleFront, hmiddle, hfront,
        hloaded, by simp, hmoved⟩
  | load hpc =>
      have hfrontIndex : s.frontIndex = s.front := by rw [frontIndex, hpc]
      have hinRecv : s.inRecv = false := by rw [inRecv, hpc]
      rw [hfrontIndex] at hfrontLt hbackFront hmiddleFront hfront
      rw [hinRecv] at hfront
      cases hdirty : s.isDirty with
      | false =>
          exact ⟨hbackLt, hmiddleLt, hfrontLt, hbackMiddle, hbackFront, hmiddleFront, hmiddle,
            hfront, by simp, hwrote, by simp⟩
      | true =>
          exact ⟨hbackLt, hmiddleLt, hfrontLt, hbackMiddle, hbackFront, hmiddleFront, hmiddle,
            hfront, fun _ => hdirty, hwrote, by simp⟩
  | receiverSwap hpc =>
      -- the empty front buffer goes to the middle, the full middle one comes to the front
      have hfrontIndex : s.frontIndex = s.front := by rw [frontIndex, hpc]
      have hinRecv : s.inRecv = false := by rw [inRecv, hpc]
      have hdirty := hloaded hpc
      rw [hfrontIndex] at hfrontLt hbackFront hmiddleFront hfront
      obtain ⟨hindex, hclean⟩ := pack_clean hfrontLt
      refine ⟨hbackLt, (congrArg (· < 3) hindex).mpr hfrontLt, hmiddleLt,
        hbackFront.trans_eq hindex.symm, hbackMiddle, hindex.trans_ne hmiddleFront.symm, ?_, ?_,
        by simp, hwrote, by simp⟩
      · change (s.buffers ((s.front <<< 1) >>> 1)).isSome = decide ((s.front <<< 1) &&& dirty ≠ 0)
        rw [hindex, hfront, hinRecv, hclean]
        rfl
      · exact hmiddle.trans hdirty
  | @setFront oldState hpc =>
      have hfrontIndex : s.frontIndex = oldState >>> 1 := by rw [frontIndex, hpc]
      have hinRecv : s.inRecv = true := by rw [inRecv, hpc]
      rw [hfrontIndex] at hfrontLt hbackFront hmiddleFront hfront
      rw [hinRecv] at hfront
      refine ⟨hbackLt, hmiddleLt, hfrontLt, hbackMiddle, hbackFront, hmiddleFront, hmiddle, hfront,
        by simp, hwrote, ?_⟩
      intro newFront hnewFront
      cases hnewFront
      rfl
  | @take newFront hpc =>
      -- the receiver empties its own buffer only
      have hfrontIndex : s.frontIndex = newFront := by rw [frontIndex, hpc]
      have hnewFront := hmoved newFront hpc
      subst hnewFront
      rw [hfrontIndex] at hfrontLt hbackFront hmiddleFront
      refine ⟨hbackLt, hmiddleLt, hfrontLt, hbackMiddle, hbackFront, hmiddleFront, ?_, ?_, by simp,
        ?_, by simp⟩
      · exact (congrArg _ (Function.update_of_ne hmiddleFront _ _)).trans hmiddle
      · exact congrArg _ (Function.update_self s.front none s.buffers)
      · intro value hvalue
        exact (Function.update_of_ne hbackFront _ _).trans (hwrote value hvalue)
  | receiverIsAbandoned hpc =>
      exact ⟨hbackLt, hmiddleLt, hfrontLt, hbackMiddle, hbackFront, hmiddleFront, hmiddle, hfront,
        hloaded, hwrote, hmoved⟩
  | receiverDrop hpc =>
      have hfrontIndex : s.frontIndex = s.front := by rw [frontIndex, hpc]
      have hinRecv : s.inRecv = false := by rw [inRecv, hpc]
      rw [hfrontIndex] at hfrontLt hbackFront hmiddleFront hfront
      rw [hinRecv] at hfront
      exact ⟨hbackLt, hmiddleLt, hfrontLt, hbackMiddle, hbackFront, hmiddleFront, hmiddle, hfront,
        by simp, hwrote, by simp⟩
  | receiverEndDrop hpc =>
      have hfrontIndex : s.frontIndex = s.front := by rw [frontIndex, hpc]
      have hinRecv : s.inRecv = false := by rw [inRecv, hpc]
      rw [hfrontIndex] at hfrontLt hbackFront hmiddleFront hfront
      rw [hinRecv] at hfront
      exact ⟨hbackLt, hmiddleLt, hfrontLt, hbackMiddle, hbackFront, hmiddleFront, hmiddle, hfront,
        by simp, hwrote, by simp⟩

theorem inv_of_run {s : Slot T} {labels : List (SlotLabel T)}
    (hrun : run step new labels = some s) : Inv s :=
  invariant_of_run (fun _ _ _ hinv hstep => hinv.step hstep) inv_new hrun

/-! ### The register -/

/-- What a step does to the register. -/
def effect (s : Slot T) : SlotLabel T → List (Register.Op T)
  | .sender .swap =>
    match s.sender with
    | .wrote value => [.put value]
    | _ => []
  | .receiver .load => if s.isDirty then [] else [.get none]
  | .receiver .swap => [.get (s.buffers s.middleIndex)]
  | _ => []

/-- What a step lets `recv` return. -/
def results (s : Slot T) : SlotLabel T → List (Option T)
  | .receiver op => (s.returned op).toList
  | .sender _ => []

/-- What a step is asked to send. -/
def asked : SlotLabel T → List T
  | .sender (.write value) => [value]
  | _ => []

/-- The value of the send under way, until its swap. -/
def pendingSend (s : Slot T) : List T :=
  match s.sender with
  | .wrote value => [value]
  | _ => []

/-- The value of the `recv` under way, from its swap on. -/
def pendingRecv (s : Slot T) : List (Option T) :=
  if s.inRecv then [s.buffers s.frontIndex] else []

/-- The content of the register. -/
def cell (s : Slot T) : Option T := s.buffers s.middleIndex

theorem Inv.cell_isSome {s : Slot T} (hinv : Inv s) : s.cell.isSome = s.isDirty := hinv.middle

theorem Inv.cell_eq_none {s : Slot T} (hinv : Inv s) (h : s.isDirty = false) : s.cell = none := by
  rw [← Option.not_isSome_iff_eq_none, hinv.cell_isSome, h]
  simp

/-- One step of the slot is a legal history of the register, of one operation at most. Values pass
from the send under way into the register and from there to the `recv` under way. -/
structure Simulates (s : Slot T) (label : SlotLabel T) (s' : Slot T) : Prop where
  legal : Register.Legal s.cell (s.effect label)
  cell : s'.cell = Register.cellAfter s.cell (s.effect label)
  sends : s.pendingSend ++ asked label = Register.puts (s.effect label) ++ s'.pendingSend
  recvs : s.pendingRecv ++ Register.gets (s.effect label) = s.results label ++ s'.pendingRecv

theorem simulates_of_quiet {s s' : Slot T} {label : SlotLabel T} (heffect : s.effect label = [])
    (hasked : asked label = []) (hresults : s.results label = []) (hcell : s'.cell = s.cell)
    (hsend : s'.pendingSend = s.pendingSend) (hrecv : s'.pendingRecv = s.pendingRecv) :
    Simulates s label s' := by
  refine ⟨?_, ?_, ?_, ?_⟩
  · rw [heffect]
    trivial
  · rw [heffect, hcell]
    rfl
  · rw [heffect, hasked, hsend, List.append_nil]
    rfl
  · rw [heffect, hresults, hrecv]
    exact List.append_nil _

theorem pendingRecv_of_inRecv_eq_false {s : Slot T} (h : s.inRecv = false) : s.pendingRecv = [] := by
  rw [pendingRecv, h]
  rfl

theorem Inv.simulates {s s' : Slot T} {label : SlotLabel T} (hinv : Inv s)
    (h : s.step label = some s') : Simulates s label s' := by
  cases step_cases h with
  | @write value hpc =>
      have hback : s.backIndex = s.back := by rw [backIndex, hpc]
      have hmiddle := hback ▸ hinv.back_ne_middle
      have hfront := hback ▸ hinv.back_ne_front
      refine ⟨trivial, Function.update_of_ne hmiddle.symm _ _, ?_, ?_⟩
      · rw [pendingSend, hpc]
        rfl
      · change s.pendingRecv ++ []
          = if s.inRecv then [Function.update s.buffers s.back (some value) s.frontIndex] else []
        rw [Function.update_of_ne hfront.symm, List.append_nil]
        rfl
  | @senderSwap value hpc =>
      -- the send takes effect
      have hback : s.backIndex = s.back := by rw [backIndex, hpc]
      have hfull := hback ▸ hinv.wrote value hpc
      have heffect : s.effect (.sender .swap) = [.put value] := by rw [effect, hpc]
      refine ⟨?_, ?_, ?_, ?_⟩
      · rw [heffect]
        trivial
      · rw [heffect]
        change s.buffers (((s.back <<< 1) ||| dirty) >>> 1) = some value
        rw [(pack_dirty (hback ▸ hinv.back_lt)).1, hfull]
      · rw [heffect, pendingSend, hpc]
        rfl
      · rw [heffect]
        exact List.append_nil _
  | @setBack oldState hpc =>
      exact simulates_of_quiet rfl rfl rfl rfl (by rw [pendingSend, pendingSend, hpc]) rfl
  | senderIsAbandoned hpc => exact simulates_of_quiet rfl rfl rfl rfl rfl rfl
  | senderDrop hpc =>
      exact simulates_of_quiet rfl rfl rfl rfl (by rw [pendingSend, pendingSend, hpc]) rfl
  | senderEndDrop hpc =>
      exact simulates_of_quiet rfl rfl rfl rfl (by rw [pendingSend, pendingSend, hpc]) rfl
  | load hpc =>
      have hinRecv : s.inRecv = false := by rw [inRecv, hpc]
      have hnone := pendingRecv_of_inRecv_eq_false hinRecv
      cases hdirty : s.isDirty with
      | false =>
          -- the `recv` returns nothing and takes effect here
          have heffect : s.effect (.receiver .load) = [.get none] := by simp [effect, hdirty]
          have hresults : s.results (.receiver .load) = [none] := by simp [results, returned, hdirty]
          have hcell := hinv.cell_eq_none hdirty
          refine ⟨?_, ?_, ?_, ?_⟩
          · rw [heffect]
            exact ⟨hcell.symm, trivial⟩
          · rw [heffect]
            exact hcell
          · rw [heffect]
            exact List.append_nil _
          · rw [heffect, hresults, hnone]
            rfl
      | true =>
          refine simulates_of_quiet ?_ rfl ?_ rfl rfl hnone.symm
          · simp [effect, hdirty]
          · simp [results, returned, hdirty]
  | receiverSwap hpc =>
      -- the `recv` will return a value and takes effect here
      have hinRecv : s.inRecv = false := by rw [inRecv, hpc]
      have hfrontIndex : s.frontIndex = s.front := by rw [frontIndex, hpc]
      have hempty : s.buffers s.front = none := by
        have hfront := hinv.front
        rw [hinRecv, hfrontIndex] at hfront
        exact Option.not_isSome_iff_eq_none.mp (by simp [hfront])
      refine ⟨⟨rfl, trivial⟩, ?_, List.append_nil _, ?_⟩
      · change s.buffers ((s.front <<< 1) >>> 1) = none
        rw [(pack_clean (hfrontIndex ▸ hinv.front_lt)).1, hempty]
      · rw [pendingRecv_of_inRecv_eq_false hinRecv]
        rfl
  | @setFront oldState hpc =>
      refine simulates_of_quiet rfl rfl rfl rfl rfl ?_
      simp [pendingRecv, inRecv, frontIndex, hpc]
  | @take newFront hpc =>
      have hfrontIndex : s.frontIndex = newFront := by rw [frontIndex, hpc]
      have hfront := hfrontIndex ▸ hinv.middle_ne_front
      refine ⟨trivial, Function.update_of_ne hfront _ _, List.append_nil _, ?_⟩
      simp [pendingRecv, inRecv, frontIndex, results, returned, effect, Register.gets, hpc]
  | receiverIsAbandoned hpc => exact simulates_of_quiet rfl rfl rfl rfl rfl rfl
  | receiverDrop hpc =>
      refine simulates_of_quiet rfl rfl rfl rfl rfl ?_
      rw [pendingRecv_of_inRecv_eq_false rfl, pendingRecv_of_inRecv_eq_false (by rw [inRecv, hpc])]
  | receiverEndDrop hpc =>
      refine simulates_of_quiet rfl rfl rfl rfl rfl ?_
      rw [pendingRecv_of_inRecv_eq_false rfl, pendingRecv_of_inRecv_eq_false (by rw [inRecv, hpc])]

/-! ### Whole runs -/

/-- The history of the register along a run. -/
def history (labels : List (SlotLabel T)) : List (Register.Op T) := observe step effect new labels

/-- What the `recv`s of a run have returned. -/
def received (labels : List (SlotLabel T)) : List (Option T) := observe step results new labels

/-- What the sends of a run were given. -/
def sent (labels : List (SlotLabel T)) : List T := labels.flatMap asked

/-- A run of the slot is a legal history of the register. -/
structure Refines (labels : List (SlotLabel T)) (s : Slot T) : Prop where
  inv : Inv s
  legal : Register.Legal none (history labels)
  cell : s.cell = Register.cellAfter none (history labels)
  /-- The sends put what they were given, in order; the last one may not have swapped yet. -/
  sends : sent labels = Register.puts (history labels) ++ s.pendingSend
  /-- The `recv`s return what they got, in order; the last one may not have returned yet. -/
  recvs : Register.gets (history labels) = received labels ++ s.pendingRecv

theorem refines_of_run {s : Slot T} {labels : List (SlotLabel T)}
    (hrun : run step new labels = some s) : Refines labels s := by
  refine run_induction Refines ?_ ?_ hrun
  · refine ⟨inv_new, trivial, ?_, rfl, rfl⟩
    exact inv_new.cell_eq_none isDirty_new
  intro labels s label s' hrun h hstep
  have hsim := h.inv.simulates hstep
  have hhistory : history (labels ++ [label]) = history labels ++ s.effect label :=
    observe_concat hrun
  have hreceived : received (labels ++ [label]) = received labels ++ s.results label :=
    observe_concat hrun
  refine ⟨h.inv.step hstep, ?_, ?_, ?_, ?_⟩
  · rw [hhistory, Register.legal_append, ← h.cell]
    exact ⟨h.legal, hsim.legal⟩
  · rw [hhistory, Register.cellAfter_append, ← h.cell]
    exact hsim.cell
  · have hsent : sent (labels ++ [label]) = sent labels ++ asked label := by simp [sent]
    rw [hsent, h.sends, hhistory, Register.puts_append, List.append_assoc, hsim.sends,
      List.append_assoc]
  · rw [hhistory, Register.gets_append, h.recvs, hreceived, List.append_assoc, hsim.recvs,
      List.append_assoc]

/-- Every value received was sent, each at most once and in the order of the sends. -/
theorem Refines.received_sublist {s : Slot T} {labels : List (SlotLabel T)}
    (h : Refines labels s) :
    ((received labels).filterMap id).Sublist (Register.puts (history labels)) := by
  have hgets := h.legal.gets_sublist
  rw [h.recvs, List.filterMap_append] at hgets
  exact (List.sublist_append_left _ _).trans hgets

theorem Inv.returned_take {s s' : Slot T} (hinv : Inv s)
    (h : s.step (.receiver .take) = some s') : ∃ value, s.returned .take = some (some value) := by
  cases step_cases h with
  | @take newFront hpc =>
      have hfrontIndex : s.frontIndex = newFront := by rw [frontIndex, hpc]
      have hfront := hinv.front
      rw [hfrontIndex, inRecv, hpc, Option.isSome_iff_exists] at hfront
      obtain ⟨value, hvalue⟩ := hfront
      exact ⟨value, by rw [returned, hpc, ← hvalue]⟩

/-- **The slot refines a one-cell register.** The history of the register is legal; the sends put
what they were given and the `recv`s return what they got. So what a `recv` returns was put by the
operation just before it in the history, nothing was put since the last value got when a `recv`
returns nothing, values are received at most once and in order, and a `recv` that has seen the dirty
flag returns a value. -/
theorem run_refines_register {s : Slot T} {labels : List (SlotLabel T)}
    (hrun : run step new labels = some s) :
    Register.Legal none (history labels)
    ∧ sent labels = Register.puts (history labels) ++ s.pendingSend
    ∧ Register.gets (history labels) = received labels ++ s.pendingRecv
    ∧ (∀ before value after, history labels = before ++ .get (some value) :: after →
      ∃ earlier, before = earlier ++ [.put value])
    ∧ (∀ before between after, history labels = before ++ between ++ .get none :: after →
      (∀ value, .get (some value) ∉ between) → Register.puts between = [])
    ∧ ((received labels).filterMap id).Sublist (Register.puts (history labels))
    ∧ ∀ before after, labels = before ++ .receiver .take :: after →
      ∃ s' value, run step new before = some s' ∧ s'.returned .take = some (some value) := by
  have h := refines_of_run hrun
  refine ⟨h.legal, h.sends, h.recvs, ?_, ?_, h.received_sublist, ?_⟩
  · intro before value after heq
    exact (heq ▸ h.legal).eq_concat_put
  · intro before between after heq
    exact (heq ▸ h.legal).puts_eq_nil
  · rintro before after rfl
    obtain ⟨s₁, hbefore, hrun⟩ := run_append_eq_some.mp hrun
    obtain ⟨s₂, htake, -⟩ := run_cons_eq_some.mp hrun
    obtain ⟨value, hvalue⟩ := (inv_of_run hbefore).returned_take htake
    exact ⟨s₁, value, hbefore, hvalue⟩

/-- The second send lands between the load and the swap of a `recv`. -/
def overtakenRun : List (SlotLabel Nat) :=
  [.sender (.write 1), .sender .swap, .sender .setBack, .receiver .load, .sender (.write 2),
    .sender .swap, .receiver .swap, .sender .setBack, .receiver .setFront, .receiver .take,
    .receiver .load]

theorem isSome_overtakenRun : (run step new overtakenRun).isSome := by decide +kernel

theorem overtakenRun_refines_register :
    history overtakenRun = [.put 1, .put 2, .get (some 2), .get none]
    ∧ Register.Legal none (history overtakenRun)
    ∧ ((received overtakenRun).filterMap id).Sublist (Register.puts (history overtakenRun)) := by
  have h := run_refines_register (Option.some_get isSome_overtakenRun).symm
  exact ⟨by decide +kernel, h.1, h.2.2.2.2.2.1⟩

end OrderbookAggregator.Slot
