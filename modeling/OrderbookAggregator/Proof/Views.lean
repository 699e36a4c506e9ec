import OrderbookAggregator.Proof.Ownership
import OrderbookAggregator.SlotViews

/-!
# What the halves of a slot know of each other

The swap of a send releases and the swap of a `recv` acquires. So the receiver knows all that the
sender has written. Nothing is released by the receiver: the sender never learns of a take, and
writes a buffer that the receiver has emptied as soon as one comes back to it.
-/

namespace OrderbookAggregator

open LabelledRun MemoryViews

variable {T : Type}

/-! ### Steps that move nothing -/

/-- What no step changes but a write, a take and the swaps of the state byte. -/
structure Slot.Still (s s' : Slot T) : Prop where
  back : s'.backIndex = s.backIndex
  middle : s'.middleIndex = s.middleIndex
  front : s'.frontIndex = s.frontIndex
  dirty : s'.isDirty = s.isDirty
  pendingSend : s'.pendingSend = s.pendingSend
  inRecv : s'.inRecv = s.inRecv

/-- Whether a step writes, takes or swaps the state byte. -/
def SlotLabel.moves : SlotLabel T → Bool
  | .sender (.write _) | .sender .swap | .receiver .swap | .receiver .take => true
  | _ => false

theorem Slot.still_of_step {s s' : Slot T} {label : SlotLabel T} (h : s.step label = some s')
    (hmoves : label.moves = false) : Still s s' := by
  cases step_cases h with
  | write | senderSwap | receiverSwap | take => cases hmoves
  | senderIsAbandoned | receiverIsAbandoned => exact ⟨rfl, rfl, rfl, rfl, rfl, rfl⟩
  | setBack hpc | senderDrop hpc | senderEndDrop hpc =>
      refine ⟨?_, rfl, rfl, rfl, ?_, rfl⟩
      · rw [backIndex.eq_def s, hpc]
        rfl
      · rw [pendingSend.eq_def s, hpc]
        rfl
  | load hpc =>
      refine ⟨rfl, rfl, ?_, rfl, rfl, ?_⟩
      · rw [frontIndex.eq_def s, hpc]
        change frontIndex { s with receiver := if s.isDirty then .loaded else .idle } = s.front
        cases s.isDirty <;> rfl
      · rw [inRecv.eq_def s, hpc]
        change inRecv { s with receiver := if s.isDirty then .loaded else .idle } = false
        cases s.isDirty <;> rfl
  | setFront hpc | receiverDrop hpc | receiverEndDrop hpc =>
      refine ⟨rfl, rfl, ?_, rfl, rfl, ?_⟩
      · rw [frontIndex.eq_def s, hpc]
        rfl
      · rw [inRecv.eq_def s, hpc]
        rfl

namespace ViewedSlot

/-! ### Steps -/

theorem step_eq_some {v v' : ViewedSlot T} {label : SlotLabel T} (h : v.step label = some v') :
    ∃ slot, v.slot.step label = some slot ∧ v' =
      { slot
        accesses := v.accesses ++ (v.access label).toList
        views := ((v.action label).map v.views.act).getD v.views } := by
  obtain ⟨slot, hslot, rfl⟩ := Option.map_eq_some_iff.mp h
  exact ⟨slot, hslot, rfl⟩

theorem run_slot {v : ViewedSlot T} {labels : List (SlotLabel T)}
    (hrun : run step new labels = some v) : run Slot.step Slot.new labels = some v.slot := by
  refine run_induction (fun labels v => run Slot.step Slot.new labels = some v.slot) rfl ?_ hrun
  intro labels v label v' _ hslot hstep
  obtain ⟨slot, hlabel, rfl⟩ := step_eq_some hstep
  exact run_concat_eq_some.mpr ⟨v.slot, hslot, hlabel⟩

theorem exists_run {s : Slot T} {labels : List (SlotLabel T)}
    (hrun : run Slot.step Slot.new labels = some s) :
    ∃ v, run step new labels = some v ∧ v.slot = s := by
  refine run_induction (fun labels s => ∃ v, run step new labels = some v ∧ v.slot = s)
    ⟨new, rfl, rfl⟩ ?_ hrun
  rintro labels _ label s' _ ⟨v, hv, rfl⟩ hstep
  exact ⟨_, run_concat_eq_some.mpr ⟨v, hv, congrArg (Option.map _) hstep⟩, rfl⟩

theorem thread_subset_of_step {v v' : ViewedSlot T} {label : SlotLabel T}
    (h : v.step label = some v') (half : Half) : v.views.thread half ⊆ v'.views.thread half := by
  obtain ⟨slot, -, rfl⟩ := step_eq_some h
  cases haction : v.action label with
  | none => exact Finset.Subset.refl _
  | some action => exact Views.thread_subset_act action half

theorem location_subset_of_step {v v' : ViewedSlot T} {label : SlotLabel T}
    (h : v.step label = some v') (atomic : Atomic) :
    v.views.location atomic ⊆ v'.views.location atomic := by
  obtain ⟨slot, -, rfl⟩ := step_eq_some h
  cases haction : v.action label with
  | none => exact Finset.Subset.refl _
  | some action => exact Views.location_subset_act action atomic

/-! ### From the sender to the receiver -/

/-- The sender knows what it has written. All of it is released but the value of the send under way;
while a `recv` is about to take, the receiver knows all that was written to its buffer. -/
structure Released (v : ViewedSlot T) : Prop where
  own : ∀ access ∈ v.accesses, access.half = .sender → access ∈ v.views.thread .sender
  state : ∀ access ∈ v.accesses, access.half = .sender → access ∉ v.views.location .state →
    v.slot.pendingSend ≠ [] ∧ access.buffer = v.slot.backIndex
  front : v.slot.inRecv = true → ∀ access ∈ v.accesses, access.half = .sender →
    access.buffer = v.slot.frontIndex → access ∈ v.views.thread .receiver

section Step

variable {v v' : ViewedSlot T} {label : SlotLabel T}

theorem mem_of_sender (hstep : v.step label = some v')
    (hlabel : ∀ access ∈ v.access label, access.half ≠ .sender) :
    ∀ access ∈ v'.accesses, access.half = .sender → access ∈ v.accesses := by
  obtain ⟨slot, -, rfl⟩ := step_eq_some hstep
  intro access hmem hhalf
  rcases List.mem_append.mp hmem with hmem | hnew
  · exact hmem
  · exact absurd hhalf (hlabel access (Option.mem_toList.mp hnew))

theorem Released.own_of_step (h : Released v) (hstep : v.step label = some v')
    (hlabel : ∀ access ∈ v.access label, access.half ≠ .sender) :
    ∀ access ∈ v'.accesses, access.half = .sender → access ∈ v'.views.thread .sender := by
  intro access hmem hhalf
  have hold := mem_of_sender hstep hlabel access hmem hhalf
  exact thread_subset_of_step hstep .sender (h.own access hold hhalf)

theorem Released.state_of_step (h : Released v) (hstep : v.step label = some v')
    (hlabel : ∀ access ∈ v.access label, access.half ≠ .sender)
    (hpending : v'.slot.pendingSend = v.slot.pendingSend)
    (hback : v'.slot.backIndex = v.slot.backIndex) :
    ∀ access ∈ v'.accesses, access.half = .sender → access ∉ v'.views.location .state →
      v'.slot.pendingSend ≠ [] ∧ access.buffer = v'.slot.backIndex := by
  intro access hmem hhalf hstate
  have hold := mem_of_sender hstep hlabel access hmem hhalf
  rw [hpending, hback]
  exact h.state access hold hhalf
    fun hreleased => hstate (location_subset_of_step hstep .state hreleased)

theorem Released.front_of_step (h : Released v) (hstep : v.step label = some v')
    (hlabel : ∀ access ∈ v.access label, access.half ≠ .sender)
    (hinRecv : v'.slot.inRecv = v.slot.inRecv) (hfront : v'.slot.frontIndex = v.slot.frontIndex) :
    v'.slot.inRecv = true → ∀ access ∈ v'.accesses, access.half = .sender →
      access.buffer = v'.slot.frontIndex → access ∈ v'.views.thread .receiver := by
  rw [hinRecv, hfront]
  intro hinRecv access hmem hhalf hbuffer
  have hold := mem_of_sender hstep hlabel access hmem hhalf
  exact thread_subset_of_step hstep .receiver (h.front hinRecv access hold hhalf hbuffer)

end Step

theorem Released.step {v v' : ViewedSlot T} {label : SlotLabel T} (h : Released v)
    (hinv : v.slot.Inv) (hstep : v.step label = some v') : Released v' := by
  obtain ⟨slot, hslot, rfl⟩ := step_eq_some hstep
  have hstill (hmoves : label.moves = false) := Slot.still_of_step hslot hmoves
  cases Slot.step_cases hslot with
  | @write value hpc =>
      -- the new access is to the back buffer
      have hback : v.slot.backIndex = v.slot.back := by rw [Slot.backIndex, hpc]
      have hpending : v.slot.pendingSend = [] := by rw [Slot.pendingSend, hpc]
      refine ⟨?_, ?_, ?_⟩
      · intro access hmem hhalf
        rcases List.mem_append.mp hmem with hmem | hnew
        · exact thread_subset_of_step hstep .sender (h.own access hmem hhalf)
        · rw [List.mem_singleton.mp hnew]
          exact Views.mem_thread_access _ _
      · intro access hmem hhalf hstate
        refine ⟨List.cons_ne_nil _ _, ?_⟩
        rcases List.mem_append.mp hmem with hmem | hnew
        · exact absurd hpending (h.state access hmem hhalf hstate).1
        · rw [List.mem_singleton.mp hnew]
          rfl
      · intro hinRecv access hmem hhalf hbuffer
        rcases List.mem_append.mp hmem with hmem | hnew
        · exact thread_subset_of_step hstep .receiver (h.front hinRecv access hmem hhalf hbuffer)
        · rw [List.mem_singleton.mp hnew] at hbuffer
          exact absurd (hback.trans hbuffer) hinv.back_ne_front
  | @senderSwap value hpc =>
      -- all that the sender knows is released
      refine ⟨h.own_of_step hstep (by rintro _ ⟨⟩), ?_, h.front_of_step hstep (by rintro _ ⟨⟩) rfl rfl⟩
      intro access hmem hhalf hstate
      have hold := mem_of_sender hstep (by rintro _ ⟨⟩) access hmem hhalf
      refine absurd ?_ hstate
      exact Views.thread_subset_location_of_releases rfl Half.sender Atomic.state
        (h.own access hold hhalf)
  | receiverSwap hpc =>
      -- what is written to the buffer in the middle has been released
      refine ⟨h.own_of_step hstep (by rintro _ ⟨⟩), h.state_of_step hstep (by rintro _ ⟨⟩) rfl rfl, ?_⟩
      intro _ access hmem hhalf hbuffer
      have hold := mem_of_sender hstep (by rintro _ ⟨⟩) access hmem hhalf
      have hreleased : access ∈ v.views.location .state := by
        by_contra hstate
        have hback := (h.state access hold hhalf hstate).2
        exact hinv.back_ne_middle (hback.symm.trans hbuffer)
      exact Views.location_subset_thread_of_acquires rfl Half.receiver Atomic.state hreleased
  | take hpc =>
      have hreceiver : ∀ access ∈ v.access (.receiver .take), access.half ≠ .sender := by
        intro access haccess
        obtain ⟨buffer, -, rfl⟩ := Option.map_eq_some_iff.mp haccess
        rintro ⟨⟩
      refine ⟨h.own_of_step hstep hreceiver, h.state_of_step hstep hreceiver rfl rfl, ?_⟩
      intro hinRecv
      cases hinRecv
  | setBack | senderIsAbandoned | senderDrop | senderEndDrop | load | setFront
  | receiverIsAbandoned | receiverDrop | receiverEndDrop =>
      obtain ⟨hback, -, hfront, -, hpending, hinRecv⟩ := hstill rfl
      exact ⟨h.own_of_step hstep (by rintro _ ⟨⟩), h.state_of_step hstep (by rintro _ ⟨⟩) hpending hback,
        h.front_of_step hstep (by rintro _ ⟨⟩) hinRecv hfront⟩

theorem released_of_run {v : ViewedSlot T} {labels : List (SlotLabel T)}
    (hrun : run step new labels = some v) : Released v := by
  refine run_induction (fun _ v => Released v) ⟨?_, ?_, ?_⟩ ?_ hrun
  · exact fun _ hmem => absurd hmem List.not_mem_nil
  · exact fun _ hmem => absurd hmem List.not_mem_nil
  · exact fun _ _ hmem => absurd hmem List.not_mem_nil
  intro labels v label v' hrun h hstep
  exact h.step (Slot.inv_of_run (run_slot hrun)) hstep

/-- The receiver knows of every write to the buffer that it takes from. -/
theorem Released.informed {v v' : ViewedSlot T} (h : Released v)
    (hstep : v.step (.receiver .take) = some v') : v.Informed (.receiver .take) := by
  obtain ⟨slot, hslot, -⟩ := step_eq_some hstep
  intro made hmade earlier hmem hbuffer hhalf
  have hfront : made.buffer = v.slot.frontIndex := by
    obtain ⟨buffer, haccessed, rfl⟩ := Option.map_eq_some_iff.mp hmade
    rw [Slot.accessed_take hslot, Option.some_inj] at haccessed
    exact haccessed.symm
  have hsender : earlier.half = .sender := by
    cases hearlier : earlier.half with
    | sender => rfl
    | receiver => exact absurd hearlier hhalf
  have hinRecv : v.slot.inRecv = true := by
    cases Slot.step_cases hslot with
    | take hpc => rw [Slot.inRecv, hpc]
  exact h.front hinRecv earlier hmem hsender (hbuffer.trans hfront)

/-! ### From the receiver to the sender -/

/-- The sender knows of its own accesses only, and so does the state byte. -/
structure Alone (v : ViewedSlot T) : Prop where
  sender : v.slot.senderDropped = false → ∀ access ∈ v.views.thread .sender, access.half = .sender
  state : ∀ access ∈ v.views.location .state, access.half = .sender

/-- A step that neither teaches the sender nor releases anything. -/
theorem Alone.same {v v' : ViewedSlot T} (h : Alone v)
    (hdropped : v'.slot.senderDropped = false → v.slot.senderDropped = false)
    (hthread : v'.views.thread .sender = v.views.thread .sender)
    (hlocation : v'.views.location .state = v.views.location .state) : Alone v' := by
  refine ⟨fun hleft access hmem => ?_, fun access hmem => ?_⟩
  · exact h.sender (hdropped hleft) access (hthread ▸ hmem)
  · exact h.state access (hlocation ▸ hmem)

theorem Alone.step {v v' : ViewedSlot T} {label : SlotLabel T} (h : Alone v)
    (hstep : v.step label = some v') : Alone v' := by
  obtain ⟨slot, hslot, rfl⟩ := step_eq_some hstep
  cases Slot.step_cases hslot with
  | @write value hpc =>
      refine ⟨fun _ access hmem => ?_, h.state⟩
      have hleft : v.slot.senderDropped = false := by rw [Slot.senderDropped, hpc]
      change access ∈ Function.update v.views.thread Half.sender (insert _ _) Half.sender at hmem
      rw [Function.update_self, Finset.mem_insert] at hmem
      rcases hmem with rfl | hmem
      · rfl
      · exact h.sender hleft access hmem
  | @senderSwap value hpc =>
      have hleft : v.slot.senderDropped = false := by rw [Slot.senderDropped, hpc]
      have hthread := v.views.thread_act_readModifyWrite Half.sender Atomic.state .release
        (Or.inr rfl : Half.sender ≠ Half.sender ∨ _)
      refine ⟨fun _ access hmem => h.sender hleft access (hthread.subset hmem),
        fun access hmem => ?_⟩
      change access ∈ Function.update v.views.location Atomic.state
        (v.views.location .state ∪ v.views.thread .sender) Atomic.state at hmem
      rw [Function.update_self, Finset.mem_union] at hmem
      exact hmem.elim (h.state access) (h.sender hleft access)
  | receiverSwap hpc =>
      refine h.same id ?_ ?_
      · exact v.views.thread_act_readModifyWrite .receiver .state .acquire (Or.inl (by decide))
      · exact v.views.location_act_readModifyWrite .receiver .state .acquire (Or.inr rfl)
  | @take newFront hpc =>
      have haction : v.action (.receiver .take)
          = some (.access .receiver ⟨.receiver, newFront, v.accesses.length⟩) := by
        rw [action, access, Slot.accessed, hpc]
        rfl
      refine h.same id ?_ ?_ <;> rw [haction]
      · exact v.views.thread_act_access _ (by decide)
      · rfl
  | senderDrop hpc =>
      have hlocation := v.views.location_act_readModifyWrite Half.sender Atomic.refcount .acqRel
        (Or.inl (by decide) : Atomic.state ≠ Atomic.refcount ∨ _)
      exact ⟨by rintro ⟨⟩, fun access hmem => h.state access (hlocation.subset hmem)⟩
  | receiverDrop hpc =>
      refine h.same id ?_ ?_
      · exact v.views.thread_act_readModifyWrite .receiver .refcount .acqRel (Or.inl (by decide))
      · exact v.views.location_act_readModifyWrite .receiver .refcount .acqRel (Or.inl (by decide))
  | setBack hpc =>
      exact h.same (fun _ => by rw [Slot.senderDropped, hpc]) rfl rfl
  | senderEndDrop => exact h.same (by rintro ⟨⟩) rfl rfl
  | senderIsAbandoned | load | setFront | receiverIsAbandoned | receiverEndDrop =>
      exact h.same id rfl rfl

theorem alone_of_run {v : ViewedSlot T} {labels : List (SlotLabel T)}
    (hrun : run step new labels = some v) : Alone v :=
  invariant_of_run (fun _ _ _ h hstep => h.step hstep)
    ⟨fun _ _ hmem => absurd hmem (Finset.notMem_empty _),
      fun _ hmem => absurd hmem (Finset.notMem_empty _)⟩ hrun

/-- A buffer that the receiver has taken from. -/
def Taken (v : ViewedSlot T) (buffer : UInt8) : Prop :=
  ∃ access ∈ v.accesses, access.half = .receiver ∧ access.buffer = buffer

/-- The sender is informed exactly if nothing was taken from the buffer that it writes. -/
theorem Alone.informed_iff {v v' : ViewedSlot T} {value : T} (h : Alone v)
    (hstep : v.step (.sender (.write value)) = some v') :
    v.Informed (.sender (.write value)) ↔ ¬ v.Taken v.slot.backIndex := by
  obtain ⟨slot, hslot, -⟩ := step_eq_some hstep
  have hback := Slot.accessed_write hslot
  have hleft : v.slot.senderDropped = false := by
    cases Slot.step_cases hslot with
    | write hpc => rw [Slot.senderDropped, hpc]
  have hmade : v.access (.sender (.write value))
      = some ⟨.sender, v.slot.backIndex, v.accesses.length⟩ := by
    rw [access, hback]
    rfl
  constructor
  · rintro hinformed ⟨earlier, hmem, hhalf, hbuffer⟩
    have hknown := hinformed _ hmade earlier hmem hbuffer (by rw [hhalf]; rintro ⟨⟩)
    rw [h.sender hleft earlier hknown] at hhalf
    cases hhalf
  · intro htaken made hmem earlier hearlier hbuffer hhalf
    rw [hmade, Option.mem_some_iff] at hmem
    subst hmem
    cases hsender : earlier.half with
    | sender => exact absurd hsender hhalf
    | receiver => exact absurd ⟨earlier, hearlier, hsender, hbuffer⟩ htaken

/-! ### The way of a taken buffer -/

/-- The way by which a buffer that was taken from comes back to the sender. -/
def wayBack : List (SlotLabel T) := [.receiver .take, .receiver .swap, .sender .swap]

def Underway (n : Nat) (labels : List (SlotLabel T)) : Prop := (wayBack.take n).Sublist labels

/-- A send writes behind the way back. -/
def Reused (labels : List (SlotLabel T)) : Prop :=
  ∃ value, (wayBack ++ [SlotLabel.sender (.write value)]).Sublist labels

theorem underway_one_concat {labels : List (SlotLabel T)} {label : SlotLabel T} :
    Underway 1 (labels ++ [label]) ↔ Underway 1 labels ∨ label = .receiver .take := by
  refine (@concat_sublist_concat_iff _ [] labels (.receiver .take) label).trans ?_
  simp [Underway, wayBack, eq_comm]

theorem underway_two_concat {labels : List (SlotLabel T)} {label : SlotLabel T} :
    Underway 2 (labels ++ [label])
      ↔ Underway 2 labels ∨ Underway 1 labels ∧ label = .receiver .swap := by
  refine (@concat_sublist_concat_iff _ (wayBack.take 1) labels (.receiver .swap) label).trans ?_
  simp [Underway, wayBack, eq_comm]

theorem underway_three_concat {labels : List (SlotLabel T)} {label : SlotLabel T} :
    Underway 3 (labels ++ [label])
      ↔ Underway 3 labels ∨ Underway 2 labels ∧ label = .sender .swap := by
  refine (@concat_sublist_concat_iff _ (wayBack.take 2) labels (.sender .swap) label).trans ?_
  simp [Underway, wayBack, eq_comm]

theorem reused_concat {labels : List (SlotLabel T)} {label : SlotLabel T} :
    Reused (labels ++ [label])
      ↔ Reused labels ∨ Underway 3 labels ∧ ∃ value, label = .sender (.write value) := by
  simp only [Reused, concat_sublist_concat_iff, exists_or, exists_and_left, Underway, wayBack]
  simp [eq_comm]

/-- Where the buffers are that the receiver has taken from, by how much of the way back is in the
run. -/
structure OnTheWay (labels : List (SlotLabel T)) (v : ViewedSlot T) : Prop where
  taken : ∀ buffer, v.Taken buffer → Underway 1 labels
  front : Underway 1 labels → ¬ Underway 2 labels →
    ∀ buffer, v.Taken buffer ↔ buffer = v.slot.frontIndex
  middle : Underway 2 labels → ¬ Underway 3 labels →
    v.Taken v.slot.middleIndex ∧ v.slot.isDirty = false ∧ ¬ v.Taken v.slot.backIndex
  back : Underway 3 labels → ¬ Reused labels →
    v.Taken v.slot.backIndex ∧ v.slot.pendingSend = []

theorem taken_of_step {v v' : ViewedSlot T} {label : SlotLabel T} (hstep : v.step label = some v')
    (hlabel : ∀ access ∈ v.access label, access.half ≠ .receiver) (buffer : UInt8) :
    v'.Taken buffer ↔ v.Taken buffer := by
  obtain ⟨slot, -, rfl⟩ := step_eq_some hstep
  constructor
  · rintro ⟨access, hmem, hhalf, hbuffer⟩
    rcases List.mem_append.mp hmem with hmem | hnew
    · exact ⟨access, hmem, hhalf, hbuffer⟩
    · exact absurd hhalf (hlabel access (Option.mem_toList.mp hnew))
  · rintro ⟨access, hmem, hhalf, hbuffer⟩
    exact ⟨access, List.mem_append_left _ hmem, hhalf, hbuffer⟩

theorem taken_of_take {v v' : ViewedSlot T} (hstep : v.step (.receiver .take) = some v')
    (buffer : UInt8) : v'.Taken buffer ↔ v.Taken buffer ∨ buffer = v.slot.frontIndex := by
  obtain ⟨slot, hslot, rfl⟩ := step_eq_some hstep
  have hmade : v.access (.receiver .take)
      = some ⟨.receiver, v.slot.frontIndex, v.accesses.length⟩ := by
    rw [access, Slot.accessed_take hslot]
    rfl
  simp only [Taken, hmade, Option.toList_some, List.mem_append, List.mem_singleton, or_and_right,
    exists_or, exists_eq_left, true_and, eq_comm]

theorem OnTheWay.step {v v' : ViewedSlot T} {labels : List (SlotLabel T)} {label : SlotLabel T}
    (h : OnTheWay labels v) (hinv : v.slot.Inv) (hstep : v.step label = some v') :
    OnTheWay (labels ++ [label]) v' := by
  obtain ⟨htaken, hfront, hmiddle, hback⟩ := h
  have hsame := taken_of_step hstep
  have htake (hlabel : label = .receiver .take) (buffer : UInt8) :=
    taken_of_take (hlabel ▸ hstep) buffer
  obtain ⟨slot, hslot, rfl⟩ := step_eq_some hstep
  have hstill (hmoves : label.moves = false) := Slot.still_of_step hslot hmoves
  cases Slot.step_cases hslot with
  | @write value hpc =>
      have hbackIndex : v.slot.backIndex = v.slot.back := by rw [Slot.backIndex, hpc]
      replace hsame := hsame (by rintro _ ⟨⟩ ⟨⟩)
      have hone : Underway 1 (labels ++ [.sender (.write value)]) ↔ Underway 1 labels := by
        simp [underway_one_concat]
      have htwo : Underway 2 (labels ++ [.sender (.write value)]) ↔ Underway 2 labels := by
        simp [underway_two_concat]
      have hthree : Underway 3 (labels ++ [.sender (.write value)]) ↔ Underway 3 labels := by
        simp [underway_three_concat]
      refine ⟨?_, ?_, ?_, ?_⟩
      · simpa only [hsame, hone] using htaken
      · simp only [hsame, hone, htwo]
        exact hfront
      · simp only [hsame, htwo, hthree]
        rw [hbackIndex] at hmiddle
        exact hmiddle
      · intro hway hreused
        exact absurd (reused_concat.mpr (Or.inr ⟨hthree.mp hway, value, rfl⟩)) hreused
  | @senderSwap value hpc =>
      -- the buffer in the middle comes back to the sender
      have hbackIndex : v.slot.backIndex = v.slot.back := by rw [Slot.backIndex, hpc]
      replace hsame := hsame (by rintro _ ⟨⟩)
      have hone : Underway 1 (labels ++ [.sender .swap]) ↔ Underway 1 labels := by
        simp [underway_one_concat]
      have htwo : Underway 2 (labels ++ [.sender .swap]) ↔ Underway 2 labels := by
        simp [underway_two_concat]
      have hreused : Reused (labels ++ [.sender .swap]) ↔ Reused labels := by
        simp [reused_concat]
      refine ⟨?_, ?_, ?_, ?_⟩
      · simpa only [hsame, hone] using htaken
      · simp only [hsame, hone, htwo]
        exact hfront
      · intro hway hnot
        rw [underway_three_concat, not_or] at hnot
        exact absurd ⟨htwo.mp hway, rfl⟩ hnot.2
      · intro hway hnot
        refine ⟨(hsame _).mpr ?_, rfl⟩
        rw [hreused] at hnot
        rw [underway_three_concat] at hway
        by_cases hthree : Underway 3 labels
        · have hpending := (hback hthree hnot).2
          rw [Slot.pendingSend, hpc] at hpending
          cases hpending
        · exact (hmiddle (hway.resolve_left hthree).1 hthree).1
  | receiverSwap hpc =>
      -- the buffer of the receiver, from which it has taken, goes to the middle
      have hfrontIndex : v.slot.frontIndex = v.slot.front := by rw [Slot.frontIndex, hpc]
      have hpack := Slot.pack_clean (hfrontIndex ▸ hinv.front_lt)
      have hdirty := hinv.loaded hpc
      replace hsame := hsame (by rintro _ ⟨⟩)
      have hone : Underway 1 (labels ++ [.receiver .swap]) ↔ Underway 1 labels := by
        simp [underway_one_concat]
      have hthree : Underway 3 (labels ++ [.receiver .swap]) ↔ Underway 3 labels := by
        simp [underway_three_concat]
      have hreused : Reused (labels ++ [.receiver .swap]) ↔ Reused labels := by
        simp [reused_concat]
      refine ⟨?_, ?_, ?_, ?_⟩
      · simpa only [hsame, hone] using htaken
      · intro hway hnot
        rw [underway_two_concat, not_or] at hnot
        exact absurd ⟨hone.mp hway, rfl⟩ hnot.2
      · intro hway hnot
        rw [hthree] at hnot
        rw [underway_two_concat] at hway
        have htwo : ¬ Underway 2 labels := by
          intro htwo
          rw [(hmiddle htwo hnot).2.1] at hdirty
          cases hdirty
        have hfront := hfront (hway.resolve_left htwo).1 htwo
        refine ⟨(hsame _).mpr ((hfront _).mpr ?_), ?_, ?_⟩
        · exact hpack.1.trans hfrontIndex.symm
        · exact decide_eq_false (not_not_intro hpack.2)
        · rw [hsame, hfront]
          exact hinv.back_ne_front
      · simp only [hsame, hthree, hreused]
        exact hback
  | @take newFront hpc =>
      have hfrontIndex : v.slot.frontIndex = newFront := by rw [Slot.frontIndex, hpc]
      have hmoved := hinv.moved newFront hpc
      replace htake := htake rfl
      have htwo : Underway 2 (labels ++ [.receiver .take]) ↔ Underway 2 labels := by
        simp [underway_two_concat]
      have hthree : Underway 3 (labels ++ [.receiver .take]) ↔ Underway 3 labels := by
        simp [underway_three_concat]
      have hreused : Reused (labels ++ [.receiver .take]) ↔ Reused labels := by
        simp [reused_concat]
      refine ⟨?_, ?_, ?_, ?_⟩
      · intro _ _
        exact underway_one_concat.mpr (Or.inr rfl)
      · intro _ hnot buffer
        rw [htwo] at hnot
        rw [htake]
        change _ ↔ buffer = v.slot.front
        rw [hmoved, ← hfrontIndex]
        refine or_iff_right_of_imp fun hbuffer => ?_
        exact (hfront (htaken buffer hbuffer) hnot buffer).mp hbuffer
      · rw [htwo, hthree, htake, htake]
        intro hway hnot
        obtain ⟨hmiddle, hclean, hnotBack⟩ := hmiddle hway hnot
        refine ⟨Or.inl hmiddle, hclean, not_or.mpr ⟨hnotBack, hinv.back_ne_front⟩⟩
      · rw [hthree, hreused, htake]
        intro hway hnot
        exact ⟨Or.inl (hback hway hnot).1, (hback hway hnot).2⟩
  | setBack | senderIsAbandoned | senderDrop | senderEndDrop | load | setFront
  | receiverIsAbandoned | receiverDrop | receiverEndDrop =>
      obtain ⟨hbackIndex, hmiddleIndex, hfrontIndex, hdirty, hpending, -⟩ := hstill rfl
      replace hsame := hsame (by rintro _ ⟨⟩)
      refine ⟨?_, ?_, ?_, ?_⟩ <;>
        simp only [underway_one_concat, underway_two_concat, underway_three_concat, reused_concat,
          reduceCtorEq, SlotLabel.sender.injEq, SlotLabel.receiver.injEq, and_false, or_false,
          exists_false, hsame, hbackIndex, hmiddleIndex, hfrontIndex, hdirty, hpending] <;>
        assumption

theorem onTheWay_of_run {v : ViewedSlot T} {labels : List (SlotLabel T)}
    (hrun : run step new labels = some v) : OnTheWay labels v := by
  have hnone (buffer : UInt8) : ¬ (new : ViewedSlot T).Taken buffer := by
    rintro ⟨access, hmem, -⟩
    exact absurd hmem List.not_mem_nil
  refine run_induction OnTheWay ⟨?_, ?_, ?_, ?_⟩ ?_ hrun
  · exact fun buffer h => absurd h (hnone buffer)
  · exact fun h => absurd (List.sublist_nil.mp h) (List.cons_ne_nil _ _)
  · exact fun h => absurd (List.sublist_nil.mp h) (List.cons_ne_nil _ _)
  · exact fun h => absurd (List.sublist_nil.mp h) (List.cons_ne_nil _ _)
  intro labels v label v' hrun h hstep
  exact h.step (Slot.inv_of_run (run_slot hrun)) hstep

/-- Nothing was taken from the buffer of the sender before the way back is in the run. -/
theorem OnTheWay.taken_back_iff {v : ViewedSlot T} {labels : List (SlotLabel T)}
    (h : OnTheWay labels v) (hinv : v.slot.Inv) (hreused : ¬ Reused labels) :
    v.Taken v.slot.backIndex ↔ Underway 3 labels := by
  constructor
  · intro htaken
    by_contra hthree
    by_cases htwo : Underway 2 labels
    · exact (h.middle htwo hthree).2.2 htaken
    · have hback := (h.front (h.taken _ htaken) htwo _).mp htaken
      exact hinv.back_ne_front hback
  · intro hthree
    exact (h.back hthree hreused).1

theorem informed_of_access_eq_none {v : ViewedSlot T} {label : SlotLabel T}
    (h : v.access label = none) : v.Informed label := by
  intro made hmade
  rw [h] at hmade
  cases hmade

/-- **What the swaps hand over.** At every access of a run the half that makes it knows of every
earlier access of the other half to the same buffer, if and only if no send writes behind a take, a
later swap of a `recv` and a still later swap of a send. -/
theorem swaps_hand_over_iff {s : Slot T} {labels : List (SlotLabel T)}
    (hrun : run Slot.step Slot.new labels = some s) :
    Throughout step Informed new labels
      ↔ ∀ value, ¬ [SlotLabel.receiver .take, .receiver .swap, .sender .swap,
        .sender (.write value)].Sublist labels := by
  obtain ⟨v, hrun, -⟩ := exists_run hrun
  rw [← not_exists]
  change _ ↔ ¬ Reused labels
  refine run_induction (fun labels _ => Throughout step Informed new labels ↔ ¬ Reused labels)
    ?_ ?_ hrun
  · refine iff_of_true throughout_nil ?_
    rintro ⟨value, h⟩
    exact absurd (List.sublist_nil.mp h) (List.cons_ne_nil _ _)
  intro labels v label v' hrun ih hstep
  rw [throughout_concat hrun, ih, reused_concat, not_or]
  refine and_congr_right fun hreused => ?_
  have hinv := Slot.inv_of_run (run_slot hrun)
  obtain ⟨slot, hslot, -⟩ := step_eq_some hstep
  cases Slot.step_cases hslot with
  | @write value hpc =>
      rw [(alone_of_run hrun).informed_iff hstep, (onTheWay_of_run hrun).taken_back_iff hinv hreused]
      simp
  | take =>
      refine iff_of_true ((released_of_run hrun).informed hstep) ?_
      simp
  | setBack | senderIsAbandoned | senderDrop | senderEndDrop | load | setFront | senderSwap
  | receiverSwap | receiverIsAbandoned | receiverDrop | receiverEndDrop =>
      refine iff_of_true (informed_of_access_eq_none rfl) ?_
      simp

/-- A send and a `recv`, one after the other. -/
def exchange (value : Nat) : List (SlotLabel Nat) :=
  [.sender (.write value), .sender .swap, .sender .setBack, .receiver .load, .receiver .swap,
    .receiver .setFront, .receiver .take]

theorem isSome_exchanges : (run Slot.step Slot.new (exchange 1 ++ exchange 2)).isSome := by
  decide +kernel

theorem exchanges_informed :
    Throughout step Informed new (exchange 1 ++ exchange 2)
    ∧ ∀ value, ¬ [SlotLabel.receiver .take, .receiver .swap, .sender .swap,
      .sender (.write value)].Sublist (exchange 1 ++ exchange 2) := by
  have h := swaps_hand_over_iff (Option.some_get isSome_exchanges).symm
  have hway : ¬ ([.receiver .take, .receiver .swap, .sender .swap] : List (SlotLabel Nat)).Sublist
      (exchange 1 ++ exchange 2) := by decide
  have hreused (value : Nat) : ¬ [SlotLabel.receiver .take, .receiver .swap, .sender .swap,
      .sender (.write value)].Sublist (exchange 1 ++ exchange 2) :=
    fun hsublist => hway ((List.sublist_append_left _ [_]).trans hsublist)
  exact ⟨h.mpr hreused, hreused⟩

/-- Two exchanges, and a third send. -/
def thirdSend : List (SlotLabel Nat) :=
  exchange 1 ++ exchange 2 ++ [.sender (.write 3), .sender .swap, .sender .setBack]

theorem isSome_thirdSend : (run step new thirdSend).isSome := by decide +kernel

/-- The fourth send writes the buffer from which the first `recv` has taken, without knowing. -/
theorem fourthSend_not_informed :
    (run Slot.step Slot.new (thirdSend ++ [.sender (.write 4)])).isSome
    ∧ ¬ Throughout step Informed new (thirdSend ++ [.sender (.write 4)]) := by
  refine ⟨by decide +kernel, fun h => ?_⟩
  have hinformed := h thirdSend (.sender (.write 4)) [] _ rfl (Option.some_get isSome_thirdSend).symm
    ⟨.sender, 0, 5⟩ (by decide +kernel) ⟨.receiver, 0, 1⟩ (by decide +kernel) rfl (by decide)
  revert hinformed
  decide +kernel

end ViewedSlot

end OrderbookAggregator
