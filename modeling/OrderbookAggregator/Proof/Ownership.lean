import OrderbookAggregator.Proof.SlotHalves

/-!
# Who owns the buffers, and what becomes of the values

The buffers are accessed without locks and without bounds checks. What justifies this is that the
two halves never own the same buffer. It also settles what becomes of a value: it is taken by the
receiver, dropped by a later send that gets its buffer, or dropped with the block.
-/

namespace OrderbookAggregator.Slot

open LabelledRun

variable {T : Type}

/-! ### Accesses -/

theorem accessed_write {s s' : Slot T} {value : T} (h : s.step (.sender (.write value)) = some s') :
    s.accessed (.sender (.write value)) = some s.backIndex := by
  cases step_cases h with
  | write hpc => rw [accessed, backIndex, hpc]

theorem accessed_take {s s' : Slot T} (h : s.step (.receiver .take) = some s') :
    s.accessed (.receiver .take) = some s.frontIndex := by
  cases step_cases h with
  | take hpc => rw [accessed, frontIndex, hpc]

theorem Inv.accessed_lt {s s' : Slot T} (hinv : Inv s) {label : SlotLabel T}
    (h : s.step label = some s') {i : UInt8} (haccessed : s.accessed label = some i) : i < 3 := by
  cases label with
  | sender op =>
      cases op with
      | write value =>
          rw [accessed_write h, Option.some_inj] at haccessed
          exact haccessed ▸ hinv.back_lt
      | swap | setBack | isAbandoned | drop | endDrop => cases haccessed
  | receiver op =>
      cases op with
      | take =>
          rw [accessed_take h, Option.some_inj] at haccessed
          exact haccessed ▸ hinv.front_lt
      | load | swap | setFront | isAbandoned | drop | endDrop => cases haccessed

/-- A byte with a middle index below three has nothing above its three lowest bits. -/
theorem Inv.state_le {s : Slot T} (hinv : Inv s) : s.state ≤ 5 := by
  have hmiddle : (s.state >>> 1).toNat < 3 := UInt8.lt_iff_toNat_lt.mp hinv.middle_lt
  rw [UInt8.toNat_shiftRight] at hmiddle
  rw [UInt8.le_iff_toNat_le]
  change s.state.toNat >>> 1 < 3 at hmiddle
  change s.state.toNat ≤ 5
  rw [Nat.shiftRight_one] at hmiddle
  omega

/-- **Exclusive ownership of the buffers**, at every step of both halves: the three indices are
distinct and in range, so is every access, and two accesses that are possible at the same time are to
different buffers; the middle buffer is full exactly while the dirty flag is set, and the buffer of
the receiver is empty unless a `recv` has swapped and not yet taken. -/
theorem buffers_exclusive {s : Slot T} {labels : List (SlotLabel T)}
    (hrun : run step new labels = some s) :
    (s.backIndex < 3 ∧ s.middleIndex < 3 ∧ s.frontIndex < 3)
    ∧ (s.backIndex ≠ s.middleIndex ∧ s.backIndex ≠ s.frontIndex ∧ s.middleIndex ≠ s.frontIndex)
    ∧ s.state ≤ 5
    ∧ (∀ label s' i, s.step label = some s' → s.accessed label = some i → i < 3)
    ∧ (∀ value s' s'' i j, s.step (.sender (.write value)) = some s' →
      s.accessed (.sender (.write value)) = some i → s.step (.receiver .take) = some s'' →
      s.accessed (.receiver .take) = some j → i ≠ j)
    ∧ (s.buffers s.middleIndex).isSome = s.isDirty
    ∧ (s.inRecv = false → s.buffers s.frontIndex = none) := by
  have hinv := inv_of_run hrun
  refine ⟨⟨hinv.back_lt, hinv.middle_lt, hinv.front_lt⟩,
    ⟨hinv.back_ne_middle, hinv.back_ne_front, hinv.middle_ne_front⟩, hinv.state_le,
    fun label s' i h haccessed => hinv.accessed_lt h haccessed, ?_, hinv.middle, ?_⟩
  · intro value s' s'' i j hwrite hi htake hj
    rw [accessed_write hwrite, Option.some_inj] at hi
    rw [accessed_take htake, Option.some_inj] at hj
    rw [← hi, ← hj]
    exact hinv.back_ne_front
  · intro hinRecv
    have hfront := hinv.front
    rw [hinRecv] at hfront
    exact Option.isNone_iff_eq_none.mp (by simpa using hfront)

theorem buffers_exclusive_of_overtakenRun :
    ∃ s, run step new overtakenRun = some s ∧ s.state ≤ 5 ∧ s.backIndex ≠ s.frontIndex := by
  have hrun := (Option.some_get isSome_overtakenRun).symm
  have h := buffers_exclusive hrun
  exact ⟨_, hrun, h.2.2.1, h.2.1.2.1⟩

/-! ### The drops of the halves -/

/-- The halves in the order in which they are dropped. -/
def dropOrder (labels : List (SlotLabel T)) : List Half :=
  labels.filterMap fun
    | .sender .drop => some .sender
    | .receiver .drop => some .receiver
    | _ => none

/-- Whether the drop of the sender is going to free the block. -/
def senderFrees (s : Slot T) : Bool :=
  match s.sender with
  | .released prev => prev = 1
  | _ => false

def receiverFrees (s : Slot T) : Bool :=
  match s.receiver with
  | .released prev => prev = 1
  | _ => false

def pendingFrees (s : Slot T) : List Half :=
  (if s.senderFrees then [.sender] else []) ++ if s.receiverFrees then [.receiver] else []

/-- The half that frees the block by a step. -/
def freeing (s : Slot T) : SlotLabel T → List Half
  | .sender .endDrop => if s.senderFrees then [.sender] else []
  | .receiver .endDrop => if s.receiverFrees then [.receiver] else []
  | _ => []

/-- The halves that have freed the block along a run. -/
def freers (labels : List (SlotLabel T)) : List Half := observe step freeing new labels

/-- Of the halves dropped, all but the first free the block, now or when their drop ends. -/
structure FreeInv (labels : List (SlotLabel T)) (s : Slot T) : Prop where
  frees : s.frees = (freers labels).length
  order : freers labels ++ s.pendingFrees = (dropOrder labels).drop 1
  length : (dropOrder labels).length = s.senderDropped.toNat + s.receiverDropped.toNat

theorem dropOrder_append (labels labels' : List (SlotLabel T)) :
    dropOrder (labels ++ labels') = dropOrder labels ++ dropOrder labels' :=
  List.filterMap_append

theorem FreeInv.quiet {labels : List (SlotLabel T)} {s s' : Slot T} (h : FreeInv labels s)
    (hrun : run step new labels = some s) {label : SlotLabel T} (hdrop : dropOrder [label] = [])
    (hfreeing : s.freeing label = []) (hfrees : s'.frees = s.frees)
    (hsender : s'.senderDropped = s.senderDropped ∧ s'.senderFrees = s.senderFrees)
    (hreceiver : s'.receiverDropped = s.receiverDropped ∧ s'.receiverFrees = s.receiverFrees) :
    FreeInv (labels ++ [label]) s' := by
  have hfreers : freers (labels ++ [label]) = freers labels := by
    rw [freers, observe_concat hrun, hfreeing, List.append_nil]
    rfl
  have hdropOrder : dropOrder (labels ++ [label]) = dropOrder labels := by
    rw [dropOrder_append, hdrop, List.append_nil]
  refine ⟨?_, ?_, ?_⟩
  · rw [hfrees, hfreers, h.frees]
  · rw [pendingFrees, hsender.2, hreceiver.2, hfreers, hdropOrder]
    exact h.order
  · rw [hdropOrder, hsender.1, hreceiver.1]
    exact h.length

theorem FreeInv.eq_nil {labels : List (SlotLabel T)} {s : Slot T} (h : FreeInv labels s)
    (hlength : (dropOrder labels).length ≤ 1) : freers labels = [] ∧ s.pendingFrees = [] :=
  List.append_eq_nil_iff.mp (h.order.trans (List.drop_eq_nil_of_le hlength))

theorem pendingFrees_eq_nil_iff {s : Slot T} :
    s.pendingFrees = [] ↔ s.senderFrees = false ∧ s.receiverFrees = false := by
  rw [pendingFrees]
  cases s.senderFrees <;> cases s.receiverFrees <;> simp

/-- At most one half frees the block. -/
theorem FreeInv.length_le_one {labels : List (SlotLabel T)} {s : Slot T} (h : FreeInv labels s) :
    (freers labels).length + s.pendingFrees.length ≤ 1 := by
  have hsender := Bool.toNat_le s.senderDropped
  have hreceiver := Bool.toNat_le s.receiverDropped
  calc (freers labels).length + s.pendingFrees.length
      = ((dropOrder labels).drop 1).length := by rw [← List.length_append, h.order]
    _ = (dropOrder labels).length - 1 := List.length_drop
    _ ≤ 1 := by rw [h.length]; omega

theorem FreeInv.senderFrees_eq_false {labels : List (SlotLabel T)} {s : Slot T}
    (h : FreeInv labels s) (hfrees : s.receiverFrees = true) : s.senderFrees = false := by
  have hlength := h.length_le_one
  rw [pendingFrees, hfrees, if_pos rfl, List.length_append, List.length_singleton] at hlength
  cases hsender : s.senderFrees with
  | false => rfl
  | true =>
      rw [hsender, if_pos rfl, List.length_singleton] at hlength
      omega

/-- A half that is dropped after the other one is going to free the block. -/
theorem drop_one_concat {order : List Half} {dropped : Bool} (half : Half)
    (hlength : order.length = dropped.toNat) :
    (order ++ [half]).drop 1 = if dropped then [half] else [] := by
  cases dropped with
  | false =>
      rw [List.eq_nil_of_length_eq_zero hlength]
      rfl
  | true =>
      obtain ⟨first, rfl⟩ := List.length_eq_one_iff.mp hlength
      rfl

theorem FreeInv.step {labels : List (SlotLabel T)} {s s' : Slot T} (h : FreeInv labels s)
    (hrun : run step new labels = some s) {label : SlotLabel T} (hstep : s.step label = some s') :
    FreeInv (labels ++ [label]) s' := by
  have hrefcount := refcount_of_run hrun
  have hfreers : freers (labels ++ [label]) = freers labels ++ s.freeing label :=
    observe_concat hrun
  cases step_cases hstep with
  | write hpc | senderSwap hpc | setBack hpc =>
      refine h.quiet hrun rfl rfl rfl ?_ ⟨rfl, rfl⟩
      rw [senderDropped.eq_def s, senderFrees.eq_def s, hpc]
      exact ⟨rfl, rfl⟩
  | senderIsAbandoned | receiverIsAbandoned => exact h.quiet hrun rfl rfl rfl ⟨rfl, rfl⟩ ⟨rfl, rfl⟩
  | load hpc =>
      refine h.quiet hrun rfl rfl rfl ⟨rfl, rfl⟩ ?_
      rw [receiverDropped.eq_def s, receiverFrees.eq_def s, hpc]
      change receiverDropped { s with receiver := if s.isDirty then .loaded else .idle } = false
        ∧ receiverFrees { s with receiver := if s.isDirty then .loaded else .idle } = false
      cases s.isDirty <;> exact ⟨rfl, rfl⟩
  | receiverSwap hpc | setFront hpc | take hpc =>
      refine h.quiet hrun rfl rfl rfl ⟨rfl, rfl⟩ ?_
      rw [receiverDropped.eq_def s, receiverFrees.eq_def s, hpc]
      exact ⟨rfl, rfl⟩
  | senderDrop hpc =>
      have hleft : s.senderDropped = false := by rw [senderDropped, hpc]
      have hlength := h.length
      rw [hleft, Bool.toNat_false, Nat.zero_add] at hlength
      obtain ⟨hnone, hpending⟩ := h.eq_nil (hlength.trans_le (Bool.toNat_le _))
      have hlast : decide (s.refcount = 1) = s.receiverDropped := by
        rw [hrefcount, hleft]
        cases s.receiverDropped <;> decide
      refine ⟨h.frees.trans (congrArg List.length (hfreers.trans (List.append_nil _)).symm), ?_, ?_⟩
      · rw [hfreers, hnone, dropOrder_append]
        refine Eq.trans ?_ (drop_one_concat .sender hlength).symm
        change (if decide (s.refcount = 1) then [Half.sender] else [])
          ++ (if s.receiverFrees then [Half.receiver] else []) = _
        rw [hlast, (pendingFrees_eq_nil_iff.mp hpending).2]
        exact List.append_nil _
      · rw [dropOrder_append, List.length_append, hlength]
        exact Nat.add_comm _ 1
  | @senderEndDrop prev hpc =>
      have hdropped : s.senderDropped = true := by rw [senderDropped, hpc]
      have hsenderFrees : s.senderFrees = decide (prev = 1) := by rw [senderFrees, hpc]
      have hfreeing : s.freeing (.sender .endDrop) = if prev = 1 then [.sender] else [] := by
        rw [freeing, hsenderFrees]
        simp
      have hdropOrder : dropOrder (labels ++ [.sender .endDrop]) = dropOrder labels := by
        rw [dropOrder_append]
        exact List.append_nil _
      refine ⟨?_, ?_, ?_⟩
      · rw [hfreers, hfreeing, List.length_append, ← h.frees]
        change (if prev = 1 then s.frees + 1 else s.frees) = _
        split <;> rfl
      · rw [hfreers, hdropOrder, ← h.order, List.append_assoc]
        rfl
      · rw [hdropOrder, h.length, hdropped]
        rfl
  | receiverDrop hpc =>
      have hleft : s.receiverDropped = false := by rw [receiverDropped, hpc]
      have hlength := h.length
      rw [hleft, Bool.toNat_false, Nat.add_zero] at hlength
      obtain ⟨hnone, hpending⟩ := h.eq_nil (hlength.trans_le (Bool.toNat_le _))
      have hlast : decide (s.refcount = 1) = s.senderDropped := by
        rw [hrefcount, hleft]
        cases s.senderDropped <;> decide
      refine ⟨h.frees.trans (congrArg List.length (hfreers.trans (List.append_nil _)).symm), ?_, ?_⟩
      · rw [hfreers, hnone, dropOrder_append]
        refine Eq.trans ?_ (drop_one_concat .receiver hlength).symm
        change (if s.senderFrees then [Half.sender] else [])
          ++ (if decide (s.refcount = 1) then [Half.receiver] else []) = _
        rw [hlast, (pendingFrees_eq_nil_iff.mp hpending).1]
        rfl
      · rw [dropOrder_append, List.length_append, hlength]
        rfl
  | @receiverEndDrop prev hpc =>
      have hdropped : s.receiverDropped = true := by rw [receiverDropped, hpc]
      have hreceiverFrees : s.receiverFrees = decide (prev = 1) := by rw [receiverFrees, hpc]
      have hfreeing : s.freeing (.receiver .endDrop) = if prev = 1 then [.receiver] else [] := by
        rw [freeing, hreceiverFrees]
        simp
      have hdropOrder : dropOrder (labels ++ [.receiver .endDrop]) = dropOrder labels := by
        rw [dropOrder_append]
        exact List.append_nil _
      refine ⟨?_, ?_, ?_⟩
      · rw [hfreers, hfreeing, List.length_append, ← h.frees]
        change (if prev = 1 then s.frees + 1 else s.frees) = _
        split <;> rfl
      · rw [hfreers, hdropOrder, ← h.order, List.append_assoc]
        refine congrArg (freers labels ++ ·) ?_
        change s.freeing (.receiver .endDrop) ++ ((if s.senderFrees then [Half.sender] else []) ++ [])
          = (if s.senderFrees then [Half.sender] else []) ++ s.freeing (.receiver .endDrop)
        rw [List.append_nil, freeing]
        cases hfrees : s.receiverFrees with
        | false => exact (List.append_nil _).symm
        | true =>
            rw [h.senderFrees_eq_false hfrees]
            rfl
      · rw [hdropOrder, h.length, hdropped]
        rfl

theorem freeInv_of_run {s : Slot T} {labels : List (SlotLabel T)}
    (hrun : run step new labels = some s) : FreeInv labels s :=
  run_induction FreeInv ⟨rfl, rfl, rfl⟩ (fun _ _ _ _ hrun h hstep => h.step hrun hstep) hrun

/-- Both halves are dropped once the block is freed. -/
theorem FreeInv.dropped {labels : List (SlotLabel T)} {s : Slot T} (h : FreeInv labels s)
    (hfrees : s.frees ≠ 0) : s.senderDropped = true ∧ s.receiverDropped = true := by
  have horder := congrArg List.length h.order
  rw [List.length_append, List.length_drop, ← h.frees, h.length] at horder
  cases hsender : s.senderDropped <;> cases hreceiver : s.receiverDropped <;>
    simp_all [Bool.toNat]

/-- Only the rest of the other drop can follow the step that frees the block. -/
theorem FreeInv.step_freed {labels : List (SlotLabel T)} {s s' : Slot T} (h : FreeInv labels s)
    (hfrees : s.frees ≠ 0) {label : SlotLabel T} (hstep : s.step label = some s') :
    (label = .sender .endDrop ∨ label = .receiver .endDrop) ∧ s.freeing label = [] := by
  obtain ⟨hsender, hreceiver⟩ := h.dropped hfrees
  have hpending : s.pendingFrees = [] := by
    have hlength := h.length_le_one
    rw [← h.frees] at hlength
    exact List.eq_nil_of_length_eq_zero (by omega)
  rw [pendingFrees_eq_nil_iff] at hpending
  cases step_cases hstep with
  | write hpc | senderSwap hpc | setBack hpc | senderIsAbandoned hpc | senderDrop hpc =>
      rw [senderDropped, hpc] at hsender
      cases hsender
  | load hpc | receiverSwap hpc | setFront hpc | take hpc | receiverIsAbandoned hpc
  | receiverDrop hpc =>
      rw [receiverDropped, hpc] at hreceiver
      cases hreceiver
  | senderEndDrop => exact ⟨Or.inl rfl, by rw [freeing, hpending.1]; rfl⟩
  | receiverEndDrop => exact ⟨Or.inr rfl, by rw [freeing, hpending.2]; rfl⟩

/-- When both drops have ended, the half dropped last has freed the block. -/
theorem FreeInv.freers_of_gone {labels : List (SlotLabel T)} {s : Slot T} (h : FreeInv labels s)
    (hsender : s.sender = .gone) (hreceiver : s.receiver = .gone) :
    ∃ first last, dropOrder labels = [first, last] ∧ freers labels = [last] := by
  have hlength := h.length
  rw [senderDropped, receiverDropped, hsender, hreceiver] at hlength
  obtain ⟨first, last, hdropOrder⟩ := List.length_eq_two.mp hlength
  have horder := h.order
  rw [pendingFrees, senderFrees, receiverFrees, hsender, hreceiver, hdropOrder] at horder
  exact ⟨first, last, hdropOrder, (List.append_nil _).symm.trans horder⟩

/-! ### The values -/

def contents (s : Slot T) : List T :=
  (s.buffers 0).toList ++ (s.buffers 1).toList ++ (s.buffers 2).toList

/-- The values that still belong to the slot. -/
def held (s : Slot T) : List T := if s.frees = 0 then s.contents else []

/-- The value that a send drops when it writes its buffer. -/
def overwriting (s : Slot T) : SlotLabel T → List T
  | .sender (.write _) => (s.buffers s.back).toList
  | _ => []

/-- The values that are dropped with the block. -/
def disposing (s : Slot T) (label : SlotLabel T) : List T :=
  (s.freeing label).flatMap fun _ => s.contents

def overwritten (labels : List (SlotLabel T)) : List T := observe step overwriting new labels

def disposed (labels : List (SlotLabel T)) : List T := observe step disposing new labels

theorem contents_update {s s' : Slot T} {i : UInt8} (hi : i < 3) {content : Option T}
    (hbuffers : s'.buffers = Function.update s.buffers i content) :
    (s.contents ++ content.toList).Perm ((s.buffers i).toList ++ s'.contents) := by
  have hself : s'.buffers i = content := hbuffers ▸ Function.update_self i content s.buffers
  have hothers (j : UInt8) (hj : j ≠ i) : s'.buffers j = s.buffers j :=
    hbuffers ▸ Function.update_of_ne hj content s.buffers
  rw [← Multiset.coe_eq_coe]
  simp only [contents, ← Multiset.coe_add]
  rcases eq_of_lt_three hi with rfl | rfl | rfl
  · rw [hself, hothers 1 (by decide), hothers 2 (by decide)]
    abel
  · rw [hself, hothers 0 (by decide), hothers 2 (by decide)]
    abel
  · rw [hself, hothers 0 (by decide), hothers 1 (by decide)]
    abel

theorem held_of_quiet {s s' : Slot T} {label : SlotLabel T} (hbuffers : s'.buffers = s.buffers)
    (hfrees : s'.frees = s.frees) (hasked : asked label = [])
    (hresults : (s.results label).filterMap id = []) (hoverwriting : s.overwriting label = [])
    (hdisposing : s.disposing label = []) :
    (s.held ++ asked label).Perm ((s.results label).filterMap id ++ s.overwriting label
      ++ s.disposing label ++ s'.held) := by
  have hheld : s'.held = s.held := by rw [held, held, contents, contents, hbuffers, hfrees]
  rw [hasked, hresults, hoverwriting, hdisposing, hheld, List.append_nil]
  exact List.Perm.refl _

/-- The rest of a drop drops the values, or leaves them to the other half. -/
theorem held_of_endDrop {s s' : Slot T} {label : SlotLabel T} (hbuffers : s'.buffers = s.buffers)
    (hasked : asked label = []) (hresults : s.results label = [])
    (hoverwriting : s.overwriting label = [])
    (hfreeing : s.freeing label = [] ∧ s'.frees = s.frees
      ∨ ∃ half, s.freeing label = [half] ∧ s.frees = 0 ∧ s'.frees = 1) :
    (s.held ++ asked label).Perm ((s.results label).filterMap id ++ s.overwriting label
      ++ s.disposing label ++ s'.held) := by
  rcases hfreeing with ⟨hnone, hfrees⟩ | ⟨half, hsome, hzero, hone⟩
  · refine held_of_quiet hbuffers hfrees hasked (by rw [hresults]; rfl) hoverwriting ?_
    rw [disposing, hnone]
    rfl
  · have hheld : s.held = s.contents := if_pos hzero
    have hheld' : s'.held = [] := if_neg (hone ▸ Nat.one_ne_zero)
    have hdisposing : s.disposing label = s.contents := by
      rw [disposing, hsome, List.flatMap_singleton]
    rw [hheld, hheld', hasked, hresults, hoverwriting, hdisposing, List.append_nil,
      List.append_nil]
    exact List.Perm.refl _

theorem held_of_update {s s' : Slot T} {label : SlotLabel T} {i : UInt8} {content : Option T}
    (hi : i < 3) (hbuffers : s'.buffers = Function.update s.buffers i content)
    (hfrees : s.frees = 0 ∧ s'.frees = 0) (hasked : asked label = content.toList)
    (hout : (s.results label).filterMap id ++ s.overwriting label = (s.buffers i).toList)
    (hdisposing : s.disposing label = []) :
    (s.held ++ asked label).Perm ((s.results label).filterMap id ++ s.overwriting label
      ++ s.disposing label ++ s'.held) := by
  have hheld : s.held = s.contents := if_pos hfrees.1
  have hheld' : s'.held = s'.contents := if_pos hfrees.2
  rw [hheld, hheld', hasked, hout, hdisposing, List.append_nil]
  exact contents_update hi hbuffers

theorem FreeInv.held_step {labels : List (SlotLabel T)} {s s' : Slot T} (h : FreeInv labels s)
    (hinv : Inv s) {label : SlotLabel T} (hstep : s.step label = some s') :
    (s.held ++ asked label).Perm ((s.results label).filterMap id ++ s.overwriting label
      ++ s.disposing label ++ s'.held) := by
  have hleft (hdropped : ¬ (s.senderDropped = true ∧ s.receiverDropped = true)) : s.frees = 0 :=
    of_not_not fun hfrees => hdropped (h.dropped hfrees)
  have hpending (hfrees : s.pendingFrees ≠ []) : s.frees = 0 := by
    have hlength := h.length_le_one
    have hpos := List.length_pos_iff.mpr hfrees
    rw [h.frees]
    omega
  cases step_cases hstep with
  | @write value hpc =>
      have hback : s.backIndex = s.back := by rw [backIndex, hpc]
      have hzero := hleft (by simp [senderDropped, hpc])
      exact held_of_update (hback ▸ hinv.back_lt) rfl ⟨hzero, hzero⟩ rfl rfl rfl
  | senderSwap | setBack | senderIsAbandoned | senderDrop | setFront | receiverIsAbandoned
  | receiverDrop | receiverSwap => exact held_of_quiet rfl rfl rfl rfl rfl rfl
  | load hpc =>
      refine held_of_quiet rfl rfl rfl ?_ rfl rfl
      rw [results, returned]
      cases s.isDirty <;> rfl
  | @take newFront hpc =>
      have hfront : s.frontIndex = newFront := by rw [frontIndex, hpc]
      have hzero := hleft (by simp [receiverDropped, hpc])
      refine held_of_update (hfront ▸ hinv.front_lt) rfl ⟨hzero, hzero⟩ rfl ?_ rfl
      rw [results, returned, hpc]
      change [s.buffers newFront].filterMap id ++ [] = (s.buffers newFront).toList
      cases s.buffers newFront <;> rfl
  | @senderEndDrop prev hpc =>
      refine held_of_endDrop rfl rfl rfl rfl ?_
      have hsenderFrees : s.senderFrees = decide (prev = 1) := by rw [senderFrees, hpc]
      rw [freeing, hsenderFrees]
      by_cases hprev : prev = 1
      · have hzero := hpending (by rw [Ne, pendingFrees_eq_nil_iff, hsenderFrees]; simp [hprev])
        exact Or.inr ⟨.sender, by simp [hprev], hzero, by simp [hprev, hzero]⟩
      · exact Or.inl ⟨by simp [hprev], if_neg hprev⟩
  | @receiverEndDrop prev hpc =>
      refine held_of_endDrop rfl rfl rfl rfl ?_
      have hreceiverFrees : s.receiverFrees = decide (prev = 1) := by rw [receiverFrees, hpc]
      rw [freeing, hreceiverFrees]
      by_cases hprev : prev = 1
      · have hzero := hpending (by rw [Ne, pendingFrees_eq_nil_iff, hreceiverFrees]; simp [hprev])
        exact Or.inr ⟨.receiver, by simp [hprev], hzero, by simp [hprev, hzero]⟩
      · exact Or.inl ⟨by simp [hprev], if_neg hprev⟩

/-- Every value sent is received, overwritten, dropped with the block, or still in the slot. -/
theorem sent_perm {s : Slot T} {labels : List (SlotLabel T)}
    (hrun : run step new labels = some s) :
    (sent labels).Perm ((received labels).filterMap id ++ overwritten labels ++ disposed labels
      ++ s.held) := by
  refine run_induction (fun labels s => (sent labels).Perm ((received labels).filterMap id
    ++ overwritten labels ++ disposed labels ++ s.held)) (List.Perm.refl _) ?_ hrun
  intro labels s label s' hrun h hstep
  have hheld := (freeInv_of_run hrun).held_step (inv_of_run hrun) hstep
  have hsent : sent (labels ++ [label]) = sent labels ++ asked label := by simp [sent]
  rw [hsent, received, overwritten, disposed, observe_concat hrun, observe_concat hrun,
    observe_concat hrun, List.filterMap_append]
  rw [← Multiset.coe_eq_coe] at h hheld ⊢
  simp only [← Multiset.coe_add] at h hheld ⊢
  rw [h, add_assoc _ (s.held : Multiset T), hheld]
  simp only [received, overwritten, disposed]
  abel

/-- No value is dropped with the block before the block is freed. -/
theorem disposed_eq_nil {s : Slot T} {labels : List (SlotLabel T)}
    (hrun : run step new labels = some s) (hfreers : freers labels = []) : disposed labels = [] := by
  refine run_induction (fun labels _ => freers labels = [] → disposed labels = []) (fun _ => rfl) ?_
    hrun hfreers
  intro labels s label s' hrun ih _ hfreers
  rw [freers, observe_concat hrun, List.append_eq_nil_iff] at hfreers
  rw [disposed, observe_concat hrun, disposing, hfreers.2]
  exact (List.append_nil _).trans (ih hfreers.1)

theorem Inv.length_contents_le {s : Slot T} (hinv : Inv s) (hinRecv : s.inRecv = false) :
    s.contents.length ≤ 2 := by
  have hfront : s.buffers s.frontIndex = none := by
    have hisSome := hinv.front
    rwa [hinRecv, Option.isSome_eq_false_iff, Option.isNone_iff_eq_none] at hisSome
  have h0 := (s.buffers 0).length_toList_le
  have h1 := (s.buffers 1).length_toList_le
  have h2 := (s.buffers 2).length_toList_le
  rw [contents, List.length_append, List.length_append]
  rcases eq_of_lt_three hinv.front_lt with hindex | hindex | hindex <;>
    rw [hindex, ← Option.length_toList_eq_zero_iff] at hfront <;> omega

/-- **Every value is disposed of once.** The values sent are those received, those overwritten by a
later send, those dropped with the block, and, until the block is freed, those in the buffers. The
block is freed at most once, and exactly once when both drops have ended, by the half dropped last;
only the rest of the other drop, which does not free it, can follow. -/
theorem values_disposed {s : Slot T} {labels : List (SlotLabel T)}
    (hrun : run step new labels = some s) :
    (s.frees = 0 →
      (sent labels).Perm ((received labels).filterMap id ++ overwritten labels ++ s.contents)
      ∧ (s.inRecv = false → s.contents.length ≤ 2))
    ∧ (s.frees ≠ 0 →
      (sent labels).Perm ((received labels).filterMap id ++ overwritten labels ++ disposed labels)
      ∧ ∀ label s', s.step label = some s' →
        (label = .sender .endDrop ∨ label = .receiver .endDrop) ∧ s.freeing label = [])
    ∧ s.frees = (freers labels).length ∧ s.frees ≤ 1
    ∧ (s.sender = .gone → s.receiver = .gone →
      s.frees = 1 ∧ ∃ first last, dropOrder labels = [first, last] ∧ freers labels = [last]) := by
  have hinv := inv_of_run hrun
  have hfree := freeInv_of_run hrun
  have hperm := sent_perm hrun
  refine ⟨fun hzero => ⟨?_, hinv.length_contents_le⟩, fun hfreed => ⟨?_, ?_⟩, hfree.frees, ?_, ?_⟩
  · have hfreers := List.eq_nil_of_length_eq_zero (hfree.frees.symm.trans hzero)
    rwa [disposed_eq_nil hrun hfreers, held, if_pos hzero, List.append_nil] at hperm
  · rwa [held, if_neg hfreed, List.append_nil] at hperm
  · exact fun label s' hstep => hfree.step_freed hfreed hstep
  · have hlength := hfree.length_le_one
    rw [hfree.frees]
    omega
  · intro hsender hreceiver
    obtain ⟨first, last, hdropOrder, hfreers⟩ := hfree.freers_of_gone hsender hreceiver
    exact ⟨by rw [hfree.frees, hfreers, List.length_singleton], first, last, hdropOrder, hfreers⟩

/-- The receiver is dropped after it has taken the third value; the sender goes on. -/
def abandonedRun : List (SlotLabel Nat) :=
  [.sender (.write 1), .sender .swap, .sender .setBack, .sender (.write 2), .sender .swap,
    .sender .setBack, .sender (.write 3), .sender .swap, .sender .setBack, .receiver .load,
    .receiver .swap, .receiver .setFront, .receiver .take, .receiver .drop, .sender (.write 4),
    .receiver .endDrop, .sender .swap, .sender .setBack, .sender .isAbandoned, .sender (.write 5),
    .sender .swap, .sender .setBack, .sender .drop, .sender .endDrop]

theorem isSome_abandonedRun : (run step new abandonedRun).isSome := by decide +kernel

theorem values_disposed_of_abandonedRun :
    received abandonedRun = [some 3] ∧ overwritten abandonedRun = [1, 2]
    ∧ (sent abandonedRun).Perm ([3] ++ [1, 2] ++ disposed abandonedRun)
    ∧ freers abandonedRun = [.sender] := by
  have h := values_disposed (Option.some_get isSome_abandonedRun).symm
  exact ⟨by decide +kernel, by decide +kernel, (h.2.1 (by decide +kernel)).1, by decide +kernel⟩

end OrderbookAggregator.Slot
