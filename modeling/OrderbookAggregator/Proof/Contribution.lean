import OrderbookAggregator.Proof.System

/-!
# What an exchange contributes to the summaries

The books of a producer are numbered in the order they are sent, and a slot hands them on in that
order. The store holds, of every exchange, the book last taken from its slot or none, so the numbers
of the books that the summaries are made of cannot go back.
-/

namespace OrderbookAggregator

/-! ### The store -/

def BookStore.bookOf (store : BookStore) (e : Nat) : Option OrderBook :=
  if h : e < maxExchanges then store.books ⟨e, h⟩ else none

theorem BookStore.bookOf_new (e : Nat) : BookStore.new.bookOf e = none := by
  rw [bookOf]
  split <;> rfl

/-- After an insertion and an eviction the book of an exchange is the inserted one, or the one that
was there before. -/
theorem BookStore.bookOf_insert_evictStale {store : BookStore} {book book' : OrderBook}
    {now : Instant} {threshold : Duration} {e : Nat}
    (h : ((store.insert book).evictStale now threshold).bookOf e = some book') :
    (book.exchangeId.toNat = e ∧ book' = book)
    ∨ (book.exchangeId.toNat ≠ e ∧ store.bookOf e = some book') := by
  rw [bookOf] at h ⊢
  split at h
  · rename_i hlt
    rw [books_evictStale] at h
    have hbook := Option.eq_some_of_filter_eq_some h
    rw [books_insert] at hbook
    rw [dif_pos hlt]
    split at hbook
    · rename_i hid
      exact Or.inl ⟨hid, (Option.some_inj.mp hbook).symm⟩
    · rename_i hid
      exact Or.inr ⟨hid, hbook⟩
  · cases h

/-- The store that a publication at this point merges. -/
def Merger.mergedStore (m : Merger) (t0 : Instant) : Option BookStore :=
  match m.pc with
  | .received _ book => some ((m.books.insert book).evictStale t0 staleThreshold)
  | _ => none

namespace System

open LabelledRun

variable {k : Nat}

/-! ### The books sent -/

theorem sentBy_singleton (e : Fin k) (label : SystemLabel k) :
    sentBy e [label] = match label with
      | .producer e' (.write v) => if e' = e then [v] else []
      | _ => [] := by
  rw [sentBy, slotLabels_singleton]
  cases label with
  | producer e' op =>
      rw [slotLabel]
      cases op <;> dsimp only <;> split <;> rfl
  | receiver e' op =>
      rw [slotLabel]
      split <;> rfl
  | isCancelled cancelled => rfl
  | publish t0 t1 => rfl

/-- The books of a producer are numbered from 0 on, and they are books of its exchange. -/
structure Numbered (labels : List (SystemLabel k)) (s : System k) : Prop where
  indices : ∀ e, (sentBy e labels).map Prod.fst = List.range (s.sends e)
  owner : ∀ e, ∀ v ∈ sentBy e labels, v.2.exchangeId.toNat = e

theorem Numbered.of_sends_eq {labels : List (SystemLabel k)} {s s' : System k}
    (h : Numbered labels s) {label : SystemLabel k} (hlabel : ∀ e, sentBy e [label] = [])
    (hsends : s'.sends = s.sends) : Numbered (labels ++ [label]) s' := by
  refine ⟨fun e => ?_, fun e => ?_⟩
  · rw [sentBy_append, hlabel, List.append_nil, hsends]
    exact h.indices e
  · rw [sentBy_append, hlabel, List.append_nil]
    exact h.owner e

theorem numbered_of_run {labels : List (SystemLabel k)} {s : System k}
    (hrun : run step start labels = some s) : Numbered labels s := by
  refine run_induction Numbered ⟨fun _ => rfl, fun _ => by simp [sentBy, slotLabels, Slot.sent]⟩ ?_
    hrun
  intro labels s label s' _ h hstep
  cases step_cases hstep with
  | @producer e' op slot hmay hslot =>
      cases op with
      | write v =>
          obtain ⟨-, hindex, howner⟩ := hmay
          refine ⟨fun e => ?_, fun e v' hv' => ?_⟩
          · change _ = List.range (Function.update s.sends e' (s.sends e' + 1) e)
            rw [sentBy_append, List.map_append, h.indices, sentBy_singleton]
            dsimp only
            by_cases he : e' = e
            · subst he
              rw [if_pos rfl, Function.update_self, List.range_succ, ← hindex]
              rfl
            · rw [if_neg he, Function.update_of_ne (Ne.symm he)]
              exact List.append_nil _
          · rw [sentBy_append, sentBy_singleton, List.mem_append] at hv'
            rcases hv' with hv' | hv'
            · exact h.owner e v' hv'
            · dsimp only at hv'
              split at hv'
              · rename_i he
                rw [List.mem_singleton.mp hv', ← he]
                exact howner
              · cases hv'
      | swap | setBack | isAbandoned | drop | endDrop =>
          exact h.of_sends_eq (fun e => sentBy_singleton e _) rfl
  | receiver => exact h.of_sends_eq (fun e => sentBy_singleton e _) rfl
  | isCancelled => exact h.of_sends_eq (fun e => sentBy_singleton e _) rfl
  | publish => exact h.of_sends_eq (fun e => sentBy_singleton e _) rfl

/-- A book stands at its number among the books of its producer. -/
theorem Numbered.getElem?_sentBy {labels : List (SystemLabel k)} {s : System k}
    (h : Numbered labels s) {e : Fin k} {v : Sent} (hv : v ∈ sentBy e labels) :
    (sentBy e labels)[v.1]? = some v := by
  obtain ⟨i, hi⟩ := List.mem_iff_getElem?.mp hv
  have hindex : ((sentBy e labels).map Prod.fst)[i]? = some v.1 := by
    rw [List.getElem?_map, hi]
    rfl
  rw [h.indices, List.getElem?_eq_some_iff] at hindex
  obtain ⟨_, hindex⟩ := hindex
  rw [List.getElem_range] at hindex
  rwa [← hindex]

/-- The numbers of the books taken from a slot increase. -/
theorem taken_pairwise {labels : List (SystemLabel k)} {s : System k}
    (hrun : run step start labels = some s) (e : Fin k) :
    (taken e labels).Pairwise fun v w => v.1 < w.1 := by
  have hsent : (sentBy e labels).Pairwise fun v w => v.1 < w.1 := by
    rw [← List.pairwise_map, (numbered_of_run hrun).indices]
    exact List.pairwise_lt_range
  exact hsent.sublist (taken_sublist_sentBy hrun e)

theorem length_taken {labels : List (SystemLabel k)} {s : System k}
    (hrun : run step start labels = some s) (e : Fin k) :
    (taken e labels).length = labels.count (.receiver e .take) := by
  refine run_induction (fun labels _ => (taken e labels).length = labels.count (.receiver e .take))
    rfl ?_ hrun
  intro labels s label s' hrun h hstep
  rw [List.count_append, List.count_singleton, ← h]
  by_cases hlabel : label = .receiver e .take
  · subst hlabel
    cases affects_of_step hrun hstep with
    | take hpc hreturned =>
        rw [taken_take hrun hreturned]
        simp
    | stay hlabel => exact absurd rfl (hlabel e)
    | move hlabel => exact absurd rfl (hlabel e)
  · rw [taken_of_ne_take hrun e hlabel]
    simp [hlabel]

/-! ### The books held -/

/-- What the merger knows of an exchange is the book last taken from its slot: a book that is to be
published is, and so is every book in the store, but that of the exchange to be published. -/
structure Flow (labels : List (SystemLabel k)) (s : System k) : Prop where
  pending : ∀ i book, s.merger.pc = .received i book →
    ∃ e : Fin k, e.val = i ∧ ∃ index, (taken e labels).getLast? = some (index, book)
  held : ∀ e : Fin k, (∀ book, s.merger.pc ≠ .received e book) → ∀ book,
    s.merger.books.bookOf e = some book →
      ∃ index, (taken e labels).getLast? = some (index, book)

theorem Flow.exchangeId_pending {labels : List (SystemLabel k)} {s : System k}
    (hrun : run step start labels = some s) (h : Flow labels s) {i : Nat} {book : OrderBook}
    (hpc : s.merger.pc = .received i book) : book.exchangeId.toNat = i := by
  obtain ⟨e, rfl, index, hlast⟩ := h.pending i book hpc
  have hsent := (taken_sublist_sentBy hrun e).subset (List.mem_of_getLast? hlast)
  exact (numbered_of_run hrun).owner e _ hsent

/-- The store that a publication merges holds books last taken only. -/
theorem Flow.bookOf_mergedStore {labels : List (SystemLabel k)} {s : System k}
    (hrun : run step start labels = some s) (h : Flow labels s) {i : Nat} {book : OrderBook}
    (hpc : s.merger.pc = .received i book) {t0 : Instant} (e : Fin k) {book' : OrderBook}
    (hbook' : ((s.merger.books.insert book).evictStale t0 staleThreshold).bookOf e = some book') :
    ∃ index, (taken e labels).getLast? = some (index, book') := by
  have hid := h.exchangeId_pending hrun hpc
  rcases BookStore.bookOf_insert_evictStale hbook' with ⟨he, rfl⟩ | ⟨he, hheld⟩
  · obtain ⟨e', he', hlast⟩ := h.pending i book' hpc
    have heq : e' = e := Fin.ext (by omega)
    exact heq ▸ hlast
  · refine h.held e (fun book'' hpc'' => he ?_) book' hheld
    rw [hpc] at hpc''
    cases hpc''
    exact hid

theorem flow_of_run {labels : List (SystemLabel k)} {s : System k}
    (hrun : run step start labels = some s) : Flow labels s := by
  refine run_induction Flow ?_ ?_ hrun
  · refine ⟨?_, fun e _ book hbook => ?_⟩
    · intro i book hpc
      cases hpc
    change BookStore.new.bookOf e = some book at hbook
    rw [BookStore.bookOf_new] at hbook
    cases hbook
  intro labels s label s' hrun h hstep
  cases affects_of_step hrun hstep with
  | @take e slot v hpc hreturned =>
      -- the book last taken from this slot is pending, nothing changes for the others
      have htaken := taken_take hrun hreturned
      refine ⟨fun i book hpc' => ?_, fun e' hne book hbook => ?_⟩
      · cases hpc'
        exact ⟨e, rfl, v.1, by rw [htaken, List.getLast?_concat]⟩
      · have hee' : e ≠ e' := by
          rintro rfl
          exact hne v.2 rfl
        rw [taken_of_ne_take hrun e' (by simpa using hee')]
        exact h.held e' (by simp [hpc]) book hbook
  | @publish t0 t1 i book hpc =>
      refine ⟨fun j book' hpc' => absurd hpc' (Merger.pollFrom_ne_received _ _ _ _), ?_⟩
      intro e _ book' hbook'
      rw [taken_of_ne_take hrun e (by simp)]
      exact h.bookOf_mergedStore hrun hpc e hbook'
  | stay hlabel hmerger =>
      refine ⟨fun i book hpc => ?_, fun e hne book hbook => ?_⟩
      · rw [hmerger] at hpc
        obtain ⟨e, he, hlast⟩ := h.pending i book hpc
        exact ⟨e, he, by rwa [taken_of_ne_take hrun e (hlabel e)]⟩
      · rw [hmerger] at hne hbook
        rw [taken_of_ne_take hrun e (hlabel e)]
        exact h.held e hne book hbook
  | move hlabel hpc hpc' hmerger =>
      refine ⟨fun i book hreceived => ?_, fun e _ book hbook => ?_⟩
      · rw [hmerger] at hreceived
        exact absurd hreceived (hpc' i book)
      · rw [hmerger] at hbook
        rw [taken_of_ne_take hrun e (hlabel e)]
        exact h.held e (hpc e) book hbook

/-! ### The books published -/

/-- The book of an exchange that a publication right after the labels merges, with its number, if
the store that is merged has a book of the exchange. -/
def contribution (e : Fin k) (labels : List (SystemLabel k)) (t0 : Instant) : Option Sent :=
  ((run step start labels).bind fun s => s.merger.mergedStore t0).bind fun store =>
    (store.bookOf e).bind fun _ => (taken e labels).getLast?

theorem getLast?_taken_of_contribution {e : Fin k} {labels : List (SystemLabel k)} {t0 : Instant}
    {v : Sent} (h : contribution e labels t0 = some v) : (taken e labels).getLast? = some v := by
  obtain ⟨store, -, h⟩ := Option.bind_eq_some_iff.mp h
  obtain ⟨book, -, h⟩ := Option.bind_eq_some_iff.mp h
  exact h

/-- A publication merges the store, and what the store has of an exchange is a book sent by it. -/
theorem publication_contributes {labels before after : List (SystemLabel k)} {s : System k}
    (hrun : run step start labels = some s) {t0 t1 : Instant}
    (heq : labels = before ++ .publish t0 t1 :: after) :
    ∃ s₁ s₂ store, run step start before = some s₁ ∧ s₁.step (.publish t0 t1) = some s₂
      ∧ s₁.merger.mergedStore t0 = some store
      ∧ s₂.merger.published = s₁.merger.published ++ [merge store]
      ∧ ∀ e : Fin k, store.bookOf e = (contribution e before t0).map Prod.snd
        ∧ ∀ v, contribution e before t0 = some v → (sentBy e before)[v.1]? = some v := by
  subst heq
  obtain ⟨s₁, hbefore, hrun⟩ := run_append_eq_some.mp hrun
  obtain ⟨s₂, hstep, -⟩ := run_cons_eq_some.mp hrun
  have hflow := flow_of_run hbefore
  cases step_cases hstep with
  | @publish _ _ merger hmerger =>
      obtain ⟨i, book, hpc⟩ := Merger.pc_of_publish hmerger
      rw [Merger.step, hpc] at hmerger
      cases hmerger
      have hstore : s₁.merger.mergedStore t0
          = some ((s₁.merger.books.insert book).evictStale t0 staleThreshold) := by
        rw [Merger.mergedStore, hpc]
      refine ⟨s₁, _, _, hbefore, hstep, hstore, rfl, fun e => ⟨?_, fun v hv => ?_⟩⟩
      · have hcontribution : contribution e before t0
            = (((s₁.merger.books.insert book).evictStale t0 staleThreshold).bookOf e).bind
              fun _ => (taken e before).getLast? := by
          rw [contribution, hbefore, Option.bind_some, hstore, Option.bind_some]
        rw [hcontribution]
        cases hbook : ((s₁.merger.books.insert book).evictStale t0 staleThreshold).bookOf e with
        | none => rfl
        | some book' =>
            obtain ⟨index, hlast⟩ := hflow.bookOf_mergedStore hbefore hpc e hbook
            rw [Option.bind_some, hlast]
            rfl
      · have hmem := List.mem_of_getLast? (getLast?_taken_of_contribution hv)
        exact (numbered_of_run hbefore).getElem?_sentBy
          ((taken_sublist_sentBy hbefore e).subset hmem)

/-- Between two moments of a run the number of the book last taken from a slot does not go down, and
it goes up exactly if a book was taken between. -/
theorem getLast?_taken_advances {before between : List (SystemLabel k)} {s : System k}
    (hrun : run step start (before ++ between) = some s) {e : Fin k} {v w : Sent}
    (hv : (taken e before).getLast? = some v)
    (hw : (taken e (before ++ between)).getLast? = some w) :
    v.1 ≤ w.1 ∧ (v.1 < w.1 ↔ .receiver e .take ∈ between) := by
  obtain ⟨s₁, hbefore, -⟩ := run_append_eq_some.mp hrun
  have hpairwise := taken_pairwise hrun e
  have hlength := length_taken hrun e
  rw [taken_append hbefore] at hw hpairwise hlength
  rw [List.length_append, length_taken hbefore, List.count_append, Nat.add_left_cancel_iff] at hlength
  rw [← List.count_pos_iff, ← hlength]
  cases hnew : (observe Slot.step Slot.results (s₁.slots e) (slotLabels e between)).filterMap id with
  | nil =>
      rw [hnew, List.append_nil, hv, Option.some_inj] at hw
      subst hw
      simp
  | cons x rest =>
      rw [hnew, List.getLast?_append_of_ne_nil _ (List.cons_ne_nil _ _)] at hw
      rw [hnew] at hpairwise
      have hlt := (List.pairwise_append.mp hpairwise).2.2 v (List.mem_of_getLast? hv) w
        (List.mem_of_getLast? hw)
      simp [hlt, hlt.le]

/-- **The contribution of an exchange never goes backwards.** Every publication merges a store, and
what the store has of an exchange is one of the books sent by the producer, as it was sent. Of two
publications with a book of the exchange, the later one has the same book or one sent later; it has
one sent later exactly if the merger has received from the slot of the exchange in between. -/
theorem contribution_advances {labels : List (SystemLabel k)} {s : System k}
    (hrun : run step start labels = some s) :
    (∀ before t0 t1 after, labels = before ++ .publish t0 t1 :: after →
      ∃ s₁ s₂ store, run step start before = some s₁ ∧ s₁.step (.publish t0 t1) = some s₂
        ∧ s₁.merger.mergedStore t0 = some store
        ∧ s₂.merger.published = s₁.merger.published ++ [merge store]
        ∧ ∀ e : Fin k, store.bookOf e = (contribution e before t0).map Prod.snd
          ∧ ∀ v, contribution e before t0 = some v → (sentBy e before)[v.1]? = some v)
    ∧ ∀ (e : Fin k) before t0 t1 between t0' t1' after v w,
      labels = before ++ .publish t0 t1 :: between ++ .publish t0' t1' :: after →
      contribution e before t0 = some v →
      contribution e (before ++ .publish t0 t1 :: between) t0' = some w →
      v.1 ≤ w.1 ∧ (v.1 < w.1 ↔ .receiver e .take ∈ between) := by
  refine ⟨fun before t0 t1 after heq => publication_contributes hrun heq, ?_⟩
  rintro e before t0 t1 between t0' t1' after v w rfl hv hw
  obtain ⟨s₁, hrun, -⟩ := run_append_eq_some.mp hrun
  have hadvances := getLast?_taken_advances hrun (getLast?_taken_of_contribution hv)
    (getLast?_taken_of_contribution hw)
  simpa using hadvances

def bareBook (e : ExchangeId) : OrderBook :=
  { exchangeId := e, bids := .empty, asks := .empty, decodeStart := 0 }

/-- A whole `try_send_book`. -/
def sendLabels (e : Fin k) (v : Sent) : List (SystemLabel k) :=
  [.producer e .isAbandoned, .producer e (.write v), .producer e .swap, .producer e .setBack]

/-- A whole `recv` that returns a book. -/
def recvLabels (e : Fin k) : List (SystemLabel k) :=
  [.receiver e .load, .receiver e .swap, .receiver e .setFront, .receiver e .take]

/-- The only slot of a system with one. -/
def only : Fin 1 := 0

/-- A book is sent and polled. -/
def firstRound : List (SystemLabel 1) :=
  sendLabels only (0, bareBook 0) ++ [.isCancelled false, .receiver only .isAbandoned]
    ++ recvLabels only

/-- Two more are sent, of which one is polled. -/
def secondRound : List (SystemLabel 1) :=
  sendLabels only (1, bareBook 0) ++ [.isCancelled false, .receiver only .isAbandoned]
    ++ sendLabels only (2, bareBook 0) ++ recvLabels only

theorem contribution_advances_of_rounds :
    ∃ v w, contribution only firstRound 0 = some v
      ∧ contribution only (firstRound ++ .publish 0 0 :: secondRound) 0 = some w
      ∧ v.1 ≤ w.1 ∧ (v.1 < w.1 ↔ .receiver only .take ∈ secondRound) := by
  have hsome : (run step start (firstRound ++ .publish 0 0 :: secondRound ++ [.publish 0 0])).isSome := by
    decide +kernel
  have hv : contribution only firstRound 0 = some (0, bareBook 0) := by decide +kernel
  have hw : contribution only (firstRound ++ .publish 0 0 :: secondRound) 0 = some (2, bareBook 0) := by
    decide +kernel
  have hadvances := (contribution_advances (Option.some_get hsome).symm).2
  exact ⟨_, _, hv, hw, hadvances only firstRound 0 0 secondRound 0 0 [] _ _ rfl hv hw⟩

end System

end OrderbookAggregator
