import OrderbookAggregator.Library.LabelledRun
import OrderbookAggregator.Proof.Merge

/-!
# What the merger publishes

The store is overwritten by every book and loses what has gone stale. What is published does not
depend on that history of overwriting: it is the merge of the latest book of every exchange, as far
as these are fresh at the moment of the merge. As long as the clock does not run backwards, a book
that was evicted once would not be fresh later.
-/

namespace OrderbookAggregator

open LabelledRun

/-- The books received along a run, the latest at the end. -/
def receivedBooks (labels : List MergerLabel) : List OrderBook :=
  labels.filterMap fun
    | .recv (some book) => some book
    | _ => none

def clockReadings (labels : List MergerLabel) : List Instant :=
  labels.flatMap fun
    | .publish t0 t1 => [t0, t1]
    | _ => []

/-- The most recently received book of an exchange. -/
def latestBook (history : List OrderBook) (i : Fin maxExchanges) : Option OrderBook :=
  (history.filter fun book => decide (book.exchangeId.toNat = i.val)).getLast?

/-- The latest books, as far as they are fresh. -/
def freshStore (history : List OrderBook) (now : Instant) : BookStore where
  books i := (latestBook history i).filter fun book =>
    decide (now.since book.decodeStart ≤ staleThreshold)
  owner := by
    intro i book hbook
    have hmem := List.mem_of_getLast? (Option.eq_some_of_filter_eq_some hbook)
    simpa using (List.mem_filter.mp hmem).2

/-- What should be published along a run: at every merge, the merge of the fresh store. -/
def summaries (history : List OrderBook) : List MergerLabel → List Summary
  | [] => []
  | .recv (some book) :: labels => summaries (history ++ [book]) labels
  | .publish t0 _ :: labels => merge (freshStore history t0) :: summaries history labels
  | _ :: labels => summaries history labels

theorem latestBook_concat (history : List OrderBook) (book : OrderBook) (i : Fin maxExchanges) :
    latestBook (history ++ [book]) i
      = if book.exchangeId.toNat = i then some book else latestBook history i := by
  unfold latestBook
  rw [List.filter_append]
  by_cases hi : book.exchangeId.toNat = i
  · simp [hi]
  · simp [hi]

/-- What the store knows of the history: of every exchange the latest book, unless that book has
gone stale at one of the moments so far. -/
def Remembers (history : List OrderBook) (moments : List Instant) (store : BookStore) : Prop :=
  ∀ i, store.books i = latestBook history i
    ∨ (store.books i = none ∧ ∃ book ∈ latestBook history i, ∃ moment ∈ moments,
      staleThreshold < moment.since book.decodeStart)

theorem remembers_new : Remembers [] [] BookStore.new := fun _ => Or.inl rfl

theorem Remembers.mono {history : List OrderBook} {moments moments' : List Instant}
    {store : BookStore} (h : Remembers history moments store) (hsub : moments ⊆ moments') :
    Remembers history moments' store := by
  intro i
  refine (h i).imp_right ?_
  rintro ⟨hnone, book, hbook, moment, hmoment, hstale⟩
  exact ⟨hnone, book, hbook, moment, hsub hmoment, hstale⟩

/-- Inserting a book and evicting what is stale leaves the fresh store, whatever had been evicted
before. -/
theorem Remembers.insert_evictStale {history : List OrderBook} {moments : List Instant}
    {store : BookStore} (h : Remembers history moments store) (book : OrderBook) {now : Instant}
    (hclock : ∀ moment ∈ moments, moment ≤ now) :
    (store.insert book).evictStale now staleThreshold = freshStore (history ++ [book]) now := by
  ext1 i
  rw [BookStore.books_evictStale, BookStore.books_insert]
  change _ = (latestBook (history ++ [book]) i).filter _
  rw [latestBook_concat]
  by_cases hi : book.exchangeId.toNat = i
  · rw [if_pos hi, if_pos hi]
  · rw [if_neg hi, if_neg hi]
    rcases h i with hsame | ⟨hnone, book', hbook', moment, hmoment, hstale⟩
    · rw [hsame]
    · -- evicted: as stale now as it was then
      have hle : moment.since book'.decodeStart ≤ now.since book'.decodeStart :=
        Nat.sub_le_sub_right (hclock moment hmoment) _
      rw [hnone, Option.mem_def.mp hbook', Option.filter_none, Option.filter_some_neg]
      simpa using hstale.trans_le hle

theorem remembers_freshStore (history : List OrderBook) (now : Instant) :
    Remembers history [now] (freshStore history now) := by
  intro i
  change (latestBook history i).filter _ = _ ∨ (latestBook history i).filter _ = _ ∧ _
  cases hlatest : latestBook history i with
  | none => exact Or.inl rfl
  | some book =>
      by_cases hfresh : now.since book.decodeStart ≤ staleThreshold
      · exact Or.inl (Option.filter_some_pos (by simpa using hfresh))
      · refine Or.inr ⟨Option.filter_some_neg (by simpa using hfresh), book, rfl, now, by simp, ?_⟩
        exact Nat.not_le.mp hfresh

theorem summaries_append (history : List OrderBook) (labels labels' : List MergerLabel) :
    summaries history (labels ++ labels')
      = summaries history labels ++ summaries (history ++ receivedBooks labels) labels' := by
  induction labels generalizing history with
  | nil => simp [summaries, receivedBooks]
  | cons label labels ih =>
      rcases label with _ | _ | (_ | book) | ⟨t0, t1⟩ <;>
        simp [summaries, receivedBooks, ih]

/-- What holds along every run: the store remembers the books received, but for one that is still to
be inserted, and what was published is what should be. -/
structure RunInv (labels : List MergerLabel) (m : Merger) : Prop where
  published : m.published = summaries [] labels
  pending : ∀ i book, m.pc = .received i book → ∃ history,
    receivedBooks labels = history ++ [book] ∧ Remembers history (clockReadings labels) m.books
  settled : (∀ i book, m.pc ≠ .received i book) →
    Remembers (receivedBooks labels) (clockReadings labels) m.books

def ClockMonotone (labels : List MergerLabel) : Prop := (clockReadings labels).Pairwise (· ≤ ·)

theorem ClockMonotone.of_append {labels labels' : List MergerLabel}
    (h : ClockMonotone (labels ++ labels')) : ClockMonotone labels := by
  unfold ClockMonotone clockReadings at h ⊢
  rw [List.flatMap_append] at h
  exact (List.pairwise_append.mp h).1

theorem RunInv.quiet {labels : List MergerLabel} {m : Merger} (h : RunInv labels m)
    {label : MergerLabel} (hreceived : receivedBooks [label] = [])
    (hclock : clockReadings [label] = []) (hsummaries : ∀ history, summaries history [label] = [])
    (hpc : ∀ i book, m.pc ≠ .received i book) {pc : MergerPc}
    (hpc' : ∀ i book, pc ≠ .received i book) :
    RunInv (labels ++ [label]) { m with pc } := by
  have hbooks : receivedBooks (labels ++ [label]) = receivedBooks labels := by
    rw [receivedBooks, List.filterMap_append]
    exact (congrArg _ hreceived).trans (List.append_nil _)
  have hreadings : clockReadings (labels ++ [label]) = clockReadings labels := by
    rw [clockReadings, List.flatMap_append]
    exact (congrArg _ hclock).trans (List.append_nil _)
  refine ⟨?_, fun i book heq => absurd heq (hpc' i book), fun _ => ?_⟩
  · rw [summaries_append, hsummaries, List.append_nil]
    exact h.published
  · rw [hbooks, hreadings]
    exact h.settled hpc

theorem runInv_of_run {receivers : Nat} {labels : List MergerLabel} {m : Merger}
    (hrun : run (Merger.step receivers) .start labels = some m) (hclock : ClockMonotone labels) :
    RunInv labels m := by
  refine run_induction (fun labels m => ClockMonotone labels → RunInv labels m) ?_ ?_ hrun hclock
  · intro _
    exact ⟨rfl, by simp [Merger.start], fun _ => remembers_new⟩
  intro labels m label m' _ hinv hstep hclock
  have h := hinv hclock.of_append
  rcases Merger.step_cases hstep with ⟨cancelled, rfl, hpc, rfl⟩ | ⟨i, abandoned, rfl, hpc, rfl⟩ |
    ⟨i, rfl, hpc, rfl⟩ | ⟨i, book, rfl, hpc, rfl⟩ | ⟨i, book, t0, t1, rfl, hpc, rfl⟩
  · refine h.quiet rfl rfl (fun _ => rfl) (by simp [hpc]) fun j book => ?_
    split
    · simp
    · exact Merger.checkFrom_ne_received _ _ _ _
  · refine h.quiet rfl rfl (fun _ => rfl) (by simp [hpc]) fun j book => ?_
    split
    · exact Merger.checkFrom_ne_received _ _ _ _
    · exact Merger.pollFrom_ne_received _ _ _ _
  · exact h.quiet rfl rfl (fun _ => rfl) (by simp [hpc]) (Merger.pollFrom_ne_received _ _)
  · -- a book is received: it is pending until it is published
    refine ⟨?_, fun j book' heq => ?_, fun hne => absurd rfl (hne i book)⟩
    · rw [summaries_append]
      simpa [summaries] using h.published
    · obtain ⟨rfl, rfl⟩ : i = j ∧ book = book' := by simpa using heq
      refine ⟨receivedBooks labels, by simp [receivedBooks], ?_⟩
      have hsettled := h.settled (by simp [hpc])
      exact hsettled.mono (by simp [clockReadings])
  · -- the pending book is published
    obtain ⟨history, hhistory, hremembers⟩ := h.pending i book hpc
    have hmoments : ∀ moment ∈ clockReadings labels, moment ≤ t0 := by
      unfold ClockMonotone clockReadings at hclock
      rw [List.flatMap_append] at hclock
      intro moment hmoment
      exact (List.pairwise_append.mp hclock).2.2 moment hmoment t0 (by simp)
    have hstore := hremembers.insert_evictStale book hmoments
    rw [← hhistory] at hstore
    have hbooks : receivedBooks (labels ++ [.publish t0 t1]) = receivedBooks labels := by
      simp [receivedBooks]
    refine ⟨?_, fun j book' heq => absurd heq (Merger.pollFrom_ne_received _ _ _ _), fun _ => ?_⟩
    · rw [summaries_append]
      change m.published ++ [merge ((m.books.insert book).evictStale t0 staleThreshold)] = _
      rw [hstore, h.published]
      rfl
    · change Remembers _ _ ((m.books.insert book).evictStale t0 staleThreshold)
      rw [hstore, hbooks]
      exact (remembers_freshStore _ t0).mono (by simp [clockReadings])

/-- Only receiving a book leads to where a book is pending. -/
theorem Merger.step_to_received {receivers : Nat} {m m' : Merger} {label : MergerLabel} {i : Nat}
    {book : OrderBook} (h : step receivers m label = some m') (hpc : m'.pc = .received i book) :
    label = .recv (some book) := by
  rcases step_cases h with ⟨cancelled, rfl, -, rfl⟩ | ⟨j, abandoned, rfl, -, rfl⟩ |
    ⟨j, rfl, -, rfl⟩ | ⟨j, book', rfl, -, rfl⟩ | ⟨j, book', t0, t1, rfl, -, rfl⟩
  · dsimp only at hpc
    split at hpc
    · cases hpc
    · exact absurd hpc (checkFrom_ne_received _ _ _ _)
  · dsimp only at hpc
    split at hpc
    · exact absurd hpc (checkFrom_ne_received _ _ _ _)
    · exact absurd hpc (pollFrom_ne_received _ _ _ _)
  · exact absurd hpc (pollFrom_ne_received _ _ _ _)
  · cases hpc
    rfl
  · exact absurd hpc (pollFrom_ne_received _ _ _ _)

/-- From there only publishing is possible. -/
theorem Merger.step_from_received {receivers : Nat} {m m' : Merger} {label : MergerLabel} {i : Nat}
    {book : OrderBook} (h : step receivers m label = some m') (hpc : m.pc = .received i book) :
    ∃ t0 t1, label = .publish t0 t1 := by
  rcases step_cases h with ⟨_, rfl, hpc', -⟩ | ⟨_, _, rfl, hpc', -⟩ | ⟨_, rfl, hpc', -⟩ |
    ⟨_, _, rfl, hpc', -⟩ | ⟨_, _, t0, t1, rfl, -, -⟩
  · rw [hpc] at hpc'; cases hpc'
  · rw [hpc] at hpc'; cases hpc'
  · rw [hpc] at hpc'; cases hpc'
  · rw [hpc] at hpc'; cases hpc'
  · exact ⟨t0, t1, rfl⟩

theorem Merger.pc_of_recv_some {receivers : Nat} {m m' : Merger} {book : OrderBook}
    (h : step receivers m (.recv (some book)) = some m') : ∃ i, m'.pc = .received i book := by
  rcases step_cases h with ⟨_, heq, -⟩ | ⟨_, _, heq, -⟩ | ⟨_, heq, -⟩ | ⟨i, _, heq, -, rfl⟩ |
    ⟨_, _, _, _, heq, -⟩ <;> cases heq
  exact ⟨i, rfl⟩

theorem Merger.pc_of_publish {receivers : Nat} {m m' : Merger} {t0 t1 : Instant}
    (h : step receivers m (.publish t0 t1) = some m') : ∃ i book, m.pc = .received i book := by
  rcases step_cases h with ⟨_, heq, -⟩ | ⟨_, _, heq, -⟩ | ⟨_, heq, -⟩ | ⟨_, _, heq, -⟩ |
    ⟨i, book, _, _, -, hpc, -⟩
  · cases heq
  · cases heq
  · cases heq
  · cases heq
  · exact ⟨i, book, hpc⟩

/-- A book received is published by the very next step, and nothing else is published. -/
theorem receipt_then_publication {receivers : Nat} {labels : List MergerLabel} {m : Merger}
    (hrun : run (Merger.step receivers) .start labels = some m) :
    (∀ before book after, labels = before ++ .recv (some book) :: after →
      after = [] ∨ ∃ t0 t1 rest, after = .publish t0 t1 :: rest)
    ∧ ∀ before t0 t1 after, labels = before ++ .publish t0 t1 :: after →
      ∃ earlier book, before = earlier ++ [.recv (some book)] := by
  constructor
  · rintro before book after rfl
    obtain ⟨m₁, -, hrun⟩ := run_append_eq_some.mp hrun
    obtain ⟨m₂, hrecv, hrun⟩ := run_cons_eq_some.mp hrun
    obtain ⟨i, hpc⟩ := Merger.pc_of_recv_some hrecv
    cases after with
    | nil => exact Or.inl rfl
    | cons label rest =>
        obtain ⟨m₃, hstep, -⟩ := run_cons_eq_some.mp hrun
        obtain ⟨t0, t1, rfl⟩ := Merger.step_from_received hstep hpc
        exact Or.inr ⟨t0, t1, rest, rfl⟩
  · rintro before t0 t1 after rfl
    obtain ⟨m₁, hbefore, hrun⟩ := run_append_eq_some.mp hrun
    obtain ⟨m₂, hpublish, -⟩ := run_cons_eq_some.mp hrun
    obtain ⟨i, book, hpc⟩ := Merger.pc_of_publish hpublish
    cases before using List.reverseRecOn with
    | nil =>
        rw [run_nil, Option.some_inj] at hbefore
        subst hbefore
        cases hpc
    | append_singleton earlier label =>
        obtain ⟨m₀, -, hstep⟩ := run_concat_eq_some.mp hbefore
        exact ⟨earlier, book, by rw [Merger.step_to_received hstep hpc]⟩

/-- **Every published summary is the merge of the latest fresh books.** Every book received is
published once, at once; and what is published along a run is, at every merge, the merge of the
latest books received so far that are fresh at that moment. -/
theorem published_eq_summaries {receivers : Nat} {labels : List MergerLabel} {m : Merger}
    (hrun : run (Merger.step receivers) .start labels = some m) (hclock : ClockMonotone labels) :
    m.published = summaries [] labels
    ∧ (∀ before book after, labels = before ++ .recv (some book) :: after →
      after = [] ∨ ∃ t0 t1 rest, after = .publish t0 t1 :: rest)
    ∧ ∀ before t0 t1 after, labels = before ++ .publish t0 t1 :: after →
      ∃ earlier book, before = earlier ++ [.recv (some book)] :=
  ⟨(runInv_of_run hrun hclock).published, receipt_then_publication hrun⟩

/-- A book of one bid and, one price above it, one ask. -/
def narrowBook (exchangeId : ExchangeId) (price : UInt32) (decodeStart : Instant) : OrderBook :=
  { exchangeId
    bids := ⟨[⟨.ofUInt32 price, .ofUInt32 1⟩], show 1 ≤ depth by decide⟩
    asks := ⟨[⟨.ofUInt32 (price + 1), .ofUInt32 2⟩], show 1 ≤ depth by decide⟩
    decodeStart }

/-- A round of two receivers, with what each of them receives and when it is published. -/
def roundOfTwo (first second : Option (OrderBook × Instant × Instant)) : List MergerLabel :=
  let poll : Option (OrderBook × Instant × Instant) → List MergerLabel
    | none => [.recv none]
    | some (book, t0, t1) => [.recv (some book), .publish t0 t1]
  .isCancelled false :: .isAbandoned false :: (poll first ++ poll second)

/-- Both exchanges send a book; the first sends another; six seconds later the first sends again, and
the book of the second is evicted; then the second is back. -/
def eventfulRun : List MergerLabel :=
  roundOfTwo (some (narrowBook 0 100 0, 1, 2)) (some (narrowBook 1 101 3, 4, 5))
    ++ roundOfTwo (some (narrowBook 0 102 6, 7, 8)) none
    ++ roundOfTwo (some (narrowBook 0 103 6000000000, 6000000001, 6000000002)) none
    ++ roundOfTwo none (some (narrowBook 1 104 6000000003, 6000000004, 6000000005))

theorem isSome_eventfulRun : (run (Merger.step 2) .start eventfulRun).isSome := by decide +kernel

theorem eventfulRun_published :
    ∃ m, run (Merger.step 2) .start eventfulRun = some m
      ∧ m.published = summaries [] eventfulRun
      ∧ ∀ before t0 t1 after, eventfulRun = before ++ .publish t0 t1 :: after →
        ∃ earlier book, before = earlier ++ [.recv (some book)] := by
  have hrun := (Option.some_get isSome_eventfulRun).symm
  have hclock : ClockMonotone eventfulRun :=
    show (clockReadings eventfulRun).Pairwise (· ≤ ·) by decide
  have h := published_eq_summaries hrun hclock
  exact ⟨_, hrun, h.1, h.2.2⟩

end OrderbookAggregator
