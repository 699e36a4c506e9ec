import OrderbookAggregator.Proof.Merge
import OrderbookAggregator.Proof.MergerRun

/-!
# How old a summary on offer can be

Books are evicted when something is merged, and something is merged when a book is received. So a
round of the loop in which a book is received leaves a summary without stale levels. A round without
one leaves the summary that was there.
-/

namespace OrderbookAggregator

open LabelledRun

/-- No level of the summary is of an exchange whose most recently received book is stale. -/
def NotStale (history : List OrderBook) (now : Instant) (summary : Summary) : Prop :=
  ∀ level, level ∈ summary.bids.toList ∨ level ∈ summary.asks.toList →
    ∀ i : Fin maxExchanges, level.exchangeId.toNat = i → ∀ book ∈ latestBook history i,
      now.since book.decodeStart ≤ staleThreshold

/-- The merge of the fresh store has no stale levels, now or earlier. -/
theorem notStale_merge_freshStore {history : List OrderBook} {now moment : Instant}
    (hnow : now ≤ moment) : NotStale history now (merge (freshStore history moment)) := by
  intro level hlevel i hid book hbook
  have hfresh : ∃ i book, (freshStore history moment).books i = some book
      ∧ level.exchangeId.toNat = i.val := by
    rcases hlevel with hlevel | hlevel
    · obtain ⟨j, other, hother, hj, -⟩ := mem_merge_bids hlevel
      exact ⟨j, other, hother, hj⟩
    · obtain ⟨j, other, hother, hj, -⟩ := mem_merge_asks hlevel
      exact ⟨j, other, hother, hj⟩
  obtain ⟨j, other, hother, hj⟩ := hfresh
  obtain rfl : i = j := Fin.ext (hid.symm.trans hj)
  obtain ⟨hlatest, hage⟩ := Option.filter_eq_some_iff.mp hother
  rw [Option.mem_def.mp hbook, Option.some_inj] at hlatest
  subst hlatest
  exact (Nat.sub_le_sub_right hnow _).trans (of_decide_eq_true hage)

/-- Where no book is pending, what was published last since some moment is the merge of the store
that was fresh then. -/
theorem getLast?_published {receivers : Nat} {before round : List MergerLabel} {m₀ m : Merger}
    (hbefore : run (Merger.step receivers) .start before = some m₀)
    (hround : run (Merger.step receivers) m₀ round = some m)
    (hclock : ClockMonotone (before ++ round)) (hpc : ∀ i book, m.pc ≠ .received i book)
    (hreceived : receivedBooks round ≠ []) :
    ∃ moment ∈ clockReadings round, m.published.getLast?
      = some (merge (freshStore (receivedBooks (before ++ round)) moment)) := by
  refine run_induction (fun round m => ClockMonotone (before ++ round) →
    (∀ i book, m.pc ≠ .received i book) → receivedBooks round ≠ [] →
    ∃ moment ∈ clockReadings round, m.published.getLast?
      = some (merge (freshStore (receivedBooks (before ++ round)) moment))) ?_ ?_
    hround hclock hpc hreceived
  · intro _ _ hreceived
    exact absurd rfl hreceived
  intro round m label m' hround ih hstep hclock hpc' hreceived
  have hrun := run_append_eq_some.mpr ⟨m₀, hbefore, hround⟩
  rw [← List.append_assoc] at hclock
  have hquiet (hbooks : receivedBooks [label] = []) (hpc : ∀ i book, m.pc ≠ .received i book)
      (hpublished : m'.published = m.published) : ∃ moment ∈ clockReadings (round ++ [label]),
      m'.published.getLast?
        = some (merge (freshStore (receivedBooks (before ++ (round ++ [label]))) moment)) := by
    have hsame (labels : List MergerLabel) :
        receivedBooks (labels ++ [label]) = receivedBooks labels := by
      rw [receivedBooks, List.filterMap_append]
      exact (congrArg _ hbooks).trans (List.append_nil _)
    rw [hsame] at hreceived
    obtain ⟨moment, hmoment, hlast⟩ := ih hclock.of_append hpc hreceived
    refine ⟨moment, ?_, ?_⟩
    · rw [clockReadings, List.flatMap_append]
      exact List.mem_append_left _ hmoment
    · rw [← List.append_assoc, hsame, hpublished, hlast]
  rcases Merger.step_cases hstep with ⟨cancelled, rfl, hpc, rfl⟩ | ⟨i, abandoned, rfl, hpc, rfl⟩ |
    ⟨i, rfl, hpc, rfl⟩ | ⟨i, book, rfl, hpc, rfl⟩ | ⟨i, book, t0, t1, rfl, hpc, rfl⟩
  · exact hquiet rfl (by simp [hpc]) rfl
  · exact hquiet rfl (by simp [hpc]) rfl
  · exact hquiet rfl (by simp [hpc]) rfl
  · exact absurd rfl (hpc' i book)
  · -- the pending book is published, and what is published is what should be
    have hinv := runInv_of_run (run_concat_eq_some.mpr ⟨m, hrun, hstep⟩) hclock
    refine ⟨t0, by simp [clockReadings], ?_⟩
    rw [hinv.published, summaries_append, ← List.append_assoc]
    simp [summaries, receivedBooks]

theorem published_of_receivedBooks_eq_nil {receivers : Nat} {round : List MergerLabel}
    {m₀ m : Merger} (hround : run (Merger.step receivers) m₀ round = some m)
    (hstart : ∀ i book, m₀.pc ≠ .received i book) (hreceived : receivedBooks round = []) :
    m.published = m₀.published ∧ ∀ i book, m.pc ≠ .received i book := by
  refine run_induction (fun round m => receivedBooks round = [] →
    m.published = m₀.published ∧ ∀ i book, m.pc ≠ .received i book) (fun _ => ⟨rfl, hstart⟩) ?_
    hround hreceived
  intro round m label m' _ ih hstep hreceived
  rw [receivedBooks, List.filterMap_append, List.append_eq_nil_iff] at hreceived
  obtain ⟨hpublished, hpending⟩ := ih hreceived.1
  rcases Merger.step_cases hstep with ⟨cancelled, rfl, hpc, rfl⟩ | ⟨i, abandoned, rfl, hpc, rfl⟩ |
    ⟨i, rfl, hpc, rfl⟩ | ⟨i, book, rfl, hpc, rfl⟩ | ⟨i, book, t0, t1, rfl, hpc, rfl⟩
  · refine ⟨hpublished, fun j book => ?_⟩
    cases cancelled
    · exact Merger.checkFrom_ne_received _ _ _ _
    · rintro ⟨⟩
  · refine ⟨hpublished, fun j book => ?_⟩
    cases abandoned
    · exact Merger.pollFrom_ne_received _ _ _ _
    · exact Merger.checkFrom_ne_received _ _ _ _
  · exact ⟨hpublished, Merger.pollFrom_ne_received _ _⟩
  · cases hreceived.2
  · exact absurd hpc (hpending i book)

/-- **How stale the summary on offer can be.** From one loop head to a later one, the clock standing
at `now` at the first: if a book is received in between, the summary on offer at the second has no
level of an exchange whose latest book is stale at `now`. If none is, it is the one that was on offer
at the first. -/
theorem round_notStale {receivers : Nat} {before round : List MergerLabel} {m₀ m : Merger}
    {now : Instant} (hbefore : run (Merger.step receivers) .start before = some m₀)
    (hround : run (Merger.step receivers) m₀ round = some m)
    (hstart : m₀.pc = .loopHead) (hend : m.pc = .loopHead)
    (hclock : (clockReadings before ++ now :: clockReadings round).Pairwise (· ≤ ·)) :
    (receivedBooks round ≠ [] → ∃ summary, m.published.getLast? = some summary
      ∧ NotStale (receivedBooks (before ++ round)) now summary)
    ∧ (receivedBooks round = [] → m.published = m₀.published) := by
  have hmonotone : ClockMonotone (before ++ round) := by
    unfold ClockMonotone clockReadings
    rw [List.flatMap_append]
    exact hclock.sublist ((List.Sublist.refl _).append (List.sublist_cons_self _ _))
  constructor
  · intro hreceived
    obtain ⟨moment, hmoment, hlast⟩ :=
      getLast?_published hbefore hround hmonotone (by simp [hend]) hreceived
    have hnow : now ≤ moment :=
      (List.pairwise_cons.mp (List.pairwise_append.mp hclock).2.1).1 moment hmoment
    exact ⟨_, hlast, notStale_merge_freshStore hnow⟩
  · intro hreceived
    exact (published_of_receivedBooks_eq_nil hround (by simp [hstart]) hreceived).1

/-- Both exchanges send a book. -/
def bothSend : List MergerLabel :=
  roundOfTwo (some (narrowBook 0 100 0, 1, 2)) (some (narrowBook 1 101 3, 4, 5))

/-- More than five seconds later only the first exchange does. -/
def oneSends : List MergerLabel :=
  roundOfTwo (some (narrowBook 0 102 6000000000, 6000000001, 6000000002)) none

theorem oneSends_notStale :
    ∃ m₀ m summary, run (Merger.step 2) .start bothSend = some m₀
      ∧ run (Merger.step 2) m₀ oneSends = some m
      ∧ m.published.getLast? = some summary
      ∧ (∃ book ∈ latestBook (receivedBooks (bothSend ++ oneSends)) ⟨1, by decide⟩,
        staleThreshold < Instant.since 6000000000 book.decodeStart)
      ∧ NotStale (receivedBooks (bothSend ++ oneSends)) 6000000000 summary := by
  obtain ⟨summary, hlast, hfresh⟩ := (@round_notStale 2 bothSend oneSends _ _ 6000000000 rfl rfl rfl
    rfl (show [1, 2, 4, 5, 6000000000, 6000000001, 6000000002].Pairwise (· ≤ ·) by decide)).1
    (List.cons_ne_nil _ _)
  exact ⟨_, _, summary, rfl, rfl, hlast, ⟨narrowBook 1 101 3, rfl, by decide⟩, hfresh⟩

def singleBid : OrderBook :=
  { exchangeId := 0
    bids := ⟨[⟨.ofUInt32 4, .ofUInt32 1⟩], by decide⟩
    asks := .empty
    decodeStart := 0 }

/-- A round of one receiver in which a book is received. -/
def receivingRound (book : OrderBook) (t0 t1 : Instant) : List MergerLabel :=
  [.isCancelled false, .isAbandoned false, .recv (some book), .publish t0 t1]

/-- A round of one receiver in which nothing is received. -/
def silentRound : List MergerLabel := [.isCancelled false, .isAbandoned false, .recv none]

def afterFirstRound : Merger := Merger.start.publish singleBid 1 2

/-- Six seconds after its only book was received, the bid is still on offer. -/
theorem silentRound_stale :
    run (Merger.step 1) .start (receivingRound singleBid 1 2) = some afterFirstRound
    ∧ run (Merger.step 1) afterFirstRound silentRound = some afterFirstRound
    ∧ afterFirstRound.pc = .loopHead
    ∧ (clockReadings (receivingRound singleBid 1 2) ++ 6 * 10 ^ 9 :: clockReadings silentRound).Pairwise
      (· ≤ ·)
    ∧ ∃ summary, afterFirstRound.published.getLast? = some summary
      ∧ ¬ NotStale (receivedBooks (receivingRound singleBid 1 2 ++ silentRound)) (6 * 10 ^ 9)
        summary := by
  refine ⟨rfl, rfl, rfl, show [1, 2, 6000000000].Pairwise (· ≤ ·) by decide, _, rfl, fun h => ?_⟩
  have hage := h ⟨.ofUInt32 4, .ofUInt32 1, 0⟩ (Or.inl (by decide +kernel)) ⟨0, by decide⟩ rfl
    singleBid (by decide +kernel)
  exact absurd hage (by decide +kernel)

end OrderbookAggregator
