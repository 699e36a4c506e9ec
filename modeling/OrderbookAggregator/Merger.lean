import OrderbookAggregator.Metrics
import OrderbookAggregator.Types

/-!
# The merger

`src/merger.rs`: the store of the latest books, the merge of their sides and the loop of the merger
thread. What the thread gets from the slots and from the cancellation token is part of the labels of
its steps, so that the loop can be studied by itself and together with the slots.
-/

namespace OrderbookAggregator

def maxExchanges : Nat := exchanges.length

def staleThreshold : Duration := 5 * 10 ^ 9

/-! ### The store -/

/-- The latest book of each exchange, at the index that is the exchange's id. -/
structure BookStore where
  books : Fin maxExchanges → Option OrderBook
  owner : ∀ i book, books i = some book → book.exchangeId.toNat = i
  deriving DecidableEq

namespace BookStore

@[ext]
theorem ext {store store' : BookStore} (h : ∀ i, store.books i = store'.books i) :
    store = store' := by
  cases store; cases store'; cases funext h; rfl

def new : BookStore := ⟨fun _ => none, by simp⟩

/-- A book with an id past the last index is dropped. -/
def insert (store : BookStore) (book : OrderBook) : BookStore :=
  if h : book.exchangeId.toNat < maxExchanges then
    { books := Function.update store.books ⟨book.exchangeId.toNat, h⟩ (some book)
      owner := by
        intro i book' hbook'
        by_cases hi : i = ⟨book.exchangeId.toNat, h⟩
        · subst hi
          rw [Function.update_self, Option.some_inj] at hbook'
          exact congrArg (fun book => book.exchangeId.toNat) hbook'.symm
        · rw [Function.update_of_ne hi] at hbook'
          exact store.owner i book' hbook' }
  else store

/-- The populated books, in the order of their indices. -/
def iter (store : BookStore) : List OrderBook := (List.finRange maxExchanges).filterMap store.books

def evictStale (store : BookStore) (now : Instant) (threshold : Duration) : BookStore where
  books i :=
    match store.books i with
    | none => none
    | some book => if threshold < now.since book.decodeStart then none else some book
  owner := by
    intro i book hbook
    split at hbook
    · cases hbook
    · rename_i book' hbooks
      split at hbook
      · cases hbook
      · cases hbook
        exact store.owner i book hbooks

theorem books_insert (store : BookStore) (book : OrderBook) (i : Fin maxExchanges) :
    (store.insert book).books i
      = if book.exchangeId.toNat = i then some book else store.books i := by
  unfold insert
  split
  · rename_i h
    dsimp only
    rw [Function.update_apply]
    simp only [Fin.ext_iff, eq_comm]
  · rename_i h
    rw [if_neg fun heq : book.exchangeId.toNat = i => h (heq ▸ i.isLt)]

theorem books_evictStale (store : BookStore) (now : Instant) (threshold : Duration)
    (i : Fin maxExchanges) :
    (store.evictStale now threshold).books i
      = (store.books i).filter fun book => decide (now.since book.decodeStart ≤ threshold) := by
  unfold evictStale
  dsimp only
  cases store.books i with
  | none => rfl
  | some book =>
      rw [Option.filter_some]
      by_cases h : threshold < now.since book.decodeStart
      · simp [h]
      · simp [h, Nat.not_lt.mp h]

theorem iter_length_le (store : BookStore) : store.iter.length ≤ maxExchanges := by
  have hle := List.length_filterMap_le store.books (List.finRange maxExchanges)
  rwa [List.length_finRange] at hle

end BookStore

/-! ### Merging -/

/-- The levels of one exchange, before the exchange is stamped onto them. -/
structure TaggedSlice where
  exchangeId : ExchangeId
  levels : List RawLevel
  deriving DecidableEq

namespace mergeTopN

variable (slices : List TaggedSlice) (cmp : RawLevel → RawLevel → Ordering)

/-- The level under the cursor of a slice, unless the slice is exhausted. -/
def current (cursors : Fin slices.length → Nat) (i : Fin slices.length) : Option RawLevel :=
  (slices.get i).levels[cursors i]?

/-- One round of the inner loop: `best` is the best slice so far, with the level under its cursor. A
later slice takes its place only with a level that is strictly less. -/
def consider (cursors : Fin slices.length → Nat) (best : Option (Fin slices.length × RawLevel))
    (i : Fin slices.length) : Option (Fin slices.length × RawLevel) :=
  match current slices cursors i with
  | none => best
  | some level =>
    match best with
    | none => some (i, level)
    | some (b, bestLevel) => if (cmp level bestLevel).isLT then some (i, level) else some (b, bestLevel)

/-- The inner loop. -/
def select (cursors : Fin slices.length → Nat) : Option (Fin slices.length × RawLevel) :=
  (List.finRange slices.length).foldl (consider slices cmp cursors) none

/-- The outer loop. -/
def loop : (n : Nat) → (Fin slices.length → Nat) → ArrayVec Level depth → ArrayVec Level depth
  | 0, _, result => result
  | n + 1, cursors, result =>
    match select slices cmp cursors with
    | none => result
    | some (i, raw) =>
      match result.tryPush ⟨raw.price, raw.amount, (slices.get i).exchangeId⟩ with
      | none => result
      | some result => loop n (Function.update cursors i (cursors i + 1)) result

end mergeTopN

def mergeTopN (slices : ArrayVec TaggedSlice maxExchanges) (cmp : RawLevel → RawLevel → Ordering)
    (n : Nat) : ArrayVec Level depth :=
  mergeTopN.loop slices.toList cmp n (fun _ => 0) .empty

/-- Bids: highest price first, then largest amount. -/
def bidCmp (a b : RawLevel) : Ordering := (b.price.cmp a.price).then (b.amount.cmp a.amount)

/-- Asks: lowest price first, then largest amount. -/
def askCmp (a b : RawLevel) : Ordering := (a.price.cmp b.price).then (b.amount.cmp a.amount)

/-- `let _ = slices.try_push(slice)`. -/
def pushSlice (slices : ArrayVec TaggedSlice maxExchanges) (slice : TaggedSlice) :
    ArrayVec TaggedSlice maxExchanges :=
  (slices.tryPush slice).getD slices

def merge (store : BookStore) : Summary :=
  let (bidSlices, askSlices) := store.iter.foldl
    (fun slices book => (pushSlice slices.1 ⟨book.exchangeId, book.bids.toList⟩,
      pushSlice slices.2 ⟨book.exchangeId, book.asks.toList⟩)) (.empty, .empty)
  let bids := mergeTopN bidSlices bidCmp depth
  let asks := mergeTopN askSlices askCmp depth
  let spreadRaw := match asks.toList.head?, bids.toList.head? with
    | some ask, some bid => wrappingSubI64 (asI64 ask.price.raw) (asI64 bid.price.raw)
    | _, _ => 0
  { spreadRaw, bids, asks }

/-! ### The thread -/

inductive ExitReason where
  | cancelled
  | allDropped
  deriving DecidableEq, Repr

/-- Where the thread stands: at the head of the loop, in `all(is_abandoned)` before the check of
receiver `i`, in the `for` loop before or behind its `recv`, or behind the loop. -/
inductive MergerPc where
  | loopHead
  | checking (i : Nat)
  | polling (i : Nat)
  | received (i : Nat) (book : OrderBook)
  | exited (reason : ExitReason)
  deriving DecidableEq

structure Merger where
  pc : MergerPc
  books : BookStore
  published : List Summary
  e2eLatency : PromHistogram
  merges : Nat
  deriving DecidableEq

/-- What the thread does next, with what it learns by it: two clock readings when it publishes. -/
inductive MergerLabel where
  | isCancelled (cancelled : Bool)
  | isAbandoned (abandoned : Bool)
  | recv (result : Option OrderBook)
  | publish (t0 t1 : Instant)
  deriving DecidableEq

namespace Merger

def start : Merger :=
  { pc := .loopHead, books := .new, published := [], e2eLatency := .new, merges := 0 }

/-- All receivers were abandoned when there is none left to check. -/
def checkFrom (receivers i : Nat) : MergerPc :=
  if i < receivers then .checking i else .exited .allDropped

def pollFrom (receivers i : Nat) : MergerPc := if i < receivers then .polling i else .loopHead

/-- The body of `if let Some(book) = receiver.recv()`, in one step: the states between the send and
the writes to the metrics, which other threads may see, are not states of the merger. -/
def publish (m : Merger) (book : OrderBook) (t0 t1 : Instant) : Merger :=
  let books := (m.books.insert book).evictStale t0 staleThreshold
  { m with
    books
    published := m.published ++ [merge books]
    e2eLatency := m.e2eLatency.record (t1.since book.decodeStart)
    merges := fetchAddU64 m.merges 1 }

/-- One step of `run_spsc` with the given number of receivers. -/
def step (receivers : Nat) (m : Merger) : MergerLabel → Option Merger
  | .isCancelled cancelled =>
    match m.pc with
    | .loopHead =>
      some { m with pc := if cancelled then .exited .cancelled else checkFrom receivers 0 }
    | _ => none
  | .isAbandoned abandoned =>
    match m.pc with
    | .checking i =>
      some { m with pc := if abandoned then checkFrom receivers (i + 1) else pollFrom receivers 0 }
    | _ => none
  | .recv result =>
    match m.pc with
    | .polling i =>
      some { m with pc := match result with
        | none => pollFrom receivers (i + 1)
        | some book => .received i book }
    | _ => none
  | .publish t0 t1 =>
    match m.pc with
    | .received i book => some { m.publish book t0 t1 with pc := pollFrom receivers (i + 1) }
    | _ => none

/-- Everything a step can be. -/
theorem step_cases {receivers : Nat} {m m' : Merger} {label : MergerLabel}
    (h : step receivers m label = some m') :
    (∃ cancelled, label = .isCancelled cancelled ∧ m.pc = .loopHead
      ∧ m' = { m with pc := if cancelled then .exited .cancelled else checkFrom receivers 0 })
    ∨ (∃ i abandoned, label = .isAbandoned abandoned ∧ m.pc = .checking i
      ∧ m' = { m with
          pc := if abandoned then checkFrom receivers (i + 1) else pollFrom receivers 0 })
    ∨ (∃ i, label = .recv none ∧ m.pc = .polling i
      ∧ m' = { m with pc := pollFrom receivers (i + 1) })
    ∨ (∃ i book, label = .recv (some book) ∧ m.pc = .polling i
      ∧ m' = { m with pc := .received i book })
    ∨ (∃ i book t0 t1, label = .publish t0 t1 ∧ m.pc = .received i book
      ∧ m' = { m.publish book t0 t1 with pc := pollFrom receivers (i + 1) }) := by
  cases label with
  | isCancelled cancelled =>
      rw [step] at h
      split at h <;> simp_all
  | isAbandoned abandoned =>
      rw [step] at h
      split at h <;> simp_all
  | recv result =>
      rw [step] at h
      cases result with
      | none => split at h <;> simp_all
      | some book => split at h <;> simp_all
  | publish t0 t1 =>
      rw [step] at h
      split at h <;> simp_all

theorem checkFrom_ne_received (receivers i j : Nat) (book : OrderBook) :
    checkFrom receivers i ≠ .received j book := by
  unfold checkFrom
  split <;> simp

theorem pollFrom_ne_received (receivers i j : Nat) (book : OrderBook) :
    pollFrom receivers i ≠ .received j book := by
  unfold pollFrom
  split <;> simp

end Merger

end OrderbookAggregator
