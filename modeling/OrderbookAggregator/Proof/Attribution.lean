import OrderbookAggregator.Proof.Merge
import OrderbookAggregator.Server

/-!
# Whose levels are merged

The id of an exchange is carried by its book, by the place of the book in the store, by the slices
and by the merged levels. All of them agree, so that every level that is published has a name.
-/

namespace OrderbookAggregator

inductive StoreOp where
  | insert (book : OrderBook)
  | evictStale (now : Instant) (threshold : Duration)

namespace BookStore

def apply (store : BookStore) : StoreOp → BookStore
  | .insert book => store.insert book
  | .evictStale now threshold => store.evictStale now threshold

def after (ops : List StoreOp) : BookStore := ops.foldl apply .new

theorem after_concat (ops : List StoreOp) (op : StoreOp) :
    after (ops ++ [op]) = (after ops).apply op := by
  rw [after, List.foldl_append]
  rfl

end BookStore

/-- Whether an operation takes the book of exchange `i` away: by a newer one, or because it is
stale. -/
def StoreOp.Removes (i : Fin maxExchanges) (book : OrderBook) : StoreOp → Prop
  | .insert newer => newer.exchangeId.toNat = i
  | .evictStale now threshold => threshold < now.since book.decodeStart

/-- The latest book inserted for exchange `i`, if it was not evicted. -/
def Stands (ops : List StoreOp) (i : Fin maxExchanges) (book : OrderBook) : Prop :=
  ∃ before behind, ops = before ++ .insert book :: behind ∧ book.exchangeId.toNat = i
    ∧ ∀ op ∈ behind, ¬ op.Removes i book

theorem stands_concat {ops : List StoreOp} {op : StoreOp} {i : Fin maxExchanges} {book : OrderBook} :
    Stands (ops ++ [op]) i book
      ↔ (op = .insert book ∧ book.exchangeId.toNat = i)
        ∨ Stands ops i book ∧ ¬ op.Removes i book := by
  constructor
  · rintro ⟨before, behind, heq, hid, hstands⟩
    rcases List.eq_nil_or_concat behind with rfl | ⟨behind, last, rfl⟩
    · obtain ⟨rfl, hlast⟩ := List.append_inj' heq rfl
      cases hlast
      exact Or.inl ⟨rfl, hid⟩
    · rw [List.concat_eq_append, ← List.cons_append, ← List.append_assoc] at heq
      obtain ⟨rfl, hlast⟩ := List.append_inj' heq rfl
      cases hlast
      refine Or.inr ⟨⟨before, behind, rfl, hid, fun op' hop' => ?_⟩, hstands op (by simp)⟩
      exact hstands op' (by simp [hop'])
  · rintro (⟨rfl, hid⟩ | ⟨⟨before, behind, rfl, hid, hstands⟩, hremoves⟩)
    · exact ⟨ops, [], rfl, hid, by simp⟩
    · refine ⟨before, behind ++ [op], by simp, hid, fun op' hop' => ?_⟩
      rcases List.mem_append.mp hop' with hop' | hop'
      · exact hstands op' hop'
      · rwa [List.mem_singleton.mp hop']

theorem books_after_eq_some_iff {ops : List StoreOp} {i : Fin maxExchanges} {book : OrderBook} :
    (BookStore.after ops).books i = some book ↔ Stands ops i book := by
  induction ops using List.reverseRecOn generalizing book with
  | nil =>
      refine iff_of_false nofun ?_
      rintro ⟨before, behind, heq, -⟩
      simp at heq
  | append_singleton ops op ih =>
      rw [BookStore.after_concat, stands_concat, ← ih]
      cases op with
      | insert newer =>
          rw [BookStore.apply, BookStore.books_insert]
          have hremoves : (StoreOp.insert newer).Removes i book ↔ newer.exchangeId.toNat = i := Iff.rfl
          by_cases hnewer : newer.exchangeId.toNat = i
          · rw [if_pos hnewer, Option.some_inj, StoreOp.insert.injEq]
            constructor
            · rintro rfl
              exact Or.inl ⟨rfl, hnewer⟩
            · rintro (⟨rfl, -⟩ | ⟨-, hkept⟩)
              · rfl
              · exact absurd (hremoves.mpr hnewer) hkept
          · rw [if_neg hnewer, StoreOp.insert.injEq]
            constructor
            · intro hbook
              exact Or.inr ⟨hbook, fun h => hnewer (hremoves.mp h)⟩
            · rintro (⟨rfl, hid⟩ | ⟨hbook, -⟩)
              · exact absurd hid hnewer
              · exact hbook
      | evictStale now threshold =>
          rw [BookStore.apply, BookStore.books_evictStale, Option.filter_eq_some_iff,
            decide_eq_true_iff, ← Nat.not_lt]
          exact (or_iff_right fun h => nomatch h.1).symm

theorem exchangeName_of_lt {id : ExchangeId} (h : id.toNat < exchanges.length) :
    ∃ name, exchangeName id = .ok name := by
  refine ⟨exchanges[id.toNat], ?_⟩
  rw [exchangeName, indexed, List.getElem?_eq_getElem h]

theorem exists_mapM {α β : Type} {f : α → Exec β} {l : List α} (h : ∀ a ∈ l, ∃ b, f a = .ok b) :
    ∃ bs, l.mapM f = .ok bs ∧ List.Forall₂ (fun a b => f a = .ok b) l bs := by
  induction l with
  | nil => exact ⟨[], rfl, .nil⟩
  | cons a l ih =>
      obtain ⟨b, hb⟩ := h a List.mem_cons_self
      obtain ⟨bs, hbs, hall⟩ := ih fun other hother => h other (List.mem_cons_of_mem _ hother)
      refine ⟨b :: bs, ?_, .cons hb hall⟩
      rw [List.mapM_cons, hb, hbs]
      rfl

theorem exists_toProtoLevel {F : Type} (toF64 : FixedPoint → F) {level : Level}
    (h : level.exchangeId.toNat < exchanges.length) :
    ∃ converted, toProtoLevel toF64 level = .ok converted := by
  obtain ⟨name, hname⟩ := exchangeName_of_lt h
  refine ⟨⟨name, toF64 level.price, toF64 level.amount⟩, ?_⟩
  rw [toProtoLevel, hname]
  rfl

theorem mapM_toProtoLevel {F : Type} (toF64 : FixedPoint → F) {levels : List Level}
    (h : ∀ level ∈ levels, level.exchangeId.toNat < exchanges.length) :
    ∃ converted, levels.mapM (toProtoLevel toF64) = .ok converted
      ∧ List.Forall₂ (fun level converted => toProtoLevel toF64 level = .ok converted) levels
        converted :=
  exists_mapM fun level hlevel => exists_toProtoLevel toF64 (h level hlevel)

/-- **Every level is attributed to its exchange.** A store, whatever was inserted and evicted, holds
the latest books that were not evicted, each at the index that is its id; an insert with an id out of
range changes nothing, one with an id in range only the entry of that id. So every merged level is a
level of the standing book of the exchange whose id it carries, and converting the summary does not
panic. -/
theorem attribution (ops : List StoreOp) :
    (∀ i book, (BookStore.after ops).books i = some book ↔ Stands ops i book)
    ∧ (∀ i book, (BookStore.after ops).books i = some book → book.exchangeId.toNat = i)
    ∧ (∀ book : OrderBook, maxExchanges ≤ book.exchangeId.toNat →
      (BookStore.after ops).insert book = BookStore.after ops)
    ∧ (∀ book : OrderBook, book.exchangeId.toNat < maxExchanges → ∀ i,
      ((BookStore.after ops).insert book).books i
        = if book.exchangeId.toNat = i then some book else (BookStore.after ops).books i)
    ∧ (∀ level ∈ (merge (BookStore.after ops)).bids.toList,
      level.exchangeId.toNat < exchanges.length
      ∧ ∃ i book, level.exchangeId.toNat = i.val ∧ Stands ops i book ∧ level.raw ∈ book.bids.toList)
    ∧ (∀ level ∈ (merge (BookStore.after ops)).asks.toList,
      level.exchangeId.toNat < exchanges.length
      ∧ ∃ i book, level.exchangeId.toNat = i.val ∧ Stands ops i book ∧ level.raw ∈ book.asks.toList)
    ∧ ∀ (F : Type) (toF64 : FixedPoint → F) (spreadToF64 : Int → F),
      ∃ summary, toProto toF64 spreadToF64 (merge (BookStore.after ops)) = .ok summary := by
  have hbids : ∀ level ∈ (merge (BookStore.after ops)).bids.toList,
      level.exchangeId.toNat < exchanges.length
      ∧ ∃ i book, level.exchangeId.toNat = i.val ∧ Stands ops i book
        ∧ level.raw ∈ book.bids.toList := by
    intro level hlevel
    obtain ⟨i, book, hbook, hid, hraw⟩ := mem_merge_bids hlevel
    exact ⟨hid ▸ i.isLt, i, book, hid, books_after_eq_some_iff.mp hbook, hraw⟩
  have hasks : ∀ level ∈ (merge (BookStore.after ops)).asks.toList,
      level.exchangeId.toNat < exchanges.length
      ∧ ∃ i book, level.exchangeId.toNat = i.val ∧ Stands ops i book
        ∧ level.raw ∈ book.asks.toList := by
    intro level hlevel
    obtain ⟨i, book, hbook, hid, hraw⟩ := mem_merge_asks hlevel
    exact ⟨hid ▸ i.isLt, i, book, hid, books_after_eq_some_iff.mp hbook, hraw⟩
  refine ⟨fun _ _ => books_after_eq_some_iff, (BookStore.after ops).owner, ?_, ?_, hbids, hasks, ?_⟩
  · intro book hid
    exact dif_neg (Nat.not_lt.mpr hid)
  · intro book _ i
    exact BookStore.books_insert _ book i
  · intro F toF64 spreadToF64
    obtain ⟨bids, hbids, -⟩ := mapM_toProtoLevel toF64 fun level hlevel => (hbids level hlevel).1
    obtain ⟨asks, hasks, -⟩ := mapM_toProtoLevel toF64 fun level hlevel => (hasks level hlevel).1
    refine ⟨⟨spreadToF64 (merge (BookStore.after ops)).spreadRaw, bids, asks⟩, ?_⟩
    rw [toProto, hbids, hasks]
    rfl

end OrderbookAggregator
