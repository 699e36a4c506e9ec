import OrderbookAggregator.Proof.Attribution
import OrderbookAggregator.Proof.F64
import OrderbookAggregator.Proof.Spread
import OrderbookAggregator.Server

/-!
# What clients are promised

`proto/orderbook.proto` documents a message in terms of its doubles. It is made of a summary in fixed
point, whose order the conversion keeps; and as long as no two prices become the same double, what is
said of equal prices and of the spread holds as well.
-/

namespace OrderbookAggregator

/-! ### The spread -/

theorem F64.round_neg (x : ℚ) : F64.round (-x) = -F64.round x := Rounding.roundTo_neg x

theorem F64.round_zero : F64.round 0 = 0 := Rounding.roundTo_zero

namespace FixedPoint

theorem spreadToF64_neg (raw : Int) : spreadToF64 (-raw) = -spreadToF64 raw := by
  rw [spreadToF64, spreadToF64, Int.cast_neg, F64.round_neg, neg_div, F64.round_neg]

theorem spreadToF64_zero : spreadToF64 0 = 0 := by
  rw [spreadToF64, Int.cast_zero, F64.round_zero, zero_div, F64.round_zero]

theorem spreadToF64_pos {raw : Int} (h : 0 < raw) : 0 < spreadToF64 raw := by
  have hround {x : ℚ} (hx : 0 < x) : 0 < F64.round x :=
    (zpow_pos two_pos _).trans_le (Rounding.zpow_le_roundTo (by decide) hx)
  rw [spreadToF64, F64.round_scale]
  exact hround (div_pos (hround (Int.cast_pos.mpr h)) scale_pos)

/-- The spread keeps its sign. -/
theorem spreadToF64_pos_iff {raw : Int} : 0 < spreadToF64 raw ↔ 0 < raw := by
  refine ⟨fun h => ?_, spreadToF64_pos⟩
  rcases lt_trichotomy raw 0 with hneg | rfl | hpos
  · have hopposite := spreadToF64_pos (neg_pos.mpr hneg)
    rw [spreadToF64_neg] at hopposite
    linarith
  · rw [spreadToF64_zero] at h
    exact absurd h (lt_irrefl 0)
  · exact hpos

theorem spreadToF64_neg_iff {raw : Int} : spreadToF64 raw < 0 ↔ raw < 0 := by
  rw [← neg_pos, ← spreadToF64_neg, spreadToF64_pos_iff, neg_pos]

theorem abs_spreadToF64_sub_le {raw : Int} (h : |raw| < 2 ^ 26 * scale) :
    |spreadToF64 raw - raw / scale| ≤ 1 / 2 ^ 28 := by
  have hscale := scale_pos
  have hcast : |(raw : ℚ)| < 2 ^ 26 * scale := by exact_mod_cast h
  have hexact : F64.round raw = raw := by
    refine Rounding.roundTo_intCast (h.trans ?_)
    rw [scale]
    norm_num
  have hlt : |(raw / scale : ℚ)| < 2 ^ (26 : ℤ) := by
    rw [abs_div, abs_of_pos hscale, div_lt_iff₀ hscale]
    exact_mod_cast hcast
  rw [spreadToF64, hexact, F64.round_scale]
  refine (Rounding.abs_roundTo_sub_le_zpow hlt).trans_eq ?_
  norm_num

theorem abs_toF64_sub_le {a : FixedPoint} (h : a.raw < 2 ^ 26 * scale) :
    |a.toF64 - a.raw / scale| ≤ 1 / 2 ^ 28 := by
  have hspread : a.toF64 = spreadToF64 a.raw := by rw [toF64, spreadToF64, Int.cast_natCast]
  have habs : |(a.raw : Int)| < 2 ^ 26 * scale := by
    rw [Nat.abs_cast]
    exact_mod_cast h
  rw [hspread, ← Int.cast_natCast (R := ℚ) a.raw]
  exact abs_spreadToF64_sub_le habs

end FixedPoint

/-! ### The sides -/

section Sides

open Merging Std

theorem bidCmp_le_iff {a b : RawLevel} : Le bidCmp a b
    ↔ b.price.raw < a.price.raw ∨ b.price.raw = a.price.raw ∧ b.amount.raw ≤ a.amount.raw := by
  rw [Le, bidCmp, Ordering.isLE_then_iff_or, FixedPoint.cmp, FixedPoint.cmp, compare_lt_iff_lt,
    Std.compare_eq_iff_eq, isLE_compare]

theorem askCmp_le_iff {a b : RawLevel} : Le askCmp a b
    ↔ a.price.raw < b.price.raw ∨ a.price.raw = b.price.raw ∧ b.amount.raw ≤ a.amount.raw := by
  rw [Le, askCmp, Ordering.isLE_then_iff_or, FixedPoint.cmp, FixedPoint.cmp, compare_lt_iff_lt,
    Std.compare_eq_iff_eq, isLE_compare]

/-- The top of a sorted side is sorted. -/
theorem ordered_take_stableSort {cmp : RawLevel → RawLevel → Ordering} [TransCmp cmp] (n : Nat)
    (levels : List Level) :
    ((stableSort (byExchange cmp) levels).take n).Pairwise fun a b => Le cmp a.raw b.raw := by
  have htrans (a b c : Level) (hab : (byExchange cmp a b).isLE) (hbc : (byExchange cmp b c).isLE) :
      (byExchange cmp a c).isLE := TransCmp.isLE_trans hab hbc
  have htotal (a b : Level) : ((byExchange cmp a b).isLE || (byExchange cmp b a).isLE) := by
    rw [Bool.or_eq_true]
    by_cases hle : Le (byExchange cmp) a b
    · exact Or.inl hle
    · exact Or.inr (le_of_not_le hle)
  have hsorted := List.pairwise_mergeSort htrans htotal levels
  refine (hsorted.imp fun {a b} hle => ?_).sublist (List.take_sublist n _)
  exact (Ordering.isLE_then_iff_and.mp hle).1

end Sides

/-- The doubles of a level. -/
def ProtoLevel.figures (level : ProtoLevel ℚ) : ℚ × ℚ := (level.price, level.amount)

def Level.figures (level : Level) : ℚ × ℚ := (level.price.toF64, level.amount.toF64)

/-- The level of a message that the conversion makes of a level. -/
structure Level.ShownAs (level : Level) (converted : ProtoLevel ℚ) : Prop where
  exchange : exchanges[level.exchangeId.toNat]? = some converted.exchange
  figures : converted.figures = level.figures

theorem shownAs_of_toProtoLevel {level : Level} {converted : ProtoLevel ℚ}
    (h : toProtoLevel FixedPoint.toF64 level = .ok converted) : level.ShownAs converted := by
  rw [toProtoLevel, exchangeName, indexed] at h
  cases hname : exchanges[level.exchangeId.toNat]? with
  | none =>
      rw [hname] at h
      cases h
  | some name =>
      rw [hname] at h
      cases h
      exact ⟨hname, rfl⟩

theorem exists_converted {levels : List Level}
    (h : ∀ level ∈ levels, level.exchangeId.toNat < exchanges.length) :
    ∃ converted, levels.mapM (toProtoLevel FixedPoint.toF64) = .ok converted
      ∧ List.Forall₂ Level.ShownAs levels converted := by
  obtain ⟨converted, hconverted, hall⟩ := mapM_toProtoLevel FixedPoint.toF64 h
  exact ⟨converted, hconverted, hall.imp fun _ _ => shownAs_of_toProtoLevel⟩

theorem figures_of_shownAs {levels : List Level} {converted : List (ProtoLevel ℚ)}
    (h : List.Forall₂ Level.ShownAs levels converted) :
    converted.map ProtoLevel.figures = levels.map Level.figures := by
  induction h with
  | nil => rfl
  | cons hlevel _ ih => rw [List.map_cons, List.map_cons, hlevel.figures, ih]

/-! ### The message -/

/-- Descending prices, and at equal price descending amounts. -/
def BidBefore (a b : ℚ × ℚ) : Prop := b.1 < a.1 ∨ b.1 = a.1 ∧ b.2 ≤ a.2

/-- Ascending prices, and at equal price descending amounts. -/
def AskBefore (a b : ℚ × ℚ) : Prop := a.1 < b.1 ∨ a.1 = b.1 ∧ b.2 ≤ a.2

/-- The comments of the message definition. -/
structure ProtoSummary.Documented (message : ProtoSummary ℚ) : Prop where
  topBids : message.bids.length ≤ 10
  topAsks : message.asks.length ≤ 10
  bids : (message.bids.map ProtoLevel.figures).Pairwise BidBefore
  asks : (message.asks.map ProtoLevel.figures).Pairwise AskBefore
  /-- Zero if either side is empty. -/
  zero : message.bids = [] ∨ message.asks = [] → message.spread = 0
  /-- Best ask minus best bid, up to the rounding of the three. -/
  spread : ∀ bid ∈ message.bids.head?, ∀ ask ∈ message.asks.head?,
    |message.spread - (ask.price - bid.price)| ≤ 3 / 2 ^ 28
  /-- Negative if the book is crossed. -/
  crossed : ∀ bid ∈ message.bids.head?, ∀ ask ∈ message.asks.head?,
    (message.spread < 0 ↔ ask.price < bid.price) ∧ (0 < message.spread ↔ bid.price < ask.price)

/-- The prices are below `2^26`. -/
def OrderBook.Moderate (book : OrderBook) : Prop :=
  ∀ level ∈ book.bids.toList ++ book.asks.toList, level.price.raw < 2 ^ 26 * scale

instance : DecidablePred OrderBook.Moderate :=
  fun book => inferInstanceAs (Decidable (∀ level ∈ book.bids.toList ++ book.asks.toList, _))

theorem bidBefore_of_le {a b : Level} (hle : Merging.Le bidCmp a.raw b.raw)
    (ha : a.price.raw < 2 ^ 26 * scale) : BidBefore a.figures b.figures := by
  rcases bidCmp_le_iff.mp hle with hlt | ⟨heq, hamount⟩
  · exact Or.inl (FixedPoint.toF64_lt_toF64 hlt ha)
  · exact Or.inr ⟨congrArg FixedPoint.toF64 (FixedPoint.ext heq), FixedPoint.toF64_mono hamount⟩

theorem askBefore_of_le {a b : Level} (hle : Merging.Le askCmp a.raw b.raw)
    (hb : b.price.raw < 2 ^ 26 * scale) : AskBefore a.figures b.figures := by
  rcases askCmp_le_iff.mp hle with hlt | ⟨heq, hamount⟩
  · exact Or.inl (FixedPoint.toF64_lt_toF64 hlt hb)
  · exact Or.inr ⟨congrArg FixedPoint.toF64 (FixedPoint.ext heq), FixedPoint.toF64_mono hamount⟩

theorem merge_bids_moderate {store : BookStore} (h : ∀ book ∈ store.iter, book.Moderate)
    {level : Level} (hlevel : level ∈ (merge store).bids.toList) :
    level.price.raw < 2 ^ 26 * scale := by
  obtain ⟨i, book, hbook, -, hraw⟩ := mem_merge_bids hlevel
  exact h book (BookStore.mem_iter.mpr ⟨i, hbook⟩) level.raw (List.mem_append_left _ hraw)

theorem merge_asks_moderate {store : BookStore} (h : ∀ book ∈ store.iter, book.Moderate)
    {level : Level} (hlevel : level ∈ (merge store).asks.toList) :
    level.price.raw < 2 ^ 26 * scale := by
  obtain ⟨i, book, hbook, -, hraw⟩ := mem_merge_asks hlevel
  exact h book (BookStore.mem_iter.mpr ⟨i, hbook⟩) level.raw (List.mem_append_right _ hraw)

/-- Moderate prices are subtracted without overflow. -/
theorem spreadRaw_of_heads {store : BookStore} {bid ask : Level}
    (hbid : (merge store).bids.toList.head? = some bid)
    (hask : (merge store).asks.toList.head? = some ask) (hbidLt : bid.price.raw < 2 ^ 26 * scale)
    (haskLt : ask.price.raw < 2 ^ 26 * scale) :
    (merge store).spreadRaw = ask.price.raw - bid.price.raw := by
  have hsmall : 2 ^ 26 * scale < 2 ^ 63 := by decide
  rw [spreadRaw_eq, hbid, hask]
  have hboth : ask.price.raw < 2 ^ 63 ↔ bid.price.raw < 2 ^ 63 :=
    iff_of_true (haskLt.trans hsmall) (hbidLt.trans hsmall)
  exact ((wrappingSubI64_asI64_iff ask.price.lt bid.price.lt).mpr hboth).2

theorem spread_near {bid ask : Level} (hbid : bid.price.raw < 2 ^ 26 * scale)
    (hask : ask.price.raw < 2 ^ 26 * scale) :
    |FixedPoint.spreadToF64 (ask.price.raw - bid.price.raw) - (ask.price.toF64 - bid.price.toF64)|
      ≤ 3 / 2 ^ 28 := by
  have habs : |(ask.price.raw - bid.price.raw : Int)| < 2 ^ 26 * scale := by
    rw [abs_lt]
    constructor <;> omega
  have hspread := abs_le.mp (FixedPoint.abs_spreadToF64_sub_le habs)
  have hbidNear := abs_le.mp (FixedPoint.abs_toF64_sub_le hbid)
  have haskNear := abs_le.mp (FixedPoint.abs_toF64_sub_le hask)
  push_cast at hspread
  rw [sub_div] at hspread
  rw [abs_le]
  constructor <;> linarith [hspread.1, hspread.2, hbidNear.1, hbidNear.2, haskNear.1, haskNear.2]

theorem head?_of_figures {converted : List (ProtoLevel ℚ)} {levels : List Level}
    (h : converted.map ProtoLevel.figures = levels.map Level.figures) {first : ProtoLevel ℚ}
    (hfirst : first ∈ converted.head?) :
    ∃ level, levels.head? = some level ∧ first.price = level.price.toF64 := by
  have hheads := congrArg List.head? h
  rw [List.head?_map, List.head?_map, hfirst, Option.map_some] at hheads
  obtain ⟨level, hlevel, hfigures⟩ := Option.map_eq_some_iff.mp hheads.symm
  exact ⟨level, hlevel, (congrArg Prod.fst hfigures).symm⟩

/-- **Messages are as documented**, if the books are strict and their prices are below `2^26`: the
levels of the message are those of the summary, under the names of their exchanges, and they have the
order and the spread that the comments tell. -/
theorem toProto_documented {store : BookStore} (hstrict : ∀ book ∈ store.iter, book.Strict)
    (hmoderate : ∀ book ∈ store.iter, book.Moderate) :
    ∃ message, toProto FixedPoint.toF64 FixedPoint.spreadToF64 (merge store) = .ok message
      ∧ List.Forall₂ Level.ShownAs (merge store).bids.toList message.bids
      ∧ List.Forall₂ Level.ShownAs (merge store).asks.toList message.asks
      ∧ message.Documented := by
  obtain ⟨hbids, hasks⟩ := merge_eq_take store hstrict
  have hbidNames : ∀ level ∈ (merge store).bids.toList,
      level.exchangeId.toNat < exchanges.length := by
    intro level hlevel
    obtain ⟨i, -, -, hid, -⟩ := mem_merge_bids hlevel
    exact hid ▸ i.isLt
  have haskNames : ∀ level ∈ (merge store).asks.toList,
      level.exchangeId.toNat < exchanges.length := by
    intro level hlevel
    obtain ⟨i, -, -, hid, -⟩ := mem_merge_asks hlevel
    exact hid ▸ i.isLt
  obtain ⟨bids, hbidsOk, hbidsShown⟩ := exists_converted hbidNames
  obtain ⟨asks, hasksOk, hasksShown⟩ := exists_converted haskNames
  have hbidFigures := figures_of_shownAs hbidsShown
  have haskFigures := figures_of_shownAs hasksShown
  refine ⟨⟨FixedPoint.spreadToF64 (merge store).spreadRaw, bids, asks⟩, ?_, hbidsShown, hasksShown, ?_⟩
  · rw [toProto, hbidsOk, hasksOk]
    rfl
  have hheads : ∀ bid ∈ bids.head?, ∀ ask ∈ asks.head?, ∃ bidLevel askLevel : Level,
      bid.price = bidLevel.price.toF64 ∧ ask.price = askLevel.price.toF64
        ∧ bidLevel.price.raw < 2 ^ 26 * scale ∧ askLevel.price.raw < 2 ^ 26 * scale
        ∧ (merge store).spreadRaw = askLevel.price.raw - bidLevel.price.raw := by
    intro bid hbid ask hask
    obtain ⟨bidLevel, hbidHead, hbidPrice⟩ := head?_of_figures hbidFigures hbid
    obtain ⟨askLevel, haskHead, haskPrice⟩ := head?_of_figures haskFigures hask
    have hbidLt := merge_bids_moderate hmoderate (List.mem_of_head? hbidHead)
    have haskLt := merge_asks_moderate hmoderate (List.mem_of_head? haskHead)
    exact ⟨bidLevel, askLevel, hbidPrice, haskPrice, hbidLt, haskLt,
      spreadRaw_of_heads hbidHead haskHead hbidLt haskLt⟩
  refine ⟨?_, ?_, ?_, ?_, ?_, fun bid hbid ask hask => ?_, fun bid hbid ask hask => ?_⟩
  · have hlength := congrArg List.length hbidFigures
    rw [List.length_map, List.length_map] at hlength
    exact hlength.trans_le (merge store).bids.length_le
  · have hlength := congrArg List.length haskFigures
    rw [List.length_map, List.length_map] at hlength
    exact hlength.trans_le (merge store).asks.length_le
  · have hsorted := @ordered_take_stableSort bidCmp _ depth store.allBids
    rw [← hbids] at hsorted
    rw [hbidFigures, List.pairwise_map]
    exact hsorted.imp_of_mem fun ha _ hle => bidBefore_of_le hle (merge_bids_moderate hmoderate ha)
  · have hsorted := @ordered_take_stableSort askCmp _ depth store.allAsks
    rw [← hasks] at hsorted
    rw [haskFigures, List.pairwise_map]
    exact hsorted.imp_of_mem fun _ hb hle => askBefore_of_le hle (merge_asks_moderate hmoderate hb)
  · intro (hempty : bids = [] ∨ asks = [])
    have hnone : (merge store).bids.toList = [] ∨ (merge store).asks.toList = [] := by
      refine hempty.imp (fun hnil => ?_) fun hnil => ?_
      · rw [hnil] at hbidFigures
        exact List.map_eq_nil_iff.mp hbidFigures.symm
      · rw [hnil] at haskFigures
        exact List.map_eq_nil_iff.mp haskFigures.symm
    have hspread : (merge store).spreadRaw = 0 := by
      rw [spreadRaw_eq]
      rcases hnone with hnil | hnil
      · rw [hnil]
        cases (merge store).asks.toList.head? <;> rfl
      · rw [hnil]
        rfl
    rw [hspread]
    exact FixedPoint.spreadToF64_zero
  · obtain ⟨bidLevel, askLevel, hbid, hask, hbidLt, haskLt, hspread⟩ := hheads bid hbid ask hask
    rw [hspread, hbid, hask]
    exact spread_near hbidLt haskLt
  · obtain ⟨bidLevel, askLevel, hbid, hask, hbidLt, haskLt, hspread⟩ := hheads bid hbid ask hask
    rw [hspread, hbid, hask, FixedPoint.spreadToF64_neg_iff, FixedPoint.spreadToF64_pos_iff,
      FixedPoint.toF64_lt_iff hbidLt, FixedPoint.toF64_lt_iff haskLt]
    omega

theorem oneBookStore_moderate : ∀ book ∈ oneBookStore.iter, book.Moderate := by
  decide +kernel

theorem toProto_documented_oneBook :
    ∃ message, toProto FixedPoint.toF64 FixedPoint.spreadToF64 (merge oneBookStore) = .ok message
      ∧ List.Forall₂ Level.ShownAs (merge oneBookStore).bids.toList message.bids
      ∧ List.Forall₂ Level.ShownAs (merge oneBookStore).asks.toList message.asks
      ∧ message.Documented :=
  toProto_documented oneBookStore_strict oneBookStore_moderate

end OrderbookAggregator
