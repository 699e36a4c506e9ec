import OrderbookAggregator.Proof.FusedDecimal

/-!
# What an array of levels is

The reader of levels stops at the closing bracket, or already behind the comma of the level that
fills its vector; what follows that comma is never looked at. So what it accepts is no whole array
but the beginning of one, with the byte that ended the reading as its last.
-/

namespace OrderbookAggregator.Scanner

open Scan

/-- The levels that are read when `count` levels that count have been read before, and the byte that
ends the reading. Before the last level there was room for one more. -/
structure LevelRun (N count : Nat) (texts : List (Bytes × Bytes)) (list : List RawLevel)
    (ending : UInt8) : Prop where
  nonempty : texts ≠ []
  spells : List.Forall₂ Spells texts list
  room : count + (list.dropLast.filter NonZero).length < N
  ends : ending = Ascii.closeBracket
    ∨ ending = Ascii.comma ∧ count + (list.filter NonZero).length = N

/-- The levels, separated by commas, and the byte that ends the reading. -/
def runText (texts : List (Bytes × Bytes)) (ending : UInt8) : Bytes :=
  List.intercalate [Ascii.comma] (texts.map levelText) ++ [ending]

/-- What is consumed of an array of which the levels `levels` are kept. -/
inductive ArrayRead (N : Nat) : Bytes → List RawLevel → Prop
  | empty : ArrayRead N [Ascii.openBracket, Ascii.closeBracket] []
  | levels {texts : List (Bytes × Bytes)} {list : List RawLevel} {ending : UInt8} :
      LevelRun N 0 texts list ending →
      ArrayRead N ([Ascii.openBracket] ++ runText texts ending) (list.filter NonZero)

theorem runText_singleton (text : Bytes × Bytes) (ending : UInt8) :
    runText [text] ending = levelText text ++ [ending] := by
  simp [runText]

theorem runText_cons {texts : List (Bytes × Bytes)} (hne : texts ≠ []) (text : Bytes × Bytes)
    (ending : UInt8) :
    runText (text :: texts) ending = levelText text ++ ([Ascii.comma] ++ runText texts ending) := by
  obtain ⟨next, texts, rfl⟩ := List.exists_cons_of_ne_nil hne
  simp [runText, List.intercalate]

theorem head?_runText_append {texts : List (Bytes × Bytes)} (hne : texts ≠ []) (ending : UInt8)
    (tail : Bytes) : (runText texts ending ++ tail).head? = some Ascii.openBracket := by
  obtain ⟨text, texts, rfl⟩ := List.exists_cons_of_ne_nil hne
  cases texts with
  | nil => rw [runText_singleton]; rfl
  | cons next texts => rw [runText_cons (List.cons_ne_nil _ _)]; rfl

namespace LevelRun

variable {N count : Nat} {text : Bytes × Bytes} {texts : List (Bytes × Bytes)} {level : RawLevel}
  {list : List RawLevel} {ending : UInt8}

theorem single (hlevel : Spells text level) (hroom : count < N)
    (hends : ending = Ascii.closeBracket
      ∨ ending = Ascii.comma ∧ count + ([level].filter NonZero).length = N) :
    LevelRun N count [text] [level] ending where
  nonempty := List.cons_ne_nil _ _
  spells := .cons hlevel .nil
  room := hroom
  ends := hends

theorem length_filter_cons (level : RawLevel) (list : List RawLevel) :
    ((level :: list).filter NonZero).length
      = ([level].filter NonZero).length + (list.filter NonZero).length := by
  rw [← List.length_append, ← List.filter_append]
  rfl

theorem list_ne_nil (h : LevelRun N count texts list ending) : list ≠ [] := by
  intro hnil
  apply h.nonempty
  have hlength := h.spells.length_eq
  rw [hnil, List.length_nil] at hlength
  exact List.length_eq_zero_iff.mp hlength

theorem cons (hlevel : Spells text level)
    (h : LevelRun N (count + ([level].filter NonZero).length) texts list ending) :
    LevelRun N count (text :: texts) (level :: list) ending where
  nonempty := List.cons_ne_nil _ _
  spells := .cons hlevel h.spells
  room := by
    rw [List.dropLast_cons_of_ne_nil h.list_ne_nil, length_filter_cons, ← Nat.add_assoc]
    exact h.room
  ends := by
    rw [length_filter_cons, ← Nat.add_assoc]
    exact h.ends

theorem tail (hne : texts ≠ []) (h : LevelRun N count (text :: texts) (level :: list) ending) :
    LevelRun N (count + ([level].filter NonZero).length) texts list ending := by
  have hspells := (List.forall₂_cons.mp h.spells).2
  have hlist : list ≠ [] := by
    rintro rfl
    exact hne (List.forall₂_nil_right_iff.mp hspells)
  have hroom := h.room
  have hends := h.ends
  rw [List.dropLast_cons_of_ne_nil hlist, length_filter_cons, ← Nat.add_assoc] at hroom
  rw [length_filter_cons, ← Nat.add_assoc] at hends
  exact ⟨hne, hspells, hroom, hends⟩

end LevelRun

/-! ### Accepting -/

/-- What one round has in front of it, if the reader goes on behind a comma. -/
theorem readRawLevels.loop_of_levelText {N : Nat} {levels levels' : ArrayVec RawLevel N}
    {text : Bytes × Bytes} {level : RawLevel} (hlevel : Spells text level)
    (hpush : pushNonZero levels level = some levels') {s : Scanner} (hsmall : s.Small)
    {byte : UInt8} {tail : Bytes} (hrest : s.rest = levelText text ++ byte :: tail) :
    readRawLevels.loop levels s =
      if byte = Ascii.comma then
        if levels'.len = N then .ok (some levels', s.advance (levelText text ++ [byte]).length)
        else readRawLevels.loop levels' (s.advance (levelText text ++ [byte]).length)
      else if byte = Ascii.closeBracket then
        .ok (some levels', s.advance (levelText text ++ [byte]).length)
      else .ok (none, s.advance (levelText text).length) := by
  have hread := reads_readLevel hlevel _ s hsmall hrest
  have hpeek : (s.advance (levelText text).length).peek = some byte := by
    rw [peek_eq_head?, rest_advance_of_append hrest]
    rfl
  rw [readRawLevels.loop_of_readLevel hread hpush hpeek, advance_advance, List.length_append,
    List.length_singleton]

theorem reads_run {N : Nat} {texts : List (Bytes × Bytes)} {list : List RawLevel}
    {levels : ArrayVec RawLevel N} {ending : UInt8}
    (hrun : LevelRun N levels.len texts list ending) (tail : Bytes) :
    ∃ out, out.toList = levels.toList ++ list.filter NonZero
      ∧ Reads (readRawLevels.loop levels) (runText texts ending) tail out := by
  induction texts generalizing list levels with
  | nil => exact absurd rfl hrun.nonempty
  | cons text texts ih =>
      obtain ⟨level, list, hlevel, -, rfl⟩ := List.forall₂_cons_left_iff.mp hrun.spells
      have hroom : levels.len < N := (Nat.le_add_right _ _).trans_lt hrun.room
      obtain ⟨levels', hpush, hout⟩ := exists_pushNonZero hroom level
      have hlen : levels'.len = levels.len + ([level].filter NonZero).length := by
        rw [ArrayVec.len, hout, List.length_append]
        rfl
      by_cases hne : texts = []
      · subst hne
        obtain rfl : list = [] := List.forall₂_nil_left_iff.mp (List.forall₂_cons.mp hrun.spells).2
        refine ⟨levels', hout, fun s hsmall hrest => ?_⟩
        rw [runText_singleton] at hrest ⊢
        rw [List.append_assoc] at hrest
        rw [readRawLevels.loop_of_levelText hlevel hpush hsmall hrest]
        rcases hrun.ends with rfl | ⟨rfl, hfull⟩
        · rw [if_neg (by decide), if_pos rfl]
        · rw [if_pos rfl, if_pos (hlen.trans hfull)]
      · have hrun' := hrun.tail hne
        rw [← hlen] at hrun'
        have hroom' : levels'.len ≠ N := ((Nat.le_add_right _ _).trans_lt hrun'.room).ne
        obtain ⟨out, hout', hreads⟩ := ih hrun'
        refine ⟨out, ?_, fun s hsmall hrest => ?_⟩
        · rw [hout', hout, List.append_assoc, ← List.filter_append]
          rfl
        · rw [runText_cons hne] at hrest ⊢
          rw [List.append_assoc, List.append_assoc] at hrest
          have hbehind : (s.advance (levelText text ++ [Ascii.comma]).length).rest
              = runText texts ending ++ tail :=
            rest_advance_of_append (hrest.trans (List.append_assoc _ _ _).symm)
          rw [readRawLevels.loop_of_levelText hlevel hpush hsmall hrest, if_pos rfl, if_neg hroom',
            hreads (s.advance _) hsmall hbehind, advance_advance, ← List.length_append,
            List.append_assoc]

theorem reads_arrayRead {N : Nat} {consumed : Bytes} {out : ArrayVec RawLevel N}
    (hread : ArrayRead N consumed out.toList) (tail : Bytes) :
    Reads (readRawLevels N) consumed tail out := by
  generalize hlist : out.toList = list at hread
  cases hread with
  | empty =>
      obtain rfl : out = .empty := ArrayVec.ext hlist
      refine (reads_require _ _).bind fun s _ hrest => ?_
      have hpeek : s.peek = some Ascii.closeBracket := by
        rw [peek_eq_head?, hrest]
        rfl
      exact if_pos hpeek
  | levels hrun =>
      obtain ⟨out', hout, hreads⟩ := @reads_run N _ _ .empty _ hrun tail
      obtain rfl : out' = out := ArrayVec.ext (hout.trans hlist.symm)
      refine (reads_require _ _).bind fun s hsmall hrest => ?_
      have hpeek : s.peek ≠ some Ascii.closeBracket := by
        rw [peek_eq_head?, hrest, head?_runText_append hrun.nonempty]
        decide
      exact (if_neg hpeek).trans (hreads s hsmall hrest)

/-! ### Rejecting -/

theorem consumes_readLevel : Consumes readLevel fun text _ level =>
    ∃ texts, text = levelText texts ∧ Spells texts level := by
  refine ((consumes_require _).bind fun _ => consumes_readQuotedDecimal.bind fun price =>
    (consumes_require _).bind fun _ => consumes_readQuotedDecimal.bind fun amount =>
      (consumes_require _).bind fun _ => consumes_pure _).mono ?_
  rintro _ _ _ ⟨_, _, _, rfl, rfl, _, _, price, rfl, ⟨priceText, rfl, hprice⟩, _, _, _, rfl, rfl,
    _, _, amount, rfl, ⟨amountText, rfl, hamount⟩, _, _, _, rfl, rfl, rfl, rfl⟩
  exact ⟨(priceText, amountText), rfl, hprice, hamount⟩

/-- While there is room the loop reads a run of levels. -/
theorem consumes_loop {N : Nat} {levels : ArrayVec RawLevel N} (hroom : levels.len < N) :
    Consumes (readRawLevels.loop levels) fun text _ out => ∃ texts list ending,
      text = runText texts ending ∧ LevelRun N levels.len texts list ending
        ∧ out.toList = levels.toList ++ list.filter NonZero := by
  intro s out s'' h
  -- every round that goes on has moved the cursor
  induction hmeasure : s.buf.length - s.pos using Nat.strong_induction_on generalizing levels s with
  | _ n ih =>
    rw [readRawLevels.loop_eq] at h
    split at h
    · cases h
    · cases h
    rename_i level s' hlevel
    have hforward := forward_readLevel hlevel
    obtain ⟨_, tail, hrest, rfl, text, rfl, hspells⟩ := consumes_readLevel hlevel
    obtain ⟨levels', hpush, hout⟩ := exists_pushNonZero hroom level
    have hlen : levels'.len = levels.len + ([level].filter NonZero).length := by
      rw [ArrayVec.len, hout, List.length_append]
      rfl
    rw [hpush] at h
    dsimp only at h
    split at h
    · cases h
    rename_i byte hpeek
    have htail : ∃ behind, tail = byte :: behind := by
      rw [peek_eq_head?, rest_advance_of_append hrest, List.head?_eq_some_iff] at hpeek
      exact hpeek
    obtain ⟨behind, rfl⟩ := htail
    have hrest' : s.rest = runText [text] byte ++ behind := by
      rw [runText_singleton, hrest, List.append_assoc]
      rfl
    have hadvance : (s.advance (levelText text).length).advance 1
        = s.advance (runText [text] byte).length := by
      rw [advance_advance, runText_singleton, List.length_append, List.length_singleton]
    split at h
    · rename_i hcomma
      subst hcomma
      split at h
      · rename_i hfull
        cases h
        refine ⟨_, behind, hrest', hadvance, [text], [level], _, rfl, ?_, hout⟩
        exact .single hspells hroom (Or.inr ⟨rfl, hlen ▸ hfull⟩)
      · rename_i hnotFull
        have hroom' : levels'.len < N := lt_of_le_of_ne levels'.length_le hnotFull
        have hlt := lt_length_of_peek hpeek
        rw [buf_advance, pos_advance] at hlt
        have hmoved : ((s.advance (levelText text).length).advance 1).buf.length
            - ((s.advance (levelText text).length).advance 1).pos < n := by
          simp only [advance_advance, buf_advance, pos_advance]
          omega
        obtain ⟨_, tail, hbehind, rfl, texts, list, ending, rfl, hrun, hout'⟩ :=
          ih _ hmoved hroom' h rfl
        rw [hadvance, rest_advance_of_append hrest'] at hbehind
        subst hbehind
        rw [hlen] at hrun
        refine ⟨_, tail, ?_, ?_, text :: texts, level :: list, ending, rfl, hrun.cons hspells, ?_⟩
        · rw [hrest', runText_singleton, runText_cons hrun.nonempty]
          simp only [List.append_assoc]
        · rw [hadvance, advance_advance, runText_singleton, runText_cons hrun.nonempty]
          simp only [List.length_append, Nat.add_assoc]
        · rw [hout', hout, List.append_assoc, ← List.filter_append]
          rfl
    · split at h
      · rename_i hclose
        cases h
        refine ⟨_, behind, hrest', hadvance, [text], [level], _, rfl, ?_, hout⟩
        exact .single hspells hroom (Or.inl hclose)
      · cases h

theorem consumes_readRawLevels {N : Nat} (hN : 0 < N) :
    Consumes (readRawLevels N) fun text _ out => ArrayRead N text out.toList := by
  intro s out s'' h
  rcases bind_eq_ok.mp h with ⟨-, hnone⟩ | ⟨_, s', hopen, h⟩
  · cases hnone
  obtain ⟨_, tail, hrest, rfl, rfl⟩ := consumes_require _ hopen
  have hbehind : (s.advance 1).rest = tail := rest_advance_of_append hrest
  change (if (s.advance 1).peek = some Ascii.closeBracket then _ else _) = _ at h
  split at h
  · rename_i hpeek
    cases h
    rw [peek_eq_head?, hbehind, List.head?_eq_some_iff] at hpeek
    obtain ⟨tail, rfl⟩ := hpeek
    exact ⟨_, tail, hrest, rfl, .empty⟩
  · obtain ⟨_, tail', hrest', rfl, texts, list, ending, rfl, hrun, hout⟩ :=
      consumes_loop (show ArrayVec.empty.len < N from hN) h
    have htail : tail = runText texts ending ++ tail' := hbehind.symm.trans hrest'
    refine ⟨[Ascii.openBracket] ++ runText texts ending, tail', ?_, ?_, ?_⟩
    · rw [hrest, htail, List.append_assoc]
    · rw [advance_advance, List.length_append]
    · change ArrayRead N _ out.toList
      rw [hout]
      exact .levels hrun

/-! ### Both -/

theorem ArrayRead.length_le {N : Nat} {consumed : Bytes} {list : List RawLevel}
    (h : ArrayRead N consumed list) : list.length ≤ N := by
  cases h with
  | empty => exact Nat.zero_le _
  | @levels texts list ending hrun =>
      have hlast := List.dropLast_append_getLast hrun.list_ne_nil
      have hroom := hrun.room
      rw [Nat.zero_add] at hroom
      calc (list.filter NonZero).length
          = ((list.dropLast ++ [list.getLast hrun.list_ne_nil]).filter NonZero).length := by
            rw [hlast]
        _ ≤ (list.dropLast.filter NonZero).length + 1 := by
            rw [List.filter_append, List.length_append]
            exact Nat.add_le_add_left (List.length_filter_le _ _) _
        _ ≤ N := hroom

theorem exists_readRawLevels {N : Nat} {s : Scanner} (hsmall : s.Small) :
    ∃ result, readRawLevels N s = .ok result := by
  by_cases hinside : s.Inside
  · obtain ⟨o, s', hread, -⟩ := staysInside_readRawLevels N s hsmall hinside
    exact ⟨(o, s'), hread⟩
  · -- behind the end there is no bracket to open the array
    have hpeek : s.peek ≠ some Ascii.openBracket := fun h => hinside (lt_length_of_peek h).le
    have hrequire : require Ascii.openBracket s = .ok (none, s) := by
      rw [require, expectByte, if_neg hpeek]
    exact ⟨(none, s), bind_of_none hrequire⟩

/-- **Arrays of levels, exactly.** The reader succeeds on the beginnings of arrays, keeps the levels
that count and stops just behind the byte that ended the reading. Everything else it rejects. -/
theorem readRawLevels_exact {N : Nat} (hN : 0 < N) {s : Scanner} (hsmall : s.Small) :
    (∀ out s', readRawLevels N s = .ok (some out, s') ↔ ∃ consumed tail, s.rest = consumed ++ tail
        ∧ s' = s.advance consumed.length ∧ ArrayRead N consumed out.toList)
      ∧ ((¬ ∃ consumed tail list, s.rest = consumed ++ tail ∧ ArrayRead N consumed list) →
        ∃ s', readRawLevels N s = .ok (none, s'))
      ∧ ∀ consumed list, ArrayRead N consumed list → list.length ≤ N := by
  refine ⟨fun out s' => ⟨fun h => ?_, ?_⟩, fun hnone => ?_, fun _ _ h => h.length_le⟩
  · exact consumes_readRawLevels hN h
  · rintro ⟨consumed, tail, hrest, rfl, hread⟩
    exact reads_arrayRead hread tail s hsmall hrest
  · obtain ⟨⟨o, s'⟩, hread⟩ := @exists_readRawLevels N s hsmall
    cases o with
    | none => exact ⟨s', hread⟩
    | some out =>
        obtain ⟨consumed, tail, hrest, -, harray⟩ := consumes_readRawLevels hN hread
        exact absurd ⟨consumed, tail, out.toList, hrest, harray⟩ hnone

/-- Behind the comma of the level that fills the vector, anything may stand. -/
theorem readRawLevels_exact_full :
    readRawLevels 1 (.new (bytes "[[\"2\",\"3\"],?"))
      = .ok (some ⟨[⟨⟨200000000, by norm_num⟩, ⟨300000000, by norm_num⟩⟩], le_rfl⟩,
        ⟨bytes "[[\"2\",\"3\"],?", 11⟩) := by
  have hrun : LevelRun 1 0 [(bytes "2", bytes "3")]
      [⟨⟨200000000, by norm_num⟩, ⟨300000000, by norm_num⟩⟩] Ascii.comma :=
    .single ⟨by decide, by decide⟩ (by decide) (by decide)
  have hsmall : (Scanner.new (bytes "[[\"2\",\"3\"],?")).Small :=
    show (bytes "[[\"2\",\"3\"],?").length < 2 ^ 32 by decide
  exact ((readRawLevels_exact Nat.one_pos hsmall).1 _ _).mpr
    ⟨bytes "[[\"2\",\"3\"],", bytes "?", by decide, by decide, .levels hrun⟩

end OrderbookAggregator.Scanner
