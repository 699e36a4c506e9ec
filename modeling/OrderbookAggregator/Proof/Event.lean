import OrderbookAggregator.Library.JsonKeys
import OrderbookAggregator.Proof.Bitstamp

/-!
# Messages without a timestamp

The walk over a Bitstamp message searches for its keys without parsing JSON. In a JSON text, what it
finds are keys all the same, whatever the strings in the text say. So a message none of whose keys
passes for a field of a book is no data message, and its event is the value of its event key.
-/

namespace OrderbookAggregator.Bitstamp

open Scanner Scan
open JsonGrammar (ObjectText Derives Member Word Passes Printable SpelledChar StringContent
  keyPattern Blank Escaped)

/-! ### What the readers make of JSON -/

theorem stringBody_of_escaped {content : Bytes} (h : Escaped content) : StringBody content := by
  induction h with
  | nil => exact .nil
  | plain hquote hbackslash _ ih => exact .plain hquote hbackslash ih
  | escape _ ih => exact .escape ih

theorem isWs_of_blank {ws : Bytes} (h : Blank ws) : ∀ b ∈ ws, Ascii.isWs b :=
  fun b hb => decide_eq_true (h b hb)

section Find

variable {text name : Bytes} {members : List Member}

theorem find_keyPattern_eq_none (memmem : Memmem) (hjson : ObjectText text members)
    (hgap : ∀ m ∈ members, m.gap = []) (hname : Word name)
    (hkeys : ∀ m ∈ members, ¬ Passes name m.key) : memmem.find (keyPattern name) text = none := by
  refine (memmem.find_spec (keyPattern name) text).unique fun i hi => ?_
  obtain ⟨pre, post, htext, -⟩ := Search.occursAt_iff_exists.mp hi
  rw [List.append_assoc] at htext
  obtain ⟨m, hm, hpasses, -⟩ := (hjson.derives.occurs_key hgap).2 name pre post hname htext
  exact hkeys m hm hpasses

/-- Behind the place that is found stands the value of a key that passes for the name. -/
theorem find_keyPattern_eq_some (memmem : Memmem) (hjson : ObjectText text members)
    (hgap : ∀ m ∈ members, m.gap = []) (hname : Word name) {m : Member} (hm : m ∈ members)
    (hkey : m.key = name) :
    ∃ i found before tail, memmem.find (keyPattern name) text = some i ∧ found ∈ members
      ∧ Passes name found.key ∧ Blank before
      ∧ text.drop (i + (keyPattern name).length) = before ++ (found.value ++ tail) := by
  obtain ⟨hfound, honly⟩ := hjson.derives.occurs_key hgap
  have hspec := memmem.find_spec (keyPattern name) text
  cases hfind : memmem.find (keyPattern name) text with
  | none =>
      obtain ⟨pre, post, htext⟩ := hfound m hm
      rw [hkey, ← List.append_assoc] at htext
      rw [hfind] at hspec
      exact absurd (htext ▸ Search.occursAt_append pre (keyPattern name) post) (hspec pre.length)
  | some i =>
      rw [hfind] at hspec
      obtain ⟨pre, post, htext, rfl⟩ := Search.occursAt_iff_exists.mp hspec.1
      obtain ⟨found, hmem, hpasses, before, tail, hbefore, hpost⟩ :=
        honly name pre post hname (by rw [htext, List.append_assoc])
      refine ⟨pre.length, found, before, tail, rfl, hmem, hpasses, hbefore, ?_⟩
      rw [htext, ← List.length_append, List.drop_left, hpost]

end Find

/-! ### The walk -/

/-- Without either side, the walk goes back for the event. -/
theorem walkBehind_of_absent {memmem : Memmem} {micro : Nat} {s s' s'' : Scanner} {event : Bytes}
    (hbids : seek memmem bidsKey s = .ok (none, s)) (hasks : seek memmem asksKey s = .ok (none, s))
    (hseek : seek memmem eventKey { s with pos := 0 } = .ok (some (), s'))
    (hread : readString s' = .ok (some event, s'')) :
    walkBehind memmem false micro s = .ok (some (event, micro, .empty, .empty), s'') := by
  have hside {key : Bytes} (habsent : seek memmem key s = .ok (none, s)) :
      readOptionalRawLevels depth memmem key s = .ok (some .empty, s) := by
    unfold readOptionalRawLevels
    rw [bind_of_some (attempt_of_ok habsent)]
    rfl
  have hrewind : Scan.rewind s = .ok (some (), { s with pos := 0 }) := rfl
  unfold walkBehind
  rw [bind_of_some (hside hbids), bind_of_some (hside hasks), if_neg Bool.false_ne_true,
    bind_of_some hrewind, bind_of_some hseek, bind_of_some hread]
  rfl

set_option maxRecDepth 4096 in
theorem words : Word (bytes "microtimestamp") ∧ Word (bytes "bids") ∧ Word (bytes "asks")
    ∧ Word (bytes "event") := by
  decide

/-- **Strings do not pass for keys.** In a JSON object without blanks before its colons and without
a key that passes for a field of a book, the walk finds no timestamp and returns the value of the
one event key, whatever stands in the strings of the text. -/
theorem walk_event (memmem : Memmem) {text event : Bytes} {members : List Member}
    (hjson : ObjectText text members) (hgap : ∀ m ∈ members, m.gap = [])
    (hmicro : ∀ m ∈ members, ¬ Passes (bytes "microtimestamp") m.key)
    (hbids : ∀ m ∈ members, ¬ Passes (bytes "bids") m.key)
    (hasks : ∀ m ∈ members, ¬ Passes (bytes "asks") m.key)
    (hevent : members.filter (·.key = bytes "event")
      = [⟨bytes "event", [], JsonGrammar.quoted event⟩])
    (hends : ∀ m ∈ members, ¬ [Ascii.backslash, Ascii.quote] ++ bytes "event" <:+ m.key)
    (hcontent : StringContent event) :
    memmem.find microtimestampKey text = none
      ∧ walk memmem text = .ok (some (event, 0, .empty, .empty)) := by
  obtain ⟨hwordMicro, hwordBids, hwordAsks, hwordEvent⟩ := words
  have hmicro := find_keyPattern_eq_none memmem hjson hgap hwordMicro hmicro
  have hbids := find_keyPattern_eq_none memmem hjson hgap hwordBids hbids
  have hasks := find_keyPattern_eq_none memmem hjson hgap hwordAsks hasks
  -- a key that passes for the event is the event key
  have hvalue : ∀ m ∈ members, Passes (bytes "event") m.key →
      m.value = JsonGrammar.quoted event := by
    intro m hm hpasses
    have hkey : m.key = bytes "event" := hpasses.resolve_right (hends m hm)
    have hmem : m ∈ members.filter (·.key = bytes "event") :=
      List.mem_filter.mpr ⟨hm, decide_eq_true hkey⟩
    rw [hevent, List.mem_singleton] at hmem
    rw [hmem]
  have hmem : ⟨bytes "event", [], JsonGrammar.quoted event⟩ ∈ members :=
    (List.mem_filter.mp (hevent ▸ List.mem_singleton_self _)).1
  obtain ⟨i, found, before, tail, hfind, hfound, hpasses, hbefore, hdrop⟩ :=
    find_keyPattern_eq_some memmem hjson hgap hwordEvent hmem rfl
  rw [hvalue found hfound hpasses] at hdrop
  have hinside := inside_new text
  have hseek := seek_of_find_eq_some hinside hfind
  have hrest : ((Scanner.new text).advance (i + (keyPattern (bytes "event")).length)).rest
      = before ++ quoted event ++ tail := by
    rw [rest_advance, List.append_assoc]
    exact hdrop
  have hread := readString_of_closed (isWs_of_blank hbefore)
    (stringBody_of_escaped hcontent.escaped) hcontent.head?_closed hrest
  have hwalk := @walkBehind_of_absent memmem 0 _ _ _ event (seek_of_find_eq_none hinside hbids)
    (seek_of_find_eq_none hinside hasks) hseek hread
  refine ⟨hmicro, ?_⟩
  rw [walk, Scan.eval, walkScan_of_absent (seek_of_find_eq_none hinside hmicro)]
  change Except.map _ (walkBehind memmem false 0 (Scanner.new text)) = _
  rw [hwalk]
  rfl

/-- A message with a string that quotes the key of the bids. -/
def quotingText : Bytes := bytes "\x7b\"event\":\"info\",\"text\":\"\\\"bids\\\":\"\x7d"

def quotingMembers : List Member :=
  [⟨bytes "event", [], JsonGrammar.quoted (bytes "info")⟩,
    ⟨bytes "text", [], JsonGrammar.quoted ([Ascii.backslash, Ascii.quote] ++ (bytes "bids"
      ++ ([Ascii.backslash, Ascii.quote] ++ bytes ":")))⟩]

/-- A member with a string value and no blanks. -/
theorem derives_stringMember {key value : Bytes} (hkey : StringContent key)
    (hvalue : StringContent value) :
    Derives .member (JsonGrammar.quoted key ++ JsonGrammar.colon :: JsonGrammar.quoted value)
      [⟨key, [], JsonGrammar.quoted value⟩] := by
  have hmember := @Derives.member [] key [] [] _ [] [] nofun hkey nofun nofun (.string hvalue) nofun
  simpa using hmember

set_option maxRecDepth 4096 in
theorem objectText_quotingText : ObjectText quotingText quotingMembers := by
  have hprintable : ∀ text ∈ [bytes "event", bytes "info", bytes "text", bytes "bids", bytes ":"],
      ∀ b ∈ text, Printable b := by decide
  simp only [List.forall_mem_cons] at hprintable
  obtain ⟨hevent, hinfo, htext, hbids, hcolon, -⟩ := hprintable
  have hescape : SpelledChar [Ascii.backslash, Ascii.quote] := .escape (by decide)
  have hquoting : StringContent ([Ascii.backslash, Ascii.quote] ++ (bytes "bids"
      ++ ([Ascii.backslash, Ascii.quote] ++ bytes ":"))) :=
    .cons hescape (.append hbids (.cons hescape (.of_printable hcolon)))
  have hfirst := derives_stringMember (.of_printable hevent) (.of_printable hinfo)
  have hlast := derives_stringMember (.of_printable htext) hquoting
  exact ⟨[], _, [], nofun, nofun, .object (.members hfirst (.lastMember hlast)), by decide⟩

set_option maxRecDepth 4096 in
/-- No key of it passes for a field of a book, and one is the event. -/
theorem quotingMembers_keys : (∀ m ∈ quotingMembers, m.gap = [])
    ∧ (∀ m ∈ quotingMembers, ¬ Passes (bytes "microtimestamp") m.key)
    ∧ (∀ m ∈ quotingMembers, ¬ Passes (bytes "bids") m.key)
    ∧ (∀ m ∈ quotingMembers, ¬ Passes (bytes "asks") m.key)
    ∧ quotingMembers.filter (·.key = bytes "event")
      = [⟨bytes "event", [], JsonGrammar.quoted (bytes "info")⟩]
    ∧ (∀ m ∈ quotingMembers, ¬ [Ascii.backslash, Ascii.quote] ++ bytes "event" <:+ m.key)
    ∧ ∀ b ∈ bytes "info", Printable b := by
  decide

theorem walk_event_quotingText :
    Memmem.scan.find microtimestampKey quotingText = none
      ∧ walk .scan quotingText = .ok (some (bytes "info", 0, .empty, .empty)) := by
  obtain ⟨hgap, hmicro, hbids, hasks, hevent, hends, hinfo⟩ := quotingMembers_keys
  exact walk_event .scan objectText_quotingText hgap hmicro hbids hasks hevent hends
    (.of_printable hinfo)

end OrderbookAggregator.Bitstamp
