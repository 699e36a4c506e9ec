import OrderbookAggregator.Proof.JsonValues

/-!
# The cursor stays inside

A reader stays inside when, started with the cursor in the buffer or at its end, it does not panic
and leaves the cursor so, whether it succeeds or fails. All readers stay inside but one: reading a
string that nobody closes and that ends in a backslash moves the cursor one past the end.
-/

namespace OrderbookAggregator

namespace Scanner

def Inside (s : Scanner) : Prop := s.pos ≤ s.buf.length

theorem inside_new (json : Bytes) : (Scanner.new json).Inside := Nat.zero_le _

theorem Inside.advance {s : Scanner} (h : s.Inside) {n : Nat} (hn : n ≤ s.rest.length) :
    (s.advance n).Inside := by
  unfold Inside at h ⊢
  rw [length_rest] at hn
  rw [pos_advance, buf_advance]
  omega

theorem Inside.advance_of_peek {s : Scanner} {byte : UInt8} (h : s.peek = some byte) :
    (s.advance 1).Inside :=
  lt_length_of_peek h

end Scanner

namespace Scan

open Scanner

variable {α β : Type}

/-- From inside, `x` does not panic and ends inside; if it succeeds, the value satisfies `post`. -/
def StaysInside (x : Scan α) (post : α → Prop) : Prop :=
  ∀ s : Scanner, s.Small → s.Inside →
    ∃ o s', x s = .ok (o, s') ∧ s'.buf = s.buf ∧ s'.Inside ∧ ∀ a ∈ o, post a

theorem staysInside_of_advance {x : Scan α} {post : α → Prop}
    (h : ∀ s : Scanner, s.Small → ∃ o n, x s = .ok (o, s.advance n) ∧ n ≤ s.rest.length
      ∧ ∀ a ∈ o, post a) : StaysInside x post := by
  intro s hsmall hinside
  obtain ⟨o, n, hx, hn, hpost⟩ := h s hsmall
  exact ⟨o, s.advance n, hx, rfl, hinside.advance hn, hpost⟩

theorem staysInside_pure {a : α} {post : α → Prop} (h : post a) :
    StaysInside (pure a : Scan α) post := by
  intro s _ hinside
  exact ⟨some a, s, rfl, rfl, hinside, by simpa using h⟩

theorem staysInside_fail {post : α → Prop} : StaysInside fail post := by
  intro s _ hinside
  exact ⟨none, s, rfl, rfl, hinside, by simp⟩

theorem StaysInside.bind {x : Scan α} {f : α → Scan β} {mid : α → Prop} {post : β → Prop}
    (hx : StaysInside x mid) (hf : ∀ a, mid a → StaysInside (f a) post) :
    StaysInside (x >>= f) post := by
  intro s hsmall hinside
  obtain ⟨o, s', hxs, hbuf, hinside', hmid⟩ := hx s hsmall hinside
  cases o with
  | none => exact ⟨none, s', bind_of_none hxs, hbuf, hinside', by simp⟩
  | some a =>
      obtain ⟨o, s'', hfs, hbuf', hinside'', hpost⟩ :=
        hf a (hmid a rfl) s' (hsmall.of_buf_eq hbuf) hinside'
      exact ⟨o, s'', (bind_of_some hxs).trans hfs, hbuf'.trans hbuf, hinside'', hpost⟩

theorem StaysInside.attempt {x : Scan α} {post : α → Prop} (hx : StaysInside x post) :
    StaysInside (attempt x) fun o => ∀ a ∈ o, post a := by
  intro s hsmall hinside
  obtain ⟨o, s', hxs, hbuf, hinside', hpost⟩ := hx s hsmall hinside
  exact ⟨some o, s', by rw [Scan.attempt, hxs], hbuf, hinside', by simpa using hpost⟩

/-- From inside, `x` does not panic. Where it ends is not said. -/
def NeverPanics (x : Scan α) : Prop :=
  ∀ s : Scanner, s.Small → s.Inside → ∃ result, x s = .ok result

theorem neverPanics_pure (a : α) : NeverPanics (pure a : Scan α) := fun s _ _ => ⟨(some a, s), rfl⟩

theorem StaysInside.bind_neverPanics {x : Scan α} {f : α → Scan β} {mid : α → Prop}
    (hx : StaysInside x mid) (hf : ∀ a, mid a → NeverPanics (f a)) : NeverPanics (x >>= f) := by
  intro s hsmall hinside
  obtain ⟨o, s', hxs, hbuf, hinside', hmid⟩ := hx s hsmall hinside
  cases o with
  | none => exact ⟨_, bind_of_none hxs⟩
  | some a =>
      obtain ⟨result, hfs⟩ := hf a (hmid a rfl) s' (hsmall.of_buf_eq hbuf) hinside'
      exact ⟨result, (bind_of_some hxs).trans hfs⟩

theorem staysInside_rewind : StaysInside rewind fun _ => True :=
  fun _ _ _ => ⟨some (), _, rfl, rfl, Nat.zero_le _, fun _ _ => trivial⟩

theorem staysInside_lift {x : Exec (Option α)} (hx : ∃ o, x = .ok o) :
    StaysInside (lift x) fun _ => True := by
  obtain ⟨o, rfl⟩ := hx
  exact fun s _ hinside => ⟨o, s, rfl, rfl, hinside, fun _ _ => trivial⟩

end Scan

namespace Scanner

open Scan

theorem staysInside_require (byte : UInt8) : StaysInside (require byte) fun _ => True := by
  intro s _ hinside
  unfold require expectByte
  by_cases hpeek : s.peek = some byte
  · rw [if_pos hpeek]
    exact ⟨some (), s.advance 1, rfl, rfl, .advance_of_peek hpeek, fun _ _ => trivial⟩
  · rw [if_neg hpeek]
    exact ⟨none, s, rfl, rfl, hinside, fun _ _ => trivial⟩

theorem staysInside_seek (memmem : Memmem) (needle : Bytes) :
    StaysInside (seek memmem needle) fun _ => True := by
  intro s _ hinside
  have hspec := memmem.find_spec needle s.rest
  cases hfind : memmem.find needle s.rest with
  | none => exact ⟨none, s, seek_of_find_eq_none hinside hfind, rfl, hinside, fun _ _ => trivial⟩
  | some offset =>
      rw [hfind] at hspec
      obtain ⟨pre, post, hsplit, rfl⟩ := Search.occursAt_iff_exists.mp hspec.1
      refine ⟨some (), s.advance (pre.length + needle.length), seek_of_find_eq_some hinside hfind, rfl,
        hinside.advance ?_, fun _ _ => trivial⟩
      rw [hsplit]
      simp

theorem exists_skipWs (s : Scanner) : ∃ ws rest, s.rest = ws ++ rest ∧ s.skipWs = s.advance ws.length
    ∧ (∀ b ∈ ws, Ascii.isWs b) ∧ ∀ b ∈ rest.head?, Ascii.isWs b = false := by
  have hws : ∀ b ∈ s.rest.takeWhile Ascii.isWs, Ascii.isWs b := fun b hb => List.mem_takeWhile_imp hb
  have hstop : ∀ b ∈ (s.rest.dropWhile Ascii.isWs).head?, Ascii.isWs b = false := by
    intro b hb
    have := List.head?_dropWhile_not Ascii.isWs s.rest
    rw [hb] at this
    simpa using this
  have hsplit := (@List.takeWhile_append_dropWhile _ Ascii.isWs s.rest).symm
  exact ⟨_, _, hsplit, skipWs_of_append hsplit hws hstop, hws, hstop⟩

theorem readU64.exists_loop (text : Bytes) (value pos : Nat) :
    ∃ value' n, loop text value pos = (value', pos + n) ∧ n ≤ text.length := by
  induction text generalizing value pos with
  | nil => exact ⟨value, 0, rfl, le_rfl⟩
  | cons byte text ih =>
      rw [loop]
      split
      · exact ⟨value, 0, rfl, Nat.zero_le _⟩
      split
      · exact ⟨0, 0, rfl, Nat.zero_le _⟩
      rename_i value' _
      obtain ⟨value'', n, hloop, hn⟩ := ih value' (pos + 1)
      exact ⟨value'', n + 1, by rw [hloop, Nat.add_assoc, Nat.add_comm 1],
        Nat.succ_le_succ hn⟩

theorem staysInside_readU64 : StaysInside (total readU64) fun _ => True := by
  refine staysInside_of_advance fun s _ => ?_
  obtain ⟨ws, rest, hrest, hskip, -, -⟩ := exists_skipWs s
  have hrest' := rest_advance_of_append hrest
  obtain ⟨value, n, hloop, hn⟩ := readU64.exists_loop rest 0 (s.pos + ws.length)
  have hread : s.readU64 = (value, s.advance (ws.length + n)) := by
    unfold readU64
    dsimp only
    rw [hskip, hrest', pos_advance, hloop, Nat.add_assoc]
    rfl
  refine ⟨some value, ws.length + n, by rw [total, hread], ?_, fun _ _ => trivial⟩
  rw [hrest, List.length_append]
  omega

/-! ### Decimals -/

namespace readQuotedDecimal

theorem exists_intLoop {text : Bytes} {value count pos : Nat}
    (hcount : count + text.length < 2 ^ 32) :
    ∃ o n, intLoop text value count pos = .ok (o, pos + n) ∧ n ≤ text.length := by
  induction text generalizing value count pos with
  | nil => exact ⟨_, 0, rfl, le_rfl⟩
  | cons byte text ih =>
      rw [List.length_cons] at hcount
      rw [intLoop]
      split
      · exact ⟨_, 0, rfl, Nat.zero_le _⟩
      split
      · exact ⟨_, 0, rfl, Nat.zero_le _⟩
      split
      · exact ⟨_, 0, rfl, Nat.zero_le _⟩
      rename_i value' _
      rw [addU32_of_lt (by omega), Exec.ok_bind]
      obtain ⟨o, n, hloop, hn⟩ := @ih value' (count + 1) (pos + 1) (by omega)
      exact ⟨o, n + 1, by rw [hloop, Nat.add_assoc, Nat.add_comm 1], Nat.succ_le_succ hn⟩

/-- The fraction that is read has at most eight digits and a value of that many. -/
def Fraction (read : Nat × Nat) : Prop := read.2 ≤ 8 ∧ read.1 < 10 ^ read.2

theorem exists_fracLoop {text : Bytes} {value count pos : Nat} (hfraction : Fraction (value, count)) :
    ∃ o n, fracLoop text value count pos = .ok (o, pos + n) ∧ n ≤ text.length
      ∧ ∀ read ∈ o, Fraction read := by
  induction text generalizing value count pos with
  | nil => exact ⟨_, 0, rfl, le_rfl, by simpa using hfraction⟩
  | cons byte text ih =>
      rw [fracLoop]
      split
      · rename_i hroom
        split
        · exact ⟨_, 0, rfl, Nat.zero_le _, by simp⟩
        · rename_i hdigit
          obtain ⟨hshift, hadd, hnext⟩ := fraction_step hfraction.2 hroom.2 (Nat.not_lt.mp hdigit)
          have hcount : count + 1 ≤ 8 := hroom.2
          rw [hshift, Exec.ok_bind, hadd, Exec.ok_bind, addU32_of_lt (by omega), Exec.ok_bind]
          obtain ⟨o, n, hloop, hn, hread⟩ := @ih _ _ (pos + 1) ⟨hcount, hnext⟩
          exact ⟨o, n + 1, by rw [hloop, Nat.add_assoc, Nat.add_comm 1], Nat.succ_le_succ hn, hread⟩
      · exact ⟨_, 0, rfl, Nat.zero_le _, by simpa using hfraction⟩

theorem exists_skipLoop (text : Bytes) (pos : Nat) :
    ∃ b n, skipLoop text pos = (b, pos + n) ∧ n ≤ text.length := by
  induction text generalizing pos with
  | nil => exact ⟨_, 0, rfl, le_rfl⟩
  | cons byte text ih =>
      rw [skipLoop]
      split
      · split
        · exact ⟨_, 0, rfl, Nat.zero_le _⟩
        · obtain ⟨b, n, hloop, hn⟩ := ih (pos + 1)
          exact ⟨b, n + 1, by rw [hloop, Nat.add_assoc, Nat.add_comm 1], Nat.succ_le_succ hn⟩
      · exact ⟨_, 0, rfl, Nat.zero_le _⟩

theorem staysInside_intPart : StaysInside intPart fun _ => True := by
  refine staysInside_of_advance fun s hsmall => ?_
  have hlength := hsmall.rest_lt
  obtain ⟨o, n, hloop, hn⟩ := @exists_intLoop s.rest 0 0 s.pos (by omega)
  exact ⟨o, n, by rw [intPart, hloop]; rfl, hn, fun _ _ => trivial⟩

theorem staysInside_fracDigits : StaysInside fracDigits Fraction := by
  refine staysInside_of_advance fun s _ => ?_
  obtain ⟨o, n, hloop, hn, hread⟩ := @exists_fracLoop s.rest 0 0 s.pos ⟨by simp, by simp⟩
  exact ⟨o, n, by rw [fracDigits, hloop]; rfl, hn, hread⟩

theorem staysInside_skipDigits : StaysInside skipDigits fun _ => True := by
  refine staysInside_of_advance fun s _ => ?_
  obtain ⟨b, n, hloop, hn⟩ := exists_skipLoop s.rest s.pos
  cases b with
  | false => exact ⟨none, n, by rw [skipDigits, hloop]; rfl, hn, fun _ _ => trivial⟩
  | true => exact ⟨some (), n, by rw [skipDigits, hloop]; rfl, hn, fun _ _ => trivial⟩

theorem staysInside_fraction : StaysInside fraction Fraction := by
  intro s hsmall hinside
  unfold fraction expectByte
  by_cases hdot : s.peek = some Ascii.dot
  · rw [if_pos hdot]
    exact (staysInside_fracDigits.bind fun read hread =>
      staysInside_skipDigits.bind fun _ _ => staysInside_pure hread) (s.advance 1) hsmall
        (.advance_of_peek hdot)
  · rw [if_neg hdot]
    exact ⟨some (0, 0), s, rfl, rfl, hinside, by simp [Fraction]⟩

end readQuotedDecimal

theorem staysInside_readQuotedDecimal : StaysInside readQuotedDecimal fun _ => True := by
  refine (staysInside_require _).bind fun _ _ => ?_
  refine readQuotedDecimal.staysInside_intPart.bind fun int _ => ?_
  refine readQuotedDecimal.staysInside_fraction.bind fun frac hfrac => ?_
  dsimp only
  split
  · exact staysInside_fail
  · exact (staysInside_require _).bind fun _ _ =>
      staysInside_lift ⟨_, combine_eq hfrac.1 hfrac.2⟩

theorem staysInside_readLevel : StaysInside readLevel fun _ => True :=
  (staysInside_require _).bind fun _ _ => staysInside_readQuotedDecimal.bind fun _ _ =>
    (staysInside_require _).bind fun _ _ => staysInside_readQuotedDecimal.bind fun _ _ =>
      (staysInside_require _).bind fun _ _ => staysInside_pure trivial

/-! ### Arrays -/

theorem staysInside_readRawLevels_loop {N : Nat} (levels : ArrayVec RawLevel N) :
    StaysInside (readRawLevels.loop levels) fun _ => True := by
  intro s hsmall hinside
  -- every round that goes on has moved the cursor
  induction hmeasure : s.buf.length - s.pos using Nat.strong_induction_on generalizing levels s with
  | _ n ih =>
    obtain ⟨o, s', hlevel, hbuf, hinside', -⟩ := staysInside_readLevel s hsmall hinside
    have hforward := (forward_readLevel hlevel).2
    rw [readRawLevels.loop_eq, hlevel]
    cases o with
    | none => exact ⟨none, s', rfl, hbuf, hinside', fun _ _ => trivial⟩
    | some level =>
      dsimp only
      cases pushNonZero levels level with
      | none => exact ⟨some levels, s', rfl, hbuf, hinside', fun _ _ => trivial⟩
      | some levels' =>
        dsimp only
        cases hpeek : s'.peek with
        | none => exact ⟨none, s', rfl, hbuf, hinside', fun _ _ => trivial⟩
        | some byte =>
          have hnext : (s'.advance 1).Inside := .advance_of_peek hpeek
          have hmoved : (s'.advance 1).buf.length - (s'.advance 1).pos < n := by
            have hlt := lt_length_of_peek hpeek
            rw [hbuf] at hlt
            rw [buf_advance, pos_advance, hbuf]
            omega
          dsimp only
          split
          · split
            · exact ⟨_, _, rfl, hbuf, hnext, fun _ _ => trivial⟩
            · obtain ⟨o, s'', hloop, hbuf', hinside'', -⟩ := ih _ hmoved levels' (s'.advance 1)
                (hsmall.of_buf_eq hbuf) hnext rfl
              exact ⟨o, s'', hloop, hbuf'.trans hbuf, hinside'', fun _ _ => trivial⟩
          · split
            · exact ⟨_, _, rfl, hbuf, hnext, fun _ _ => trivial⟩
            · exact ⟨_, _, rfl, hbuf, hinside', fun _ _ => trivial⟩

theorem staysInside_readRawLevels (N : Nat) : StaysInside (readRawLevels N) fun _ => True := by
  refine (staysInside_require _).bind fun _ _ s hsmall hinside => ?_
  by_cases hclose : s.peek = some Ascii.closeBracket
  · exact ⟨_, _, if_pos hclose, rfl, .advance_of_peek hclose, fun _ _ => trivial⟩
  · obtain ⟨o, s', hloop, hbuf, hinside', hpost⟩ :=
      staysInside_readRawLevels_loop .empty s hsmall hinside
    exact ⟨o, s', (if_neg hclose).trans hloop, hbuf, hinside', hpost⟩

theorem staysInside_readOptionalRawLevels (N : Nat) (memmem : Memmem) (needle : Bytes) :
    StaysInside (readOptionalRawLevels N memmem needle) fun _ => True := by
  refine (staysInside_seek memmem needle).attempt.bind fun found _ => ?_
  cases found with
  | none => exact staysInside_pure trivial
  | some _ => exact staysInside_readRawLevels N

/-! ### Strings -/

/-- Behind whitespace and an opening quote, a string that nobody closes and that ends in a backslash
which escapes nothing. -/
def DanglingEscape (text : Bytes) : Prop :=
  ∃ ws body, (∀ b ∈ ws, Ascii.isWs b) ∧ StringBody body
    ∧ text = ws ++ Ascii.quote :: (body ++ [Ascii.backslash])

/-- There the step over the escaped byte leaves the buffer. -/
theorem readString_of_danglingEscape {s : Scanner} (hinside : s.Inside)
    (h : DanglingEscape s.rest) :
    readString s = .ok (none, { s with pos := s.buf.length + 1 }) := by
  obtain ⟨ws, body, hws, hbody, hrest⟩ := h
  have hlength := congrArg List.length hrest
  rw [length_rest] at hlength
  simp only [List.length_append, List.length_cons, List.length_nil] at hlength
  have hend : s.pos + ws.length + 1 + body.length + 2 = s.buf.length + 1 := by
    unfold Inside at hinside
    omega
  have hloop : readString.loop [Ascii.backslash] (s.pos + ws.length + 1 + body.length)
      = (false, s.pos + ws.length + 1 + body.length + 2) := by
    rw [readString.loop.eq_def]
    rfl
  rw [readString_of_open hws hrest, readString.loop_append hbody, hloop, hend]

/-- Everywhere else reading a string stays inside. -/
theorem readString_of_not_danglingEscape {s : Scanner} (hinside : s.Inside)
    (h : ¬ DanglingEscape s.rest) :
    ∃ o s', readString s = .ok (o, s') ∧ s'.buf = s.buf ∧ s'.Inside := by
  obtain ⟨ws, rest, hrest, hskip, hws, -⟩ := exists_skipWs s
  have hrest' := rest_advance_of_append hrest
  by_cases hpeek : (s.advance ws.length).peek = some Ascii.quote
  · rw [peek_eq_head?, hrest', List.head?_eq_some_iff] at hpeek
    obtain ⟨inside, rfl⟩ := hpeek
    have hlength := congrArg List.length hrest
    rw [length_rest] at hlength
    simp only [List.length_append, List.length_cons] at hlength
    unfold Inside at hinside ⊢
    rw [readString_of_open hws hrest]
    rcases stringBody_cases inside with ⟨body, tail, hbody, rfl⟩ | hbody | ⟨body, hbody, rfl⟩
    · simp only [List.length_append, List.length_cons] at hlength
      rw [readString.loop_append hbody, readString.loop_quote]
      dsimp only
      split
      · exact ⟨_, _, rfl, rfl, by dsimp only; omega⟩
      · exact ⟨_, _, rfl, rfl, by dsimp only; omega⟩
    · have hloop := @readString.loop_append inside [] (s.pos + ws.length + 1) hbody
      rw [List.append_nil] at hloop
      rw [hloop]
      exact ⟨none, _, rfl, rfl, by dsimp only; omega⟩
    · exact absurd ⟨ws, body, hws, hbody, hrest⟩ h
  · rw [readString, hskip, if_pos hpeek]
    refine ⟨none, _, rfl, rfl, hinside.advance ?_⟩
    rw [hrest, List.length_append]
    omega

theorem exists_readString (s : Scanner) : ∃ result, readString s = .ok result := by
  unfold readString
  dsimp only
  split
  · exact ⟨_, rfl⟩
  split
  · exact ⟨_, rfl⟩
  · split
    · exact ⟨_, rfl⟩
    · exact ⟨_, rfl⟩

end Scanner

end OrderbookAggregator
