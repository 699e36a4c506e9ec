import OrderbookAggregator.Library.JsonGrammar

/-!
# Finding a key without parsing

A text is searched for a key between quotes with a colon behind it. Where no blank stands between
a key and its colon, such a place is the end of a key: the colon rules out the strings that are
values, and a quote inside a string is escaped.
-/

namespace JsonGrammar

/-- What is searched for to find a key. -/
def keyPattern (name : List UInt8) : List UInt8 := quote :: (name ++ [quote, colon])

/-- The bytes that stand behind a value. -/
def Delimiter (byte : UInt8) : Prop :=
  byte = comma ∨ byte = closeBracket ∨ byte = closeBrace ∨ IsBlank byte

instance : DecidablePred Delimiter := fun _ => inferInstanceAs (Decidable (_ ∨ _))

/-- A byte of a name that neither ends a string nor stands behind one. -/
def Ordinary (byte : UInt8) : Prop :=
  byte ≠ quote ∧ byte ≠ backslash ∧ byte ≠ colon ∧ ¬ Delimiter byte

instance : DecidablePred Ordinary := fun _ => inferInstanceAs (Decidable (_ ∧ _))

def Word (name : List UInt8) : Prop := name ≠ [] ∧ ∀ byte ∈ name, Ordinary byte

instance : DecidablePred Word := fun _ => inferInstanceAs (Decidable (_ ∧ _))

/-- A key that the pattern of a name finds: it is the name, or ends in an escaped quote and the
name. -/
def Passes (name key : List UInt8) : Prop := key = name ∨ [backslash, quote] ++ name <:+ key

instance (name key : List UInt8) : Decidable (Passes name key) :=
  inferInstanceAs (Decidable (_ ∨ _))

/-! ### A pattern that overlaps a string -/

section Overlap

variable {content name text post : List UInt8}

/-- The quote behind a name is the one that closes the string. -/
theorem eq_of_closed (hcontent : Escaped content) (hname : ∀ byte ∈ name, Ordinary byte)
    (h : content ++ quote :: text = name ++ quote :: colon :: post) :
    content = name ∧ text = colon :: post := by
  induction hcontent generalizing name with
  | nil =>
      cases name with
      | nil =>
          cases h
          exact ⟨rfl, rfl⟩
      | cons byte name =>
          exact absurd (List.cons.inj h).1.symm (hname byte List.mem_cons_self).1
  | plain hne _ _ ih =>
      cases name with
      | nil => exact absurd (List.cons.inj h).1 hne
      | cons byte name =>
          rw [List.forall_mem_cons] at hname
          obtain ⟨rfl, htail⟩ := List.cons.inj h
          obtain ⟨rfl, htext⟩ := ih hname.2 htail
          exact ⟨rfl, htext⟩
  | escape =>
      cases name with
      | nil => exact absurd (List.cons.inj h).1 (by decide)
      | cons byte name =>
          exact absurd (List.cons.inj h).1.symm (hname byte List.mem_cons_self).2.1

/-- A pattern that begins inside a string begins at an escaped quote or at the closing one. -/
theorem overlap_inside {pre mid : List UInt8} (hcontent : Escaped content) (hname : Word name)
    (hmid : mid ≠ []) (hsplit : content ++ [quote] = pre ++ mid)
    (hover : mid ++ text = keyPattern name ++ post) :
    (text = colon :: post ∧ [backslash, quote] ++ name <:+ content)
      ∨ text = name ++ quote :: colon :: post := by
  have hpattern : keyPattern name ++ post = quote :: (name ++ quote :: colon :: post) := by
    simp [keyPattern]
  rw [hpattern] at hover
  induction hcontent generalizing pre with
  | nil =>
      cases pre with
      | nil =>
          obtain rfl : [quote] = mid := hsplit
          exact Or.inr (List.cons.inj hover).2
      | cons byte pre =>
          obtain ⟨-, hnil⟩ := List.cons.inj hsplit
          exact absurd (List.append_eq_nil_iff.mp hnil.symm).2 hmid
  | @plain byte content hne _ _ ih =>
      cases pre with
      | nil =>
          obtain rfl : byte :: (content ++ [quote]) = mid := hsplit
          exact absurd (List.cons.inj hover).1 hne
      | cons first pre =>
          rcases ih (List.cons.inj hsplit).2 with ⟨htext, hends⟩ | htext
          · exact Or.inl ⟨htext, hends.trans (List.suffix_cons _ _)⟩
          · exact Or.inr htext
  | @escape byte content hcontent ih =>
      match pre, hsplit with
      | [], hsplit =>
          obtain rfl : backslash :: byte :: (content ++ [quote]) = mid := hsplit
          exact absurd (List.cons.inj hover).1 (by decide)
      | [first], hsplit =>
          obtain ⟨-, hsplit⟩ := List.cons.inj hsplit
          obtain rfl : byte :: (content ++ [quote]) = mid := hsplit
          obtain ⟨rfl, htail⟩ := List.cons.inj hover
          obtain ⟨rfl, htext⟩ := eq_of_closed hcontent hname.2 (by simpa using htail)
          exact Or.inl ⟨htext, List.suffix_refl _⟩
      | first :: second :: pre, hsplit =>
          rcases ih (List.cons.inj (List.cons.inj hsplit).2).2 with ⟨htext, hends⟩ | htext
          · exact Or.inl ⟨htext, hends.trans ((List.suffix_cons _ _).trans (List.suffix_cons _ _))⟩
          · exact Or.inr htext

/-- A pattern that begins within a string. Unless it goes on with the name behind the string, what
stands there is the colon. -/
theorem overlap {pre mid : List UInt8} (hcontent : Escaped content) (hname : Word name)
    (hmid : mid ≠ []) (hsplit : quoted content = pre ++ mid)
    (hover : mid ++ text = keyPattern name ++ post) :
    (text = colon :: post ∧ Passes name content) ∨ text = name ++ quote :: colon :: post := by
  cases pre with
  | nil =>
      obtain rfl : quoted content = mid := hsplit
      have hclosed : content ++ quote :: text = name ++ quote :: colon :: post := by
        simpa [quoted, keyPattern] using hover
      obtain ⟨heq, htext⟩ := eq_of_closed hcontent hname.2 hclosed
      exact Or.inl ⟨htext, Or.inl heq⟩
  | cons first pre =>
      rcases overlap_inside hcontent hname hmid (List.cons.inj hsplit).2 hover with
        ⟨htext, hends⟩ | htext
      · exact Or.inl ⟨htext, Or.inr hends⟩
      · exact Or.inr htext

theorem Word.head_mem (hname : Word name) : ∃ byte ∈ name, (name ++ post).head? = some byte := by
  obtain ⟨byte, rest, rfl⟩ := List.exists_cons_of_ne_nil hname.1
  exact ⟨byte, List.mem_cons_self, rfl⟩

end Overlap

/-! ### Texts as strings, keys and other bytes -/

/-- A text as a sequence of keys with their colon, of other strings, and of bytes outside strings. -/
inductive Lexed : List UInt8 → List Member → Prop
  | nil : Lexed [] []
  | other {byte text members} (hbyte : byte ≠ quote) (htext : Lexed text members) :
      Lexed (byte :: text) members
  | string {content text members} (hcontent : Escaped content)
      (hnext : ∀ byte ∈ text.head?, Delimiter byte) (htext : Lexed text members) :
      Lexed (quoted content ++ text) members
  | key {key before value tail members} (hkey : Escaped key) (hbefore : Blank before)
      (htext : Lexed (before ++ (value ++ tail)) members) :
      Lexed (quoted key ++ colon :: (before ++ (value ++ tail))) (⟨key, [], value⟩ :: members)

/-- **A pattern is found at a key only**, and behind it stands the value of that key. -/
theorem Lexed.member_of_occurs {text name pre post : List UInt8} {members : List Member}
    (h : Lexed text members) (hname : Word name) (htext : text = pre ++ (keyPattern name ++ post)) :
    ∃ m ∈ members, Passes name m.key
      ∧ ∃ before tail, Blank before ∧ post = before ++ (m.value ++ tail) := by
  induction h generalizing pre with
  | nil =>
      have hlength := congrArg List.length htext
      simp [keyPattern] at hlength
  | other hbyte _ ih =>
      cases pre with
      | nil => exact absurd (List.cons.inj htext).1 hbyte
      | cons first pre => exact ih (List.cons.inj htext).2
  | @string content text members hcontent hnext _ ih =>
      rcases List.append_eq_append_iff.mp htext with ⟨pre', -, hrest⟩ | ⟨mid, hsplit, hover⟩
      · exact ih hrest
      by_cases hmid : mid = []
      · subst hmid
        exact @ih [] hover.symm
      rcases overlap hcontent hname hmid hsplit hover.symm with ⟨rfl, -⟩ | rfl
      · exact absurd (hnext colon rfl) (by decide)
      · obtain ⟨byte, hmem, hhead⟩ := hname.head_mem
        exact absurd (hnext byte hhead) (hname.2 byte hmem).2.2.2
  | @key key before value tail members hkey hbefore _ ih =>
      rcases List.append_eq_append_iff.mp htext with ⟨pre', -, hrest⟩ | ⟨mid, hsplit, hover⟩
      · cases pre' with
        | nil => exact absurd (List.cons.inj hrest).1 (by decide)
        | cons first pre' =>
            obtain ⟨m, hm, hfound⟩ := ih (List.cons.inj hrest).2
            exact ⟨m, List.mem_cons_of_mem _ hm, hfound⟩
      by_cases hmid : mid = []
      · subst hmid
        exact absurd (List.cons.inj hover).1 (by decide)
      rcases overlap hkey hname hmid hsplit hover.symm with ⟨hpost, hpasses⟩ | hpost
      · obtain rfl := (List.cons.inj hpost).2
        exact ⟨_, List.mem_cons_self, hpasses, before, tail, hbefore, rfl⟩
      · obtain ⟨byte, hmem, hhead⟩ := hname.head_mem
        rw [← hpost] at hhead
        exact absurd (Option.some_inj.mp hhead).symm (hname.2 byte hmem).2.2.1

theorem Lexed.occurs_of_mem {text : List UInt8} {members : List Member} (h : Lexed text members)
    {m : Member} (hm : m ∈ members) :
    ∃ pre post, text = pre ++ (keyPattern m.key ++ post) := by
  induction h with
  | nil => cases hm
  | @other byte _ _ _ _ ih =>
      obtain ⟨pre, post, rfl⟩ := ih hm
      exact ⟨byte :: pre, post, rfl⟩
  | @string content _ _ _ _ _ ih =>
      obtain ⟨pre, post, rfl⟩ := ih hm
      exact ⟨quoted content ++ pre, post, (List.append_assoc _ _ _).symm⟩
  | @key key before value tail members _ _ _ ih =>
      rcases List.mem_cons.mp hm with rfl | hm
      · exact ⟨[], before ++ (value ++ tail), by simp [keyPattern, quoted]⟩
      · obtain ⟨pre, post, htext⟩ := ih hm
        exact ⟨quoted key ++ colon :: pre, post, by rw [htext]; simp⟩

/-! ### JSON texts -/

theorem IsBlank.ne_quote {byte : UInt8} (h : IsBlank byte) : byte ≠ quote := by
  rintro rfl
  exact absurd h (by decide)

theorem lexed_append {text rest : List UInt8} {members : List Member} (htext : quote ∉ text)
    (hrest : Lexed rest members) : Lexed (text ++ rest) members := by
  induction text with
  | nil => exact hrest
  | cons byte text ih =>
      rw [List.mem_cons, not_or] at htext
      exact .other (Ne.symm htext.1) (ih htext.2)

theorem Blank.quote_notMem {ws : List UInt8} (h : Blank ws) : quote ∉ ws :=
  fun hmem => (h quote hmem).ne_quote rfl

/-- What stands behind a value and blanks is still a delimiter. -/
theorem Blank.delimiter {ws rest : List UInt8} (h : Blank ws)
    (hnext : ∀ byte ∈ rest.head?, Delimiter byte) : ∀ byte ∈ (ws ++ rest).head?, Delimiter byte := by
  cases ws with
  | nil => exact hnext
  | cons first ws =>
      intro byte hbyte
      obtain rfl := Option.some_inj.mp hbyte
      exact Or.inr (Or.inr (Or.inr (h first List.mem_cons_self)))

theorem delimiter_cons {byte : UInt8} (h : Delimiter byte) (rest : List UInt8) :
    ∀ next ∈ (byte :: rest).head?, Delimiter next := by
  rintro next hnext
  exact Option.some_inj.mp hnext ▸ h

/-- Each piece of a JSON text, with whatever may stand behind it. -/
theorem Derives.lexed {symbol : Symbol} {text rest : List UInt8} {members members' : List Member}
    (h : Derives symbol text members) (hgap : ∀ m ∈ members, m.gap = [])
    (hnext : ∀ byte ∈ rest.head?, Delimiter byte) (hrest : Lexed rest members') :
    Lexed (text ++ rest) (members ++ members') := by
  induction h generalizing rest members' with
  | literal hliteral => exact lexed_append (quote_notMem_literal hliteral) hrest
  | number hnumber => exact lexed_append hnumber.quote_notMem hrest
  | string hcontent => exact .string hcontent.escaped hnext hrest
  | emptyArray hws | emptyObject hws =>
      rw [List.cons_append, List.append_assoc]
      exact .other (by decide) (lexed_append hws.quote_notMem (.other (by decide) hrest))
  | array _ ih | object _ ih =>
      rw [List.cons_append, List.append_assoc]
      exact .other (by decide)
        (ih hgap (delimiter_cons (by decide) rest) (.other (by decide) hrest))
  | element hbefore _ hafter ih =>
      rw [List.append_assoc, List.append_assoc]
      exact lexed_append hbefore.quote_notMem
        (ih hgap (hafter.delimiter hnext) (lexed_append hafter.quote_notMem hrest))
  | lastElement _ ih | lastMember _ ih => exact ih hgap hnext hrest
  | elements _ _ ih ihRest | members _ _ ih ihRest =>
      rw [List.forall_mem_append] at hgap
      rw [List.append_assoc, List.append_assoc, List.cons_append]
      exact ih hgap.1 (delimiter_cons (by decide) _)
        (.other (by decide) (ihRest hgap.2 hnext hrest))
  | @member ws key gap before value after members hws hkey hblank hbefore hvalue hafter ih =>
      rw [List.forall_mem_cons] at hgap
      obtain ⟨rfl : gap = [], hgap⟩ := hgap
      have hbehind : Lexed (before ++ (value ++ (after ++ rest))) (members ++ members') :=
        lexed_append hbefore.quote_notMem
          (ih hgap (hafter.delimiter hnext) (lexed_append hafter.quote_notMem hrest))
      simp only [List.append_assoc, List.cons_append, List.nil_append]
      exact lexed_append hws.quote_notMem (.key hkey.escaped hbefore hbehind)

/-- **Keys of a JSON text.** In a JSON text without blanks before its colons, each key is found by
its pattern, and the pattern of a word is found nowhere but at a key that passes for it, with the
value of that key behind it. -/
theorem Derives.occurs_key {text : List UInt8} {members : List Member}
    (h : Derives .element text members) (hgap : ∀ m ∈ members, m.gap = []) :
    (∀ m ∈ members, ∃ pre post, text = pre ++ (keyPattern m.key ++ post))
    ∧ ∀ name pre post, Word name → text = pre ++ (keyPattern name ++ post) →
      ∃ m ∈ members, Passes name m.key
        ∧ ∃ before tail, Blank before ∧ post = before ++ (m.value ++ tail) := by
  have hlexed := @Derives.lexed _ _ [] _ _ h hgap nofun .nil
  rw [List.append_nil, List.append_nil] at hlexed
  exact ⟨fun m hm => hlexed.occurs_of_mem hm, fun name pre post hname => hlexed.member_of_occurs hname⟩

end JsonGrammar
