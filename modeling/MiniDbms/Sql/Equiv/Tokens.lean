import MiniDbms.Sql.Grammar

/-!
# What the token helpers accept

Each helper of the parser succeeds exactly on the texts that begin with its token, after a gap, and
leaves the cursor right behind it.  A keyword, an identifier and a number end where their class of
bytes ends; the other tokens end by themselves.
-/

namespace MiniDbms

open CString

/-! ### Gaps and words -/

theorem isspace_iff {c : UInt8} : isspace c = true ↔ c = 32 ∨ 9 ≤ c ∧ c ≤ 13 := by
  simp [isspace]

/-- Whitespace belongs to none of the other classes. -/
theorem isWordByte_of_isspace {c : UInt8} (h : isspace c = true) : isWordByte c = false := by
  rw [isspace_iff] at h
  rcases h with rfl | ⟨h9, h13⟩
  · rfl
  · simp only [UInt8.le_iff_toNat_le] at h9 h13
    have h95 : c ≠ 95 := fun h => by
      subst h
      exact absurd h13 (by decide)
    simp only [isWordByte, isalnum, isalpha, isdigit, beq_eq_false_iff_ne.mpr h95, Bool.or_false,
      Bool.or_eq_false_iff, Bool.and_eq_false_iff, decide_eq_false_iff_not,
      UInt8.le_iff_toNat_le, not_le]
    have h0 : (13 : UInt8).toNat = 13 := rfl
    have h1 : (65 : UInt8).toNat = 65 := rfl
    have h2 : (97 : UInt8).toNat = 97 := rfl
    have h3 : (48 : UInt8).toNat = 48 := rfl
    omega

theorem isdigit_of_isspace {c : UInt8} (h : isspace c = true) : isdigit c = false := by
  have hw := isWordByte_of_isspace h
  simp only [isWordByte, isalnum, Bool.or_eq_false_iff] at hw
  exact hw.1.2

theorem isWordByte_of_isalpha {c : UInt8} (h : isalpha c = true) : isWordByte c = true := by
  rw [isWordByte, isalnum, h]
  rfl

theorem isspace_of_isWordByte {c : UInt8} (h : isWordByte c = true) : isspace c = false := by
  by_contra hs
  rw [isWordByte_of_isspace (Bool.eq_true_of_not_eq_false hs)] at h
  cases h

/-- What stands behind a gap decides where a class without whitespace stops. -/
theorem stopsAt_gap {p : UInt8 → Bool} (hp : ∀ c, isspace c = true → p c = false) (g : Gap)
    {rest : CBytes} : StopsAt p (g.text ++ rest) ↔ g.text ≠ [] ∨ StopsAt p rest := by
  rcases g with ⟨text, hspace⟩
  cases text with
  | nil => simp
  | cons c text =>
    have hc : p c = false := hp c (hspace c List.mem_cons_self)
    simp [hc]

/-- Two gaps, one behind the other. -/
def Gap.append (g g' : Gap) : Gap where
  text := g.text ++ g'.text
  space := fun c hc => (List.mem_append.mp hc).elim (g.space c) (g'.space c)

/-- Words of letters. -/
structure IsWord (word : CBytes) : Prop where
  ne_nil : word ≠ []
  isalpha : ∀ c ∈ word, isalpha c = true

instance (word : CBytes) : Decidable (IsWord word) :=
  letI := List.decidableBAll (isalpha · = true) word
  decidable_of_iff (word ≠ [] ∧ ∀ c ∈ word, isalpha c = true)
    ⟨fun ⟨h, h'⟩ => ⟨h, h'⟩, fun ⟨h, h'⟩ => ⟨h, h'⟩⟩

/-- A spelling of a word is one. -/
theorem IsWord.spelling {word : CBytes} (h : IsWord word) (w : Spelling word) : IsWord w.text := by
  have hsame := casecmpEq_iff.mp w.same
  constructor
  · intro hnil
    rw [hnil] at hsame
    exact h.ne_nil (List.map_eq_nil_iff.mp hsame.symm)
  · intro c hc
    have hmem : tolower c ∈ word.map tolower := hsame ▸ List.mem_map_of_mem hc
    obtain ⟨k, hk, heq⟩ := List.mem_map.mp hmem
    rw [← isalpha_tolower, ← heq, isalpha_tolower]
    exact h.isalpha k hk

theorem IsWord.exists_cons {word : CBytes} (h : IsWord word) :
    ∃ c rest, word = c :: rest ∧ CString.isalpha c = true := by
  obtain ⟨c, rest, rfl⟩ := List.exists_cons_of_ne_nil h.ne_nil
  exact ⟨c, rest, rfl, h.isalpha c List.mem_cons_self⟩

theorem IsWord.stopsAt_isspace {word : CBytes} (h : IsWord word) (rest : CBytes) :
    StopsAt isspace (word ++ rest) := by
  obtain ⟨c, w, rfl, hc⟩ := h.exists_cons
  rw [List.cons_append, stopsAt_cons]
  exact isspace_of_isWordByte (isWordByte_of_isalpha hc)

/-- A word goes on with word bytes. -/
theorem IsWord.not_stopsAt {word : CBytes} (h : IsWord word) (rest : CBytes) :
    ¬ StopsAt isWordByte (word ++ rest) := by
  obtain ⟨c, w, rfl, hc⟩ := h.exists_cons
  rw [List.cons_append, stopsAt_cons, isWordByte_of_isalpha hc]
  exact Bool.noConfusion

/-- Two words are told apart by a gap that is not empty. -/
theorem IsWord.stopsAt_gap {word : CBytes} (h : IsWord word) (g : Gap) (rest : CBytes) :
    StopsAt isWordByte (g.text ++ (word ++ rest)) ↔ g.text ≠ [] := by
  rw [MiniDbms.stopsAt_gap fun _ => isWordByte_of_isspace, or_iff_left (h.not_stopsAt rest)]

theorem sqlSkipSpaces_eq_iff {cursor rest : Cursor} :
    sqlSkipSpaces cursor = rest ↔ (∃ g : Gap, cursor = g.text ++ rest) ∧ StopsAt isspace rest := by
  unfold sqlSkipSpaces
  rw [dropWhile_eq_iff]
  constructor
  · rintro ⟨⟨w, hw, rfl⟩, hstop⟩
    exact ⟨⟨⟨w, hw⟩, rfl⟩, hstop⟩
  · rintro ⟨⟨g, rfl⟩, hstop⟩
    exact ⟨⟨g.text, g.space, rfl⟩, hstop⟩

theorem sqlSkipSpaces_gap (g : Gap) {rest : Cursor} (hstop : StopsAt isspace rest) :
    sqlSkipSpaces (g.text ++ rest) = rest :=
  sqlSkipSpaces_eq_iff.mpr ⟨⟨g, rfl⟩, hstop⟩

theorem exists_gap_sqlSkipSpaces (cursor : Cursor) :
    ∃ g : Gap, cursor = g.text ++ sqlSkipSpaces cursor :=
  (sqlSkipSpaces_eq_iff.mp rfl).1

theorem stopsAt_sqlSkipSpaces (cursor : Cursor) : StopsAt isspace (sqlSkipSpaces cursor) :=
  (sqlSkipSpaces_eq_iff.mp rfl).2

/-- Skipping twice is skipping once. -/
theorem sqlSkipSpaces_idem (cursor : Cursor) :
    sqlSkipSpaces (sqlSkipSpaces cursor) = sqlSkipSpaces cursor :=
  sqlSkipSpaces_eq_iff.mpr ⟨⟨default, rfl⟩, stopsAt_sqlSkipSpaces cursor⟩

/-! ### Keywords -/

theorem sqlKeywordLoop_eq_some_iff {start word rest : CBytes} :
    sqlKeywordLoop start word = some rest ↔ ∃ w : Spelling word, start = w.text ++ rest := by
  induction word generalizing start with
  | nil =>
    rw [sqlKeywordLoop, Option.some_inj]
    constructor
    · rintro rfl
      exact ⟨default, rfl⟩
    · rintro ⟨⟨w, hw⟩, rfl⟩
      rw [casecmpEq_iff, List.map_nil, List.map_eq_nil_iff] at hw
      subst hw
      rfl
  | cons k word ih =>
    cases start with
    | nil =>
      rw [sqlKeywordLoop]
      refine iff_of_false (Option.some_ne_none rest).symm ?_
      rintro ⟨⟨w, hw⟩, h⟩
      have hnil : w = [] := (List.append_eq_nil_iff.mp h.symm).1
      subst hnil
      rw [casecmpEq_iff] at hw
      simp at hw
    | cons c start =>
      rw [sqlKeywordLoop]
      split_ifs with hne
      · refine iff_of_false not_false ?_
        rintro ⟨⟨w, hw⟩, h⟩
        rw [casecmpEq_iff] at hw
        cases w with
        | nil => simp at hw
        | cons c' w =>
          rw [List.cons_append, List.cons.injEq] at h
          rw [List.map_cons, List.map_cons, List.cons.injEq, ← h.1] at hw
          exact hne hw.1
      · rw [ih]
        constructor
        · rintro ⟨w, rfl⟩
          refine ⟨⟨c :: w.text, ?_⟩, rfl⟩
          rw [casecmpEq_iff, List.map_cons, List.map_cons, not_not.mp hne, casecmpEq_iff.mp w.same]
        · rintro ⟨⟨w, hw⟩, h⟩
          rw [casecmpEq_iff] at hw
          cases w with
          | nil => simp at hw
          | cons c' w =>
            rw [List.cons_append, List.cons.injEq] at h
            rw [List.map_cons, List.map_cons, List.cons.injEq] at hw
            exact ⟨⟨w, casecmpEq_iff.mpr hw.2⟩, h.2⟩

theorem sqlMatchKeyword_eq_iff {cursor keyword rest : CBytes} {u : Unit} :
    sqlMatchKeyword cursor keyword = (some u, rest) ↔
      ∃ w : Spelling keyword, cursor = w.text ++ rest ∧ StopsAt isWordByte rest := by
  rw [stopsAt_iff_peek (by decide)]
  unfold sqlMatchKeyword
  cases hloop : sqlKeywordLoop cursor keyword with
  | none =>
    simp only [Prod.mk.injEq, reduceCtorEq, false_and, false_iff]
    rintro ⟨w, h, -⟩
    rw [sqlKeywordLoop_eq_some_iff.mpr ⟨w, h⟩] at hloop
    cases hloop
  | some start =>
    obtain ⟨w, rfl⟩ := sqlKeywordLoop_eq_some_iff.mp hloop
    have hrest : ∀ (w' : Spelling keyword) rest, w.text ++ start = w'.text ++ rest →
        start = rest := fun w' rest h => by
      rw [sqlKeywordLoop_eq_some_iff.mpr ⟨w', h⟩] at hloop
      exact (Option.some_inj.mp hloop).symm
    dsimp only
    split_ifs with hword
    · simp only [Prod.mk.injEq, reduceCtorEq, false_and, false_iff]
      rintro ⟨w', h, hstop⟩
      rw [hrest w' rest h, hstop] at hword
      cases hword
    · rw [Prod.mk.injEq]
      constructor
      · rintro ⟨-, rfl⟩
        exact ⟨w, rfl, Bool.eq_false_of_not_eq_true hword⟩
      · rintro ⟨w', h, -⟩
        exact ⟨rfl, hrest w' rest h⟩

/-- A keyword that does not match leaves the cursor where it is. -/
theorem sqlMatchKeyword_none {cursor keyword rest : CBytes}
    (h : sqlMatchKeyword cursor keyword = (none, rest)) : rest = cursor := by
  unfold sqlMatchKeyword at h
  split at h
  · exact (Prod.mk.inj h).2.symm
  · split_ifs at h
    · exact (Prod.mk.inj h).2.symm
    · cases h

/-- Words that differ, without case, in a byte that both have are no spellings of each other. -/
theorem sqlMatchKeyword_of_head_ne {cursor keyword : CBytes} {c k : UInt8}
    (hc : cursor.head? = some c) (hk : keyword.head? = some k) (hne : tolower c ≠ tolower k) :
    sqlMatchKeyword cursor keyword = (none, cursor) := by
  unfold sqlMatchKeyword
  cases cursor with
  | nil => cases hc
  | cons c' cursor =>
    cases keyword with
    | nil => cases hk
    | cons k' keyword =>
      cases hc
      cases hk
      rw [sqlKeywordLoop, if_pos hne]

theorem sqlMatchKeyword_gap_eq_iff {cursor keyword rest : CBytes} (hword : IsWord keyword)
    {u : Unit} :
    sqlMatchKeyword (sqlSkipSpaces cursor) keyword = (some u, rest) ↔
      ∃ (g : Gap) (w : Spelling keyword), cursor = g.text ++ (w.text ++ rest) ∧
        StopsAt isWordByte rest := by
  rw [sqlMatchKeyword_eq_iff]
  constructor
  · rintro ⟨w, h, hstop⟩
    obtain ⟨g, hg⟩ := exists_gap_sqlSkipSpaces cursor
    rw [h] at hg
    exact ⟨g, w, hg, hstop⟩
  · rintro ⟨g, w, rfl, hstop⟩
    exact ⟨w, sqlSkipSpaces_gap g ((hword.spelling w).stopsAt_isspace rest), hstop⟩

/-! ### Punctuation, identifiers, strings -/

theorem sqlMatchChar_eq_iff {cursor rest : Cursor} {expected : UInt8}
    (hspace : isspace expected = false) {u : Unit} :
    sqlMatchChar cursor expected = (some u, rest) ↔
      ∃ g : Gap, cursor = g.text ++ expected :: rest := by
  unfold sqlMatchChar
  constructor
  · intro h
    obtain ⟨g, hg⟩ := exists_gap_sqlSkipSpaces cursor
    split at h
    · cases h
    · rename_i c tail heq
      split_ifs at h with hne
      · cases h
      · rw [heq, not_not.mp hne, (Prod.mk.inj h).2] at hg
        exact ⟨g, hg⟩
  · rintro ⟨g, rfl⟩
    rw [sqlSkipSpaces_gap g (stopsAt_cons.mpr hspace)]
    dsimp only
    rw [if_neg (not_not.mpr rfl)]

/-- A character is found behind the whitespace that was skipped before. -/
theorem sqlMatchChar_sqlSkipSpaces (cursor : Cursor) (expected : UInt8) :
    sqlMatchChar (sqlSkipSpaces cursor) expected = sqlMatchChar cursor expected := by
  unfold sqlMatchChar
  rw [sqlSkipSpaces_idem]

/-- A character that does not match leaves the cursor behind the whitespace. -/
theorem sqlMatchChar_none {cursor rest : Cursor} {expected : UInt8}
    (h : sqlMatchChar cursor expected = (none, rest)) : rest = sqlSkipSpaces cursor := by
  unfold sqlMatchChar at h
  split at h
  · rename_i hnil
    rw [hnil, (Prod.mk.inj h).2]
  · rename_i c s heq
    split_ifs at h
    · rw [heq, (Prod.mk.inj h).2]
    · cases h

/-- An identifier that fits into the buffers of the parser. -/
structure Identifier where
  bytes : CBytes
  first : isalpha (peek bytes) = true ∨ peek bytes = 95
  isWordByte : ∀ c ∈ bytes, isWordByte c = true
  length_lt : bytes.length < identifierSize

theorem Identifier.exists_cons (w : Identifier) :
    ∃ c tail, w.bytes = c :: tail ∧ (isalpha c = true ∨ c = 95) := by
  obtain ⟨bytes, hfirst, -, -⟩ := w
  cases bytes with
  | nil => exact absurd hfirst (by decide)
  | cons c tail => exact ⟨c, tail, rfl, hfirst⟩

theorem isWordByte_of_first {c : UInt8} (h : isalpha c = true ∨ c = 95) : isWordByte c = true := by
  rcases h with h | rfl
  · exact isWordByte_of_isalpha h
  · rfl

theorem sqlParseIdentifier_eq_iff {cursor rest w : CBytes} :
    sqlParseIdentifier cursor identifierSize = (some w, rest) ↔
      ∃ (g : Gap) (column : Identifier), cursor = g.text ++ (column.bytes ++ rest) ∧
        column.bytes = w ∧ StopsAt isWordByte rest := by
  unfold sqlParseIdentifier
  dsimp only
  constructor
  · intro h
    obtain ⟨g, hg⟩ := exists_gap_sqlSkipSpaces cursor
    split_ifs at h with hfirst hlen hlong
    · cases h
    · cases h
    · obtain ⟨hw, hrest⟩ := Prod.mk.inj h
      obtain ⟨⟨w', hw', heq⟩, hstop⟩ := dropWhile_eq_iff.mp hrest
      have htake : (sqlSkipSpaces cursor).takeWhile isWordByte = w' := by
        rw [heq]
        exact takeWhile_eq_of_stopsAt hw' hstop
      rw [htake] at hlong hw
      rw [List.take_of_length_le (by simp only [identifierSize] at hlong ⊢; omega),
        Option.some_inj] at hw
      subst hw
      rw [heq] at hg hfirst
      -- the identifier is not empty, so its first byte is that of the cursor
      have hpeek : peek (w' ++ rest) = peek w' := by
        cases w' with
        | nil =>
          refine absurd hfirst ?_
          have hstop' := (stopsAt_iff_peek (by decide)).mp hstop
          rw [List.nil_append, Bool.not_eq_true, Bool.or_eq_false_iff]
          simp only [isWordByte, isalnum, Bool.or_eq_false_iff] at hstop'
          exact ⟨hstop'.1.1, hstop'.2⟩
        | cons c tail => rfl
      rw [hpeek, Bool.or_eq_true, beq_iff_eq] at hfirst
      exact ⟨g, ⟨w', hfirst, hw', by omega⟩, hg, rfl, hstop⟩
    · cases h
  · rintro ⟨g, column, rfl, rfl, hstop⟩
    obtain ⟨c, tail, hcons, hc⟩ := column.exists_cons
    have hpeek : peek (column.bytes ++ rest) = c := by
      rw [hcons]
      rfl
    have hspace : StopsAt isspace (column.bytes ++ rest) := by
      rw [hcons, List.cons_append, stopsAt_cons]
      exact isspace_of_isWordByte (isWordByte_of_first hc)
    have hlt := column.length_lt
    rw [sqlSkipSpaces_gap g hspace, takeWhile_eq_of_stopsAt column.isWordByte hstop,
      dropWhile_eq_iff.mpr ⟨⟨column.bytes, column.isWordByte, rfl⟩, hstop⟩, hpeek,
      List.take_of_length_le (by simp only [identifierSize] at hlt ⊢; omega), if_neg, if_neg,
      if_neg (by omega)]
    · rw [hcons]
      exact Nat.succ_ne_zero _
    · rw [not_not, Bool.or_eq_true, beq_iff_eq]
      exact hc

/-- An identifier that is a spelling of a word. -/
theorem sqlParseIdentifier_spelling_iff {cursor rest word : CBytes} (hword : IsWord word)
    (hlen : word.length < identifierSize) {w : CBytes} :
    sqlParseIdentifier cursor identifierSize = (some w, rest) ∧ casecmpEq w word = true ↔
      ∃ (g : Gap) (s : Spelling word), cursor = g.text ++ (s.text ++ rest) ∧ s.text = w ∧
        StopsAt isWordByte rest := by
  rw [sqlParseIdentifier_eq_iff]
  constructor
  · rintro ⟨⟨g, column, rfl, rfl, hstop⟩, hsame⟩
    exact ⟨g, ⟨column.bytes, hsame⟩, rfl, rfl, hstop⟩
  · rintro ⟨g, s, rfl, rfl, hstop⟩
    -- a spelling consists of letters, so it is an identifier
    have hs := hword.spelling s
    obtain ⟨c, tail, hcons, hc⟩ := hs.exists_cons
    have hfirst : isalpha (peek s.text) = true := by
      rw [hcons]
      exact hc
    have hlength : s.text.length = word.length := by
      have := congrArg List.length (casecmpEq_iff.mp s.same)
      simpa using this
    exact ⟨⟨g, ⟨s.text, Or.inl hfirst, fun c hc => isWordByte_of_isalpha (hs.isalpha c hc),
      hlength.trans_lt hlen⟩, rfl, rfl, hstop⟩, s.same⟩

theorem sqlStringLoop_eq_iff {buffer cursor s rest : CBytes}
    (hbuffer : buffer.length < recordNameSize) :
    sqlStringLoop recordNameSize buffer cursor = (some s, rest) ↔
      ∃ t, s = buffer ++ t ∧ s.length < recordNameSize ∧ 39 ∉ t ∧ cursor = t ++ 39 :: rest := by
  induction cursor generalizing buffer with
  | nil => simp [sqlStringLoop]
  | cons c cursor ih =>
    rw [sqlStringLoop]
    split_ifs with hquote hlong
    · subst hquote
      rw [Prod.mk.injEq, Option.some_inj]
      constructor
      · rintro ⟨rfl, rfl⟩
        exact ⟨[], (List.append_nil _).symm, hbuffer, List.not_mem_nil, rfl⟩
      · rintro ⟨t, rfl, -, ht, heq⟩
        cases t with
        | nil => simpa using heq
        | cons c t =>
          rw [List.cons_append, List.cons.injEq] at heq
          exact absurd (heq.1 ▸ List.mem_cons_self) ht
    · -- the buffer is full, and the text goes on
      simp only [Prod.mk.injEq, reduceCtorEq, false_and, false_iff]
      rintro ⟨t, rfl, hlen, ht, heq⟩
      cases t with
      | nil => exact hquote (List.cons.inj heq).1
      | cons c t =>
        rw [List.length_append, List.length_cons] at hlen
        omega
    · rw [ih (by rw [List.length_append, List.length_singleton]; omega)]
      constructor
      · rintro ⟨t, rfl, hlen, ht, rfl⟩
        refine ⟨c :: t, by simp, hlen, ?_, rfl⟩
        rw [List.mem_cons]
        rintro (h | h)
        · exact hquote h.symm
        · exact ht h
      · rintro ⟨t, rfl, hlen, ht, heq⟩
        cases t with
        | nil => exact absurd (List.cons.inj heq).1 hquote
        | cons c' t =>
          rw [List.cons_append, List.cons.injEq] at heq
          obtain ⟨rfl, rfl⟩ := heq
          exact ⟨t, by simp, hlen, fun h => ht (List.mem_cons_of_mem _ h), rfl⟩

theorem sqlParseString_eq_iff {cursor rest s : CBytes} :
    sqlParseString cursor recordNameSize = (some s, rest) ↔
      ∃ (g : Gap) (text : StringOperand), cursor = g.text ++ text.textBefore rest ∧
        text.bytes = s := by
  unfold sqlParseString
  constructor
  · intro h
    obtain ⟨g, hg⟩ := exists_gap_sqlSkipSpaces cursor
    split at h
    · cases h
    · rename_i c tail heq
      split_ifs at h with hne
      · cases h
      · obtain ⟨t, rfl, hlen, hquote, rfl⟩ := (sqlStringLoop_eq_iff (by decide)).mp h
        rw [heq, not_not.mp hne] at hg
        exact ⟨g, ⟨s, hquote, hlen⟩, hg, rfl⟩
  · rintro ⟨g, text, rfl, rfl⟩
    unfold StringOperand.textBefore
    rw [sqlSkipSpaces_gap g (stopsAt_cons.mpr (by decide))]
    dsimp only
    rw [if_neg (not_not.mpr rfl), sqlStringLoop_eq_iff (by decide)]
    exact ⟨text.bytes, rfl, text.length_lt, text.no_quote, rfl⟩

/-! ### Numbers and operators -/

/-- The `int` that the parser makes of a literal: `strtol` saturates, the cast cuts off. -/
def IntLiteral.parsed (n : IntLiteral) : ℤ := intWrap (max longMin (min longMax n.value))

/-- A literal in the range of `int` means its value. -/
theorem IntLiteral.parsed_eq {n : IntLiteral} (hle : -2 ^ 31 ≤ n.value) (hlt : n.value < 2 ^ 31) :
    n.parsed = n.value := by
  have hclamp : max longMin (min longMax n.value) = n.value := by
    simp only [longMin, longMax]
    omega
  rw [IntLiteral.parsed, hclamp, intWrap]
  apply Int.bmod_eq_of_le <;> omega

theorem strtol_literal (n : IntLiteral) {rest : CBytes} (hstop : StopsAt isdigit rest) :
    strtol (n.text ++ rest) = (max longMin (min longMax n.value), rest) := by
  rw [IntLiteral.text, List.append_assoc, strtol_eq n.isdigit hstop (Or.inr n.ne_nil),
    if_neg n.ne_nil]
  rfl

/-- A number begins with a digit or with `-`. -/
theorem IntLiteral.exists_cons (n : IntLiteral) :
    ∃ c tail, n.text = c :: tail ∧ (CString.isdigit c = true ∨ c = 45) := by
  obtain ⟨c, tail, hcons⟩ := List.exists_cons_of_ne_nil n.ne_nil
  unfold IntLiteral.text
  cases n.negative with
  | true => exact ⟨45, n.digits, rfl, Or.inr rfl⟩
  | false => exact ⟨c, tail, hcons, Or.inl (n.isdigit c (hcons ▸ List.mem_cons_self))⟩

theorem sqlParseInt_eq_iff {cursor rest : Cursor} {value : ℤ} :
    sqlParseInt cursor = (some value, rest) ↔
      ∃ (g : Gap) (n : IntLiteral), cursor = g.text ++ (n.text ++ rest) ∧ n.parsed = value ∧
        StopsAt isdigit rest := by
  unfold sqlParseInt
  dsimp only
  constructor
  · intro h
    obtain ⟨g, hg⟩ := exists_gap_sqlSkipSpaces cursor
    split_ifs at h with hfirst hend
    · cases h
    · obtain ⟨hvalue, hrest⟩ := Prod.mk.inj h
      -- the sign, if there is one, and the digits behind it
      obtain ⟨negative, t, ht, hdig⟩ : ∃ (negative : Bool) (t : CBytes),
          sqlSkipSpaces cursor = (if negative then [45] else []) ++ t ∧
          (negative = true ∨ t.takeWhile isdigit ≠ []) := by
        cases hs : sqlSkipSpaces cursor with
        | nil =>
          rw [hs] at hfirst
          exact absurd hfirst (by decide)
        | cons c t =>
          rw [hs] at hfirst
          rcases Bool.or_eq_true_iff.mp hfirst with hc | hc
          · refine ⟨false, c :: t, rfl, Or.inr ?_⟩
            rw [List.takeWhile_cons_of_pos (show isdigit c = true from hc)]
            exact List.cons_ne_nil _ _
          · exact ⟨true, t, by rw [show c = 45 from eq_of_beq hc]; rfl, Or.inl rfl⟩
      generalize htail : t.dropWhile isdigit = tail
      obtain ⟨⟨digits, hdigits, rfl⟩, hstop⟩ := dropWhile_eq_iff.mp htail
      rw [takeWhile_eq_of_stopsAt hdigits hstop] at hdig
      rw [ht, strtol_eq hdigits hstop hdig] at hend hvalue hrest
      by_cases hnil : digits = []
      · rw [if_pos hnil] at hend
        exact absurd rfl hend
      · rw [if_neg hnil] at hvalue hrest
        subst hrest
        refine ⟨g, ⟨negative, digits, hnil, hdigits⟩, ?_, Option.some_inj.mp hvalue, hstop⟩
        rw [hg, ht, IntLiteral.text, List.append_assoc]
    · cases h
  · rintro ⟨g, n, rfl, rfl, hstop⟩
    obtain ⟨c, tail, hcons, hc⟩ := n.exists_cons
    have hspace : isspace c = false := by
      by_contra hs
      rcases hc with hc | rfl
      · rw [isdigit_of_isspace (Bool.eq_true_of_not_eq_false hs)] at hc
        cases hc
      · exact hs rfl
    have hpeek : peek (n.text ++ rest) = c := by
      rw [hcons]
      rfl
    rw [sqlSkipSpaces_gap g (by rw [hcons, List.cons_append, stopsAt_cons]; exact hspace),
      strtol_literal n hstop, hpeek, if_neg, if_neg]
    · rfl
    · intro h
      rw [hcons] at h
      exact List.cons_ne_nil c tail (List.self_eq_append_left.mp h)
    · rw [not_not, Bool.or_eq_true, beq_iff_eq]
      exact hc

/-- The operators of one character are not followed by `=`. -/
def TableComparison.EndsBefore (op : TableComparison) (rest : CBytes) : Prop :=
  op = .lt ∨ op = .gt → rest.head? ≠ some 61

theorem sqlParseComparison_eq_iff {cursor rest : Cursor} {op : TableComparison} :
    sqlParseComparison cursor = (some op, rest) ↔
      ∃ g : Gap, cursor = g.text ++ (op.text ++ rest) ∧ op.EndsBefore rest := by
  unfold sqlParseComparison
  constructor
  · intro h
    obtain ⟨g, hg⟩ := exists_gap_sqlSkipSpaces cursor
    refine ⟨g, ?_⟩
    split at h
    all_goals
      cases h
    all_goals
      rename_i heq
      rw [heq] at hg
      refine ⟨hg, ?_⟩
      simp only [TableComparison.EndsBefore, reduceCtorEq, or_self, false_implies, or_false,
        or_true, true_implies]
    all_goals
      rename_i hne
      intro hhead
      obtain ⟨tail, rfl⟩ := List.head?_eq_some_iff.mp hhead
      exact hne tail rfl
  · rintro ⟨g, rfl, hend⟩
    have hstop : StopsAt isspace (op.text ++ rest) := by
      cases op <;> exact stopsAt_cons.mpr (by decide)
    rw [sqlSkipSpaces_gap g hstop]
    cases op with
    | eq => rfl
    | le => rfl
    | ge => rfl
    | lt =>
      cases rest with
      | nil => rfl
      | cons c rest =>
        have hc : c ≠ 61 := fun h => hend (Or.inl rfl) (by rw [h]; rfl)
        simp [TableComparison.text, hc]
    | gt =>
      cases rest with
      | nil => rfl
      | cons c rest =>
        have hc : c ≠ 61 := fun h => hend (Or.inr rfl) (by rw [h]; rfl)
        simp [TableComparison.text, hc]

/-! ### The end of a statement -/

/-- Behind a gap, a semicolon with a gap, or nothing. -/
def semicolonText : Option Gap → CBytes
  | none => []
  | some g => 59 :: g.text

/-- Where `sql_match_statement_end` leaves the cursor, whether it succeeds or not. -/
theorem sqlMatchStatementEnd_snd_eq_iff {cursor rest : Cursor} :
    (sqlMatchStatementEnd cursor).2 = rest ↔
      ∃ (g : Gap) (semicolon : Option Gap),
        cursor = g.text ++ (semicolonText semicolon ++ rest) ∧ StopsAt isspace rest ∧
        (semicolon = none → rest.head? ≠ some 59) := by
  unfold sqlMatchStatementEnd
  dsimp only
  constructor
  · rintro rfl
    obtain ⟨g, hg⟩ := exists_gap_sqlSkipSpaces cursor
    refine ⟨g, ?_⟩
    split_ifs with hpeek
    · -- a `;`, and a gap behind it
      obtain ⟨tail, htail⟩ : ∃ tail, sqlSkipSpaces cursor = 59 :: tail := by
        cases hs : sqlSkipSpaces cursor with
        | nil =>
          rw [hs] at hpeek
          exact absurd hpeek (by decide)
        | cons c tail =>
          rw [hs] at hpeek
          exact ⟨tail, by rw [show c = 59 from hpeek]⟩
      obtain ⟨g', hg'⟩ := exists_gap_sqlSkipSpaces tail
      refine ⟨some g', ?_, stopsAt_sqlSkipSpaces _, by simp⟩
      rw [htail, List.tail_cons, semicolonText, List.cons_append, ← hg', ← htail]
      exact hg
    · refine ⟨none, ?_, stopsAt_sqlSkipSpaces _, fun _ hhead => ?_⟩
      · rw [sqlSkipSpaces_idem]
        exact hg
      · rw [sqlSkipSpaces_idem] at hhead
        obtain ⟨tail, htail⟩ := List.head?_eq_some_iff.mp hhead
        exact hpeek (by rw [htail]; rfl)
  · rintro ⟨g, semicolon, rfl, hstop, hne⟩
    cases semicolon with
    | some g' =>
      have hskip : sqlSkipSpaces (g.text ++ (semicolonText (some g') ++ rest)) =
          59 :: (g'.text ++ rest) :=
        sqlSkipSpaces_gap g (stopsAt_cons.mpr (by decide))
      rw [hskip, if_pos (show peek (59 :: _) = 59 from rfl), List.tail_cons,
        sqlSkipSpaces_gap g' hstop]
    | none =>
      have hskip : sqlSkipSpaces (g.text ++ (semicolonText none ++ rest)) = rest :=
        sqlSkipSpaces_gap g hstop
      have hpeek : peek rest ≠ 59 := by
        cases rest with
        | nil => decide
        | cons c rest =>
          intro h
          exact hne rfl (by rw [show c = 59 from h]; rfl)
      rw [hskip, if_neg hpeek]
      exact sqlSkipSpaces_eq_iff.mpr ⟨⟨default, rfl⟩, hstop⟩

theorem sqlMatchStatementEnd_eq (cursor : Cursor) :
    sqlMatchStatementEnd cursor =
      (if (sqlMatchStatementEnd cursor).2 = [] then some () else none,
        (sqlMatchStatementEnd cursor).2) := rfl

theorem sqlMatchStatementEnd_eq_some_iff {cursor rest : Cursor} {u : Unit} :
    sqlMatchStatementEnd cursor = (some u, rest) ↔ (∃ e : Ending, cursor = e.text) ∧ rest = [] := by
  have hsnd : (sqlMatchStatementEnd cursor).2 = [] ↔ ∃ e : Ending, cursor = e.text := by
    rw [sqlMatchStatementEnd_snd_eq_iff]
    constructor
    · rintro ⟨g, semicolon, rfl, -, -⟩
      cases semicolon with
      | none => exact ⟨⟨g, false, default⟩, rfl⟩
      | some g' =>
        refine ⟨⟨g, true, g'⟩, ?_⟩
        simp [Ending.text, semicolonText]
    · rintro ⟨⟨g, semicolon, trailing⟩, rfl⟩
      cases semicolon with
      | false =>
        have hspace : ∀ c ∈ g.text ++ trailing.text, isspace c = true := by
          intro c hc
          rcases List.mem_append.mp hc with hc | hc
          · exact g.space c hc
          · exact trailing.space c hc
        refine ⟨⟨g.text ++ trailing.text, hspace⟩, none, ?_, stopsAt_nil _, by simp⟩
        simp [Ending.text, semicolonText]
      | true => exact ⟨g, some trailing, by simp [Ending.text, semicolonText], stopsAt_nil _,
        by simp⟩
  rw [← hsnd, sqlMatchStatementEnd_eq]
  dsimp only
  constructor
  · intro h
    split_ifs at h with hnil
    · exact ⟨hnil, by rw [← (Prod.mk.inj h).2, hnil]⟩
    · cases h
  · rintro ⟨hnil, rfl⟩
    rw [if_pos hnil, hnil]

/-! ### What a helper leaves -/

theorem sqlSkipSpaces_suffix (cursor : Cursor) : sqlSkipSpaces cursor <:+ cursor :=
  List.dropWhile_suffix isspace

theorem sqlMatchKeyword_suffix (cursor : Cursor) (keyword : CBytes) :
    (sqlMatchKeyword cursor keyword).2 <:+ cursor := by
  rcases h : sqlMatchKeyword cursor keyword with ⟨_ | _, rest⟩
  · rw [sqlMatchKeyword_none h]
  · obtain ⟨w, rfl, -⟩ := sqlMatchKeyword_eq_iff.mp h
    exact List.suffix_append _ _

theorem sqlMatchChar_suffix (cursor : Cursor) (expected : UInt8) :
    (sqlMatchChar cursor expected).2 <:+ cursor := by
  have hskip := sqlSkipSpaces_suffix cursor
  unfold sqlMatchChar
  split
  · exact List.nil_suffix
  · rename_i c rest hcons
    rw [hcons] at hskip
    split_ifs
    · exact hskip
    · exact (List.suffix_cons c rest).trans hskip

theorem sqlParseIdentifier_suffix (cursor : Cursor) (bufferSize : ℕ) :
    (sqlParseIdentifier cursor bufferSize).2 <:+ cursor := by
  have hskip := sqlSkipSpaces_suffix cursor
  unfold sqlParseIdentifier
  dsimp only
  have hrest : ((sqlSkipSpaces cursor).dropWhile isWordByte) <:+ cursor :=
    (List.dropWhile_suffix isWordByte).trans hskip
  split_ifs
  · exact hskip
  · exact hrest
  · exact hrest
  · exact hskip

theorem sqlStringLoop_suffix (bufferSize : ℕ) (buffer : CBytes) (cursor : Cursor) :
    (sqlStringLoop bufferSize buffer cursor).2 <:+ cursor := by
  induction cursor generalizing buffer with
  | nil => exact List.nil_suffix
  | cons c cursor ih =>
    rw [sqlStringLoop]
    split_ifs
    · exact List.suffix_cons c cursor
    · exact List.suffix_rfl
    · exact (ih _).trans (List.suffix_cons c cursor)

theorem sqlParseString_suffix (cursor : Cursor) (bufferSize : ℕ) :
    (sqlParseString cursor bufferSize).2 <:+ cursor := by
  have hskip := sqlSkipSpaces_suffix cursor
  unfold sqlParseString
  split
  · exact List.nil_suffix
  · rename_i c rest hcons
    rw [hcons] at hskip
    split_ifs
    · exact hskip
    · exact ((sqlStringLoop_suffix _ _ rest).trans (List.suffix_cons c rest)).trans hskip

theorem strtol_suffix (s : CBytes) : (strtol s).2 <:+ s := by
  obtain ⟨u, hu, hsuffix⟩ : ∃ u, (if peek (s.dropWhile isspace) = 45 ∨
      peek (s.dropWhile isspace) = 43 then (s.dropWhile isspace).tail
        else s.dropWhile isspace) = u ∧ u <:+ s := by
    refine ⟨_, rfl, ?_⟩
    split_ifs
    · exact (List.tail_suffix _).trans (List.dropWhile_suffix _)
    · exact List.dropWhile_suffix _
  rw [strtol_eq_ite rfl hu]
  by_cases hdigits : u.takeWhile isdigit = []
  · rw [if_pos hdigits]
  · rw [if_neg hdigits]
    exact (List.dropWhile_suffix _).trans hsuffix

theorem sqlParseInt_suffix (cursor : Cursor) : (sqlParseInt cursor).2 <:+ cursor := by
  have hskip := sqlSkipSpaces_suffix cursor
  unfold sqlParseInt
  dsimp only
  split_ifs
  · exact hskip
  · exact (strtol_suffix _).trans hskip
  · exact hskip

theorem sqlParseComparison_suffix (cursor : Cursor) : (sqlParseComparison cursor).2 <:+ cursor := by
  have hskip := sqlSkipSpaces_suffix cursor
  unfold sqlParseComparison
  split
  case h_6 => exact hskip
  case h_1 heq | h_2 heq =>
    rw [heq] at hskip
    exact ((List.suffix_cons _ _).trans (List.suffix_cons _ _)).trans hskip
  case h_3 heq | h_4 heq | h_5 heq =>
    rw [heq] at hskip
    exact (List.suffix_cons _ _).trans hskip

theorem sqlMatchStatementEnd_suffix (cursor : Cursor) :
    (sqlMatchStatementEnd cursor).2 <:+ cursor := by
  obtain ⟨g, semicolon, heq, -, -⟩ := sqlMatchStatementEnd_snd_eq_iff.mp
    (show (sqlMatchStatementEnd cursor).2 = _ from rfl)
  rw [← List.append_assoc] at heq
  exact ⟨_, heq.symm⟩

/-! ### Lock modes -/

/-- Whitespace does not matter for the lock mode. -/
theorem sqlDetermineLockMode_gap (w : Gap) (s : CBytes) :
    sqlDetermineLockMode (w.text ++ s) = sqlDetermineLockMode s := by
  unfold sqlDetermineLockMode
  rw [show sqlSkipSpaces (w.text ++ s) = sqlSkipSpaces s from List.dropWhile_append_of_pos w.space]

end MiniDbms
