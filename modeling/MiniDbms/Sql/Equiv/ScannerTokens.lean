import MiniDbms.Sql.Equiv.Tokens
import MiniDbms.Sql.Scanner

/-!
# The tokens over checked memory

Each helper of `MiniDbms.Scanner` succeeds at a position of a string, and does there what the helper
of the same name does with the rest of the string.
-/

namespace MiniDbms.Scanner

open Checked CString

variable {n turns : ℕ} {w : CPointer.Walk turns} {p : CPointer} {s : CBytes}

/-- What a helper over memory returns is what the list-level one does: the same cursor, and a token
when that one has one. -/
structure Reads (w : CPointer.Walk turns) {α β : Type} (R : α → β → Prop)
    (out : Option α × CPointer) (read : Option β × Cursor) : Prop where
  token : Option.Rel R out.1 read.1
  cursor : w.At out.2 read.2

theorem reads_none {α β : Type} {R : α → β → Prop} (h : w.At p s) :
    Reads w R (none, p) (none, s) := ⟨Option.Rel.none, h⟩

theorem reads_some {α β : Type} {R : α → β → Prop} {a : α} {b : β} (hab : R a b) (h : w.At p s) :
    Reads w R (some a, p) (some b, s) := ⟨Option.Rel.some hab, h⟩

/-! ### Spaces, keywords and punctuation -/

theorem sqlSkipSpaces_spec (h : w.At p s) :
    Yields (sqlSkipSpaces turns p) fun q => w.At q (MiniDbms.sqlSkipSpaces s) :=
  h.skipWhile isspace

theorem sqlKeywordLoop_spec (h : w.At p s) {q : CPointer} {word : CBytes} (hq : q.StringAt word) :
    Yields (sqlKeywordLoop turns p q) fun r =>
      Option.Rel w.At r (MiniDbms.sqlKeywordLoop s word) := by
  refine loop_spec
    (P := fun (i : CBytes × CBytes) (r : CPointer × CPointer) => w.At r.1 i.1 ∧ r.2.StringAt i.2)
    (Q := fun i r => Option.Rel w.At r (MiniDbms.sqlKeywordLoop i.1 i.2))
    (fun i => i.1.length) ?_ (i := (s, word)) ⟨h, hq⟩ h.length_lt
  rintro ⟨s, word⟩ ⟨start, q⟩ ⟨hs, hq⟩
  dsimp only at hs hq ⊢
  rw [hq.read]
  cases word with
  | nil =>
    refine Or.inl ⟨some start, rfl, ?_⟩
    rw [MiniDbms.sqlKeywordLoop]
    exact Option.Rel.some hs
  | cons k word =>
    have hk : k ≠ 0 := hq.ne_zero
    rw [hs.read]
    cases s with
    | nil =>
      -- the `NUL` is not the next byte of the keyword
      have hne : tolower 0 ≠ tolower k := fun h => hk (CPointer.tolower_eq_zero_iff.mp h.symm)
      refine Or.inl ⟨none, by simp [peek, hk, hne], ?_⟩
      rw [MiniDbms.sqlKeywordLoop]
      exact Option.Rel.none
    | cons c s =>
      rw [MiniDbms.sqlKeywordLoop]
      by_cases hc : tolower c = tolower k
      · refine Or.inr ⟨(start.add 1, q.add 1), (s, word), by simp [peek, hk, hc],
          ⟨hs.next, hq.next⟩, by simp, fun r hr => ?_⟩
        rw [if_neg (not_not.mpr hc)]
        exact hr
      · refine Or.inl ⟨none, by simp [peek, hk, hc], ?_⟩
        rw [if_pos hc]
        exact Option.Rel.none

theorem sqlMatchKeyword_spec (h : w.At p s) (keyword : CBytes) (h0 : 0 ∉ keyword) :
    Yields (sqlMatchKeyword turns p keyword) fun out =>
      Reads w Eq out (MiniDbms.sqlMatchKeyword s keyword) := by
  refine (sqlKeywordLoop_spec h (CPointer.stringAt_ofString h0)).bind fun r hr => ?_
  rw [MiniDbms.sqlMatchKeyword]
  generalize MiniDbms.sqlKeywordLoop s keyword = rest at hr
  cases hr with
  | none => exact yields_some (reads_none h)
  | some hstart =>
    refine Yields.bind_eq hstart.read (yields_some ?_)
    dsimp only
    split_ifs
    · exact reads_none h
    · exact reads_some rfl hstart

theorem sqlMatchChar_spec (h : w.At p s) (expected : UInt8) (h0 : expected ≠ 0) :
    Yields (sqlMatchChar turns p expected) fun out =>
      Reads w Eq out (MiniDbms.sqlMatchChar s expected) := by
  refine (sqlSkipSpaces_spec h).bind fun q hq => ?_
  refine Yields.bind_eq hq.read (yields_some ?_)
  rw [MiniDbms.sqlMatchChar]
  cases hs : MiniDbms.sqlSkipSpaces s with
  | nil =>
    rw [hs] at hq
    rw [if_pos (show peek [] ≠ expected from Ne.symm h0)]
    exact reads_none hq
  | cons c rest =>
    rw [hs] at hq
    have hpeek : peek (c :: rest) = c := rfl
    dsimp only
    rw [hpeek]
    split_ifs
    · exact reads_none hq
    · exact reads_some rfl hq.next

/-! ### Copying into a buffer -/

/-- What a loop that copies the bytes of a class adds to what it has copied, as long as a `NUL` fits
behind. -/
def copied (isMember : UInt8 → Bool) (bufferSize : ℕ) (read s : CBytes) : CBytes :=
  (s.takeWhile isMember).take (bufferSize - 1 - read.length)

theorem copied_cons {isMember : UInt8 → Bool} {bufferSize : ℕ} {read s : CBytes} {c : UInt8}
    (hc : isMember c = true) (hlt : read.length + 1 < bufferSize) :
    copied isMember bufferSize read (c :: s) =
      c :: copied isMember bufferSize (read ++ [c]) s := by
  obtain ⟨k, hk⟩ : ∃ k, bufferSize - 1 - read.length = k + 1 :=
    ⟨bufferSize - 1 - (read.length + 1), by omega⟩
  rw [copied, copied, List.takeWhile_cons_of_pos hc, hk, List.take_succ_cons, List.length_append,
    List.length_singleton, show bufferSize - 1 - (read.length + 1) = k by omega]

theorem copied_stop {isMember : UInt8 → Bool} {bufferSize : ℕ} {read s : CBytes}
    (h : ¬ (isMember (peek s) = true ∧ read.length + 1 < bufferSize)) :
    copied isMember bufferSize read s = [] := by
  rw [copied]
  by_cases hc : isMember (peek s) = true
  · have hfull : bufferSize - 1 - read.length = 0 := by
      have hnot : ¬ read.length + 1 < bufferSize := fun hlt => h ⟨hc, hlt⟩
      omega
    rw [hfull, List.take_zero]
  · cases s with
    | nil => rw [List.takeWhile_nil, List.take_nil]
    | cons c s => rw [List.takeWhile_cons_of_neg (show ¬ isMember c = true from hc), List.take_nil]

/-! ### Identifiers -/

/-- What a scan of a class of bytes has left to do after some of these bytes. -/
theorem scan_drop {α : Type} (isMember : α → Bool) (s : List α) {k : ℕ}
    (hk : k ≤ (s.takeWhile isMember).length) :
    (s.drop k).takeWhile isMember = (s.takeWhile isMember).drop k ∧
      (s.drop k).dropWhile isMember = s.dropWhile isMember := by
  induction s generalizing k with
  | nil => simp
  | cons c s ih =>
    cases k with
    | zero => exact ⟨rfl, rfl⟩
    | succ k =>
      by_cases hc : isMember c = true
      · rw [List.takeWhile_cons_of_pos hc, List.length_cons, Nat.succ_le_succ_iff] at hk
        rw [List.takeWhile_cons_of_pos hc, List.dropWhile_cons_of_pos hc]
        exact ih hk
      · rw [List.takeWhile_cons_of_neg hc] at hk
        exact absurd hk (by simp)

theorem sqlIdentifierLoop_spec (h : w.At p s) {read : CBytes} {buffer : CArray UInt8 n}
    (hbuffer : buffer.Holds read) {bufferSize : ℕ} (hsize : bufferSize ≤ n) :
    Yields (sqlIdentifierLoop turns bufferSize read.length p buffer) fun r =>
      r.1 = (read ++ copied isWordByte bufferSize read s).length ∧
        w.At r.2.1 (s.drop (copied isWordByte bufferSize read s).length) ∧
          r.2.2.Holds (read ++ copied isWordByte bufferSize read s) := by
  refine loop_spec
    (P := fun (i : CBytes × CBytes) (r : ℕ × CPointer × CArray UInt8 n) =>
      r.1 = i.1.length ∧ w.At r.2.1 i.2 ∧ r.2.2.Holds i.1)
    (Q := fun (i : CBytes × CBytes) (r : ℕ × CPointer × CArray UInt8 n) =>
      r.1 = (i.1 ++ copied isWordByte bufferSize i.1 i.2).length ∧
        w.At r.2.1 (i.2.drop (copied isWordByte bufferSize i.1 i.2).length) ∧
          r.2.2.Holds (i.1 ++ copied isWordByte bufferSize i.1 i.2))
    (fun i => i.2.length) ?_ (i := (read, s)) ⟨rfl, h, hbuffer⟩ h.length_lt
  -- what has been read is in the buffer, and the cursor is behind it
  rintro ⟨read, s⟩ ⟨_, cursor, buffer⟩ ⟨rfl, hs, hb⟩
  dsimp only at hs hb ⊢
  rw [hs.read]
  -- a byte is copied as long as the `NUL` fits behind it
  by_cases hgo : isWordByte (peek s) = true ∧ read.length + 1 < bufferSize
  · obtain ⟨hword, hlt⟩ := hgo
    cases s with
    | nil => exact absurd hword (by decide)
    | cons c s =>
      obtain ⟨buffer', hw, hb'⟩ := hb.write_end c (by omega)
      have hc : isWordByte c = true := hword
      refine Or.inr ⟨(read.length + 1, cursor.add 1, buffer'), (read ++ [c], s), ?_,
        ⟨by simp, hs.next, hb'⟩, by simp, fun r hr => ?_⟩
      · simp [peek, hc, hlt, hw]
      · rw [copied_cons hc hlt]
        dsimp only at hr
        rwa [List.append_assoc] at hr
  · refine Or.inl ⟨(read.length, cursor, buffer), by simp [hgo], ?_⟩
    rw [copied_stop hgo, List.append_nil]
    exact ⟨rfl, hs, hb⟩

theorem sqlIdentifierRestLoop_spec (h : w.At p s) (length : ℕ) :
    Yields (sqlIdentifierRestLoop turns length p) fun r =>
      r.1 = length + (s.takeWhile isWordByte).length ∧ w.At r.2 (s.dropWhile isWordByte) := by
  refine loop_spec (P := fun (i : ℕ × CBytes) (r : ℕ × CPointer) => r.1 = i.1 ∧ w.At r.2 i.2)
    (Q := fun (i : ℕ × CBytes) (r : ℕ × CPointer) =>
      r.1 = i.1 + (i.2.takeWhile isWordByte).length ∧ w.At r.2 (i.2.dropWhile isWordByte))
    (fun i => i.2.length) ?_ (i := (length, s)) ⟨rfl, h⟩ h.length_lt
  rintro ⟨_, s⟩ ⟨length, cursor⟩ ⟨rfl, hs⟩
  dsimp only at hs ⊢
  rw [hs.read]
  cases s with
  | nil => exact Or.inl ⟨(length, cursor), rfl, rfl, hs⟩
  | cons c s =>
    by_cases hc : isWordByte c = true
    · refine Or.inr ⟨(length + 1, cursor.add 1), (length + 1, s), by simp [peek, hc],
        ⟨rfl, hs.next⟩, by simp, fun r hr => ?_⟩
      -- nothing is written any more: the length goes on beyond the buffer
      rw [List.takeWhile_cons_of_pos hc, List.dropWhile_cons_of_pos hc, List.length_cons,
        Nat.add_comm _ 1, ← Nat.add_assoc]
      exact hr
    · refine Or.inl ⟨(length, cursor), by simp [peek, hc], ?_⟩
      rw [List.takeWhile_cons_of_neg hc, List.dropWhile_cons_of_neg hc]
      exact ⟨rfl, hs⟩

/-- The identifier is in the buffer, with its `NUL`. -/
theorem sqlParseIdentifier_spec (h : w.At p s) (buffer : CArray UInt8 n) {bufferSize : ℕ}
    (hsize : bufferSize ≤ n) :
    Yields (sqlParseIdentifier turns p buffer bufferSize) fun out =>
      Reads w (fun a word => (CPointer.ofArray a).StringAt word ∧ word <:+: w.text) out
        (MiniDbms.sqlParseIdentifier s bufferSize) := by
  refine (sqlSkipSpaces_spec h).bind fun q hq => ?_
  refine Yields.bind_eq hq.read ?_
  rw [MiniDbms.sqlParseIdentifier]
  generalize MiniDbms.sqlSkipSpaces s = t at hq
  dsimp only
  by_cases hfirst : (isalpha (peek t) || peek t == 95) = true
  · rw [if_neg (not_not.mpr hfirst), if_neg (not_not.mpr hfirst)]
    refine (sqlIdentifierLoop_spec hq (CArray.holds_nil buffer) hsize).bind fun r hr => ?_
    obtain ⟨length, cursor, buffer⟩ := r
    -- the first loop has copied a beginning of the word
    have hcopied : copied isWordByte bufferSize [] t =
        (t.takeWhile isWordByte).take (bufferSize - 1) := rfl
    have hscan := scan_drop isWordByte t (k := (copied isWordByte bufferSize [] t).length)
      (by rw [hcopied, List.length_take]; exact min_le_right _ _)
    have h0 : 0 ∉ t.takeWhile isWordByte := fun hmem =>
      hq.stringAt.no_nul ((List.takeWhile_prefix _).subset hmem)
    have hsub : t.takeWhile isWordByte <:+: w.text :=
      (List.takeWhile_prefix _).isInfix.trans hq.suffix.isInfix
    rw [hcopied] at hscan
    rw [List.nil_append, hcopied] at hr
    generalize t.takeWhile isWordByte = word at hr hscan h0 hsub ⊢
    obtain ⟨rfl, hcursor, hb⟩ := hr
    dsimp only at hcursor hb ⊢
    by_cases hzero : (word.take (bufferSize - 1)).length = 0
    · rw [if_pos hzero, if_pos hzero]
      rw [hzero] at hcursor
      exact yields_some (reads_none hcursor)
    · rw [if_neg hzero, if_neg hzero]
      -- the second loop counts the rest of it
      refine (sqlIdentifierRestLoop_spec hcursor _).bind fun r hr => ?_
      obtain ⟨length, cursor⟩ := r
      obtain ⟨hlength, hcursor⟩ := hr
      rw [hscan.1, List.length_drop] at hlength
      rw [hscan.2] at hcursor
      have hword : length = word.length := by
        have := List.length_take_le' (bufferSize - 1) word
        dsimp only at hlength
        omega
      subst hword
      dsimp only at hcursor ⊢
      -- a word is refused when it and its `NUL` do not fit
      by_cases hlong : word.length ≥ bufferSize
      · rw [if_pos hlong, if_pos hlong]
        exact yields_some (reads_none hcursor)
      · -- the whole word has been copied
        have hall : word.take (bufferSize - 1) = word := List.take_of_length_le (by omega)
        rw [hall] at hb ⊢
        obtain ⟨buffer', hw, hb'⟩ := hb.write_end 0 (by omega)
        rw [if_neg hlong, if_neg hlong]
        exact Yields.bind_eq hw
          (yields_some (reads_some ⟨CPointer.stringAt_ofArray hb' h0, hsub⟩ hcursor))
  · rw [if_pos hfirst, if_pos hfirst]
    exact yields_some (reads_none hq)

/-! ### String literals -/

/-- How the loop of `sql_parse_string` ends: the text is in the buffer, and the list-level loop ends
with it when the cursor is at a quote. -/
structure StringRead (w : CPointer.Walk turns) (bufferSize : ℕ) (read s : CBytes)
    (r : Option ℕ × CPointer × CArray UInt8 n) (text tail : CBytes) : Prop where
  text_eq : text = read ++ copied (· ≠ 39) bufferSize read s
  cursor : w.At r.2.1 tail
  buffer : r.2.2.Holds text
  length : ∀ length ∈ r.1, length = text.length
  full : r.1 = none → peek tail ≠ 39
  stringLoop : MiniDbms.sqlStringLoop bufferSize read s =
    if peek tail = 39 then (some text, tail.tail) else (none, tail)

theorem sqlStringLoop_spec (h : w.At p s) {read : CBytes} {buffer : CArray UInt8 n}
    (hbuffer : buffer.Holds read) {bufferSize : ℕ} (hsize : bufferSize ≤ n) :
    Yields (sqlStringLoop turns bufferSize read.length p buffer) fun r =>
      ∃ text tail, StringRead w bufferSize read s r text tail := by
  refine loop_spec
    (P := fun (i : CBytes × CBytes) (r : ℕ × CPointer × CArray UInt8 n) =>
      r.1 = i.1.length ∧ w.At r.2.1 i.2 ∧ r.2.2.Holds i.1)
    (Q := fun (i : CBytes × CBytes) r => ∃ text tail, StringRead w bufferSize i.1 i.2 r text tail)
    (fun i => i.2.length) ?_ (i := (read, s)) ⟨rfl, h, hbuffer⟩ h.length_lt
  rintro ⟨read, s⟩ ⟨_, cursor, buffer⟩ ⟨rfl, hs, hb⟩
  dsimp only at hs hb ⊢
  rw [hs.read]
  cases s with
  | nil =>
    -- the `NUL` ends the loop
    refine Or.inl ⟨(some read.length, cursor, buffer), rfl, read, [], ?_, hs, hb, ?_, ?_, rfl⟩
    · rw [copied, List.takeWhile_nil, List.take_nil, List.append_nil]
    · rintro length ⟨⟩
      rfl
    · rintro ⟨⟩
  | cons c s =>
    have hc0 : c ≠ 0 := hs.stringAt.ne_zero
    by_cases hc : c = 39
    · -- so does a quote
      subst hc
      refine Or.inl ⟨(some read.length, cursor, buffer), rfl, read, 39 :: s, ?_, hs, hb, ?_, ?_,
        rfl⟩
      · rw [copied_stop (by simp [peek]), List.append_nil]
      · rintro length ⟨⟩
        rfl
      · rintro ⟨⟩
    · by_cases hfull : read.length + 1 ≥ bufferSize
      · -- the buffer is full: the function returns inside its loop
        refine Or.inl ⟨(none, cursor, buffer), by simp [peek, hc, hc0, hfull], read, c :: s, ?_, hs,
          hb, ?_, fun _ => hc, ?_⟩
        · rw [copied_stop (by omega), List.append_nil]
        · rintro length ⟨⟩
        · rw [MiniDbms.sqlStringLoop, if_neg hc, if_pos hfull,
            if_neg (show peek (c :: s) ≠ 39 from hc)]
      · obtain ⟨buffer', hw, hb'⟩ := hb.write_end c (by omega)
        refine Or.inr ⟨(read.length + 1, cursor.add 1, buffer'), (read ++ [c], s), ?_,
          ⟨by simp, hs.next, hb'⟩, by simp, ?_⟩
        · simp [peek, hc, hc0, hfull, hw]
        · rintro r ⟨text, tail, hr⟩
          refine ⟨text, tail, ?_, hr.cursor, hr.buffer, hr.length, hr.full, ?_⟩
          · rw [copied_cons (by simpa using hc) (by omega), hr.text_eq, List.append_assoc]
            rfl
          · rw [MiniDbms.sqlStringLoop, if_neg hc, if_neg hfull, hr.stringLoop]

theorem sqlParseString_spec (h : w.At p s) (buffer : CArray UInt8 n) {bufferSize : ℕ}
    (hpos : 0 < bufferSize) (hsize : bufferSize ≤ n) :
    Yields (sqlParseString turns p buffer bufferSize) fun r =>
      Reads w (fun _ text => (CPointer.ofArray r.2.2).StringAt text) (r.1, r.2.1)
          (MiniDbms.sqlParseString s bufferSize) ∧
        r.2.2.Holds (sqlStringBuffer s bufferSize) := by
  refine (sqlSkipSpaces_spec h).bind fun q hq => ?_
  refine Yields.bind_eq hq.read ?_
  rw [MiniDbms.sqlParseString, sqlStringBuffer]
  generalize MiniDbms.sqlSkipSpaces s = t at hq
  cases t with
  | nil => exact yields_some ⟨reads_none hq, CArray.holds_nil buffer⟩
  | cons c t =>
    have hpeek : peek (c :: t) = c := rfl
    dsimp only
    rw [hpeek]
    by_cases hc : c = 39
    · rw [if_neg (not_not.mpr hc), if_neg (not_not.mpr hc), if_neg (not_not.mpr hc)]
      refine (sqlStringLoop_spec hq.next (CArray.holds_nil buffer) hsize).bind fun r hr => ?_
      obtain ⟨length, cursor, buffer⟩ := r
      obtain ⟨text, tail, hr⟩ := hr
      have htext : (t.takeWhile (· ≠ 39)).take (bufferSize - 1) = text := hr.text_eq.symm
      rw [hr.stringLoop, htext]
      have hcursor : w.At cursor tail := hr.cursor
      have hb : buffer.Holds text := hr.buffer
      cases length with
      | none =>
        -- a text that is too long
        rw [if_neg (hr.full rfl)]
        exact yields_some ⟨reads_none hcursor, hb⟩
      | some length =>
        obtain rfl := hr.length length rfl
        refine Yields.bind_eq hcursor.read ?_
        by_cases hquote : peek tail = 39
        · rw [if_neg (not_not.mpr hquote), if_pos hquote]
          cases tail with
          | nil => exact absurd hquote (by decide)
          | cons d tail =>
            -- the quote is there, so the `NUL` is written behind the text
            have hlt : text.length < n := by
              rw [← htext, List.length_take]
              omega
            have h0 : 0 ∉ text := by
              rw [← htext]
              exact fun hmem => hq.next.stringAt.no_nul
                ((List.takeWhile_prefix _).subset (List.mem_of_mem_take hmem))
            obtain ⟨buffer', hw, hb'⟩ := hb.write_end 0 hlt
            have hread := reads_some (R := fun _ text => (CPointer.ofArray buffer').StringAt text)
              (a := ()) (CPointer.stringAt_ofArray hb' h0) hcursor.next
            refine Yields.bind_eq hw (yields_some ⟨hread, ?_⟩)
            have hprefix := hb'.take text.length
            rwa [List.take_left' rfl] at hprefix
        · -- a text without its second quote
          rw [if_pos hquote, if_neg hquote]
          exact yields_some ⟨reads_none hcursor, hb⟩
    · rw [if_pos hc, if_pos hc, if_pos hc]
      exact yields_some ⟨reads_none hq, CArray.holds_nil buffer⟩

/-! ### Numbers, comparisons and the end of a statement -/

theorem sqlParseInt_spec (h : w.At p s) :
    Yields (sqlParseInt turns p) fun out => Reads w Eq out (MiniDbms.sqlParseInt s) := by
  refine (sqlSkipSpaces_spec h).bind fun q hq => ?_
  refine Yields.bind_eq hq.read ?_
  rw [MiniDbms.sqlParseInt]
  generalize MiniDbms.sqlSkipSpaces s = t at hq
  dsimp only
  by_cases hfirst : (isdigit (peek t) || peek t == 45) = true
  · rw [if_neg (not_not.mpr hfirst), if_neg (not_not.mpr hfirst)]
    refine hq.strtol.bind fun r hr => ?_
    obtain ⟨parsed, endPtr⟩ := r
    obtain ⟨rfl, hend⟩ := hr
    have hsame := hq.offset_eq_iff hend
    refine yields_some ?_
    dsimp only at hsame hend ⊢
    by_cases hnone : (strtol t).2 = t
    · rw [if_pos hnone, if_pos (hsame.mpr hnone)]
      exact reads_none hq
    · rw [if_neg hnone, if_neg (mt hsame.mp hnone)]
      exact reads_some rfl hend
  · rw [if_pos hfirst, if_pos hfirst]
    exact yields_some (reads_none hq)

/-- The second byte is read only behind a byte that is not the `NUL`. -/
theorem sqlLookAhead_eq (h : w.At p s) {first : UInt8} (h0 : first ≠ 0) :
    sqlLookAhead p first = some (decide (peek s = first ∧ peek s.tail = 61)) := by
  rw [sqlLookAhead, h.read]
  cases s with
  | nil => simp [peek, Ne.symm h0]
  | cons c s =>
    have hpeek : peek (c :: s) = c := rfl
    rw [hpeek, List.tail_cons, h.next.read]
    by_cases hc : c = first
    · simp [hc, beq_eq_decide]
    · simp [hc]

/-- The cases of `sql_parse_comparison`, in the order of the source. -/
theorem sqlParseComparison_eq_ite {t : Cursor} (ht : MiniDbms.sqlSkipSpaces s = t) :
    MiniDbms.sqlParseComparison s =
      if peek t = 62 ∧ peek t.tail = 61 then (some .ge, t.drop 2)
      else if peek t = 60 ∧ peek t.tail = 61 then (some .le, t.drop 2)
      else if peek t = 62 then (some .gt, t.drop 1)
      else if peek t = 60 then (some .lt, t.drop 1)
      else if peek t = 61 then (some .eq, t.drop 1)
      else (none, t) := by
  rw [MiniDbms.sqlParseComparison, ht]
  split
  · rfl
  · rfl
  -- `>` and `<` that no `=` follows
  · rename_i rest hrest
    simp [peek_cons, peek_ne (by decide) hrest]
  · rename_i rest hrest
    simp [peek_cons, peek_ne (by decide) hrest]
  · rfl
  -- no operator
  · rename_i h62 h60 h61
    simp [peek_ne (by decide) h62, peek_ne (by decide) h60, peek_ne (by decide) h61]

theorem sqlParseComparison_spec (h : w.At p s) :
    Yields (sqlParseComparison turns p) fun out =>
      Reads w Eq out (MiniDbms.sqlParseComparison s) := by
  refine (sqlSkipSpaces_spec h).bind fun q hq => ?_
  rw [sqlParseComparison_eq_ite rfl]
  generalize MiniDbms.sqlSkipSpaces s = t at hq
  refine Yields.bind_eq (sqlLookAhead_eq hq (by decide)) ?_
  -- the cursor behind an operator of one byte, and behind one of two
  have hone : peek t ≠ 0 → w.At (q.add 1) (t.drop 1) := by
    intro hne
    cases t with
    | nil => exact absurd rfl hne
    | cons c t => exact hq.next
  have htwo : peek t ≠ 0 → peek t.tail = 61 → w.At (q.add 2) (t.drop 2) := by
    intro hne hnext
    cases t with
    | nil => exact absurd rfl hne
    | cons c t =>
      cases t with
      | nil => exact absurd (show peek [] = 61 from hnext) (by decide)
      | cons d t => exact hq.add (k := 2) (by simp)
  by_cases hge : peek t = 62 ∧ peek t.tail = 61
  · rw [if_pos hge, if_pos (decide_eq_true hge)]
    exact yields_some (reads_some rfl (htwo (by rw [hge.1]; decide) hge.2))
  · rw [if_neg hge, if_neg (mt of_decide_eq_true hge)]
    refine Yields.bind_eq (sqlLookAhead_eq hq (by decide)) ?_
    by_cases hle : peek t = 60 ∧ peek t.tail = 61
    · rw [if_pos hle, if_pos (decide_eq_true hle)]
      exact yields_some (reads_some rfl (htwo (by rw [hle.1]; decide) hle.2))
    · rw [if_neg hle, if_neg (mt of_decide_eq_true hle)]
      refine Yields.bind_eq hq.read (yields_some ?_)
      split_ifs with hgt hlt heq
      · exact reads_some rfl (hone (by rw [hgt]; decide))
      · exact reads_some rfl (hone (by rw [hlt]; decide))
      · exact reads_some rfl (hone (by rw [heq]; decide))
      · exact reads_none hq

/-- A `NUL` right behind the operator: `>` alone is read. -/
example : (sqlParseComparison 2 (.ofString [62])).map (·.1) = some (some .gt) := rfl

theorem sqlMatchStatementEnd_spec (h : w.At p s) :
    Yields (sqlMatchStatementEnd turns p) fun out =>
      Reads w Eq out (MiniDbms.sqlMatchStatementEnd s) := by
  refine (sqlSkipSpaces_spec h).bind fun q hq => ?_
  refine Yields.bind_eq hq.read ?_
  rw [MiniDbms.sqlMatchStatementEnd]
  generalize MiniDbms.sqlSkipSpaces s = t at hq
  -- the position behind the semicolon
  have hbehind : w.At (if peek t = 59 then q.add 1 else q) (if peek t = 59 then t.tail else t) := by
    split_ifs with hsemicolon
    · cases t with
      | nil => exact absurd hsemicolon (by decide)
      | cons c t => exact hq.next
    · exact hq
  refine (sqlSkipSpaces_spec hbehind).bind fun q' hq' => ?_
  refine Yields.bind_eq hq'.read (yields_some ?_)
  generalize MiniDbms.sqlSkipSpaces (if peek t = 59 then t.tail else t) = u at hq' ⊢
  cases u with
  | nil => exact reads_some rfl hq'
  | cons c u =>
    rw [if_neg (show peek (c :: u) ≠ 0 from hq'.stringAt.ne_zero), if_neg (List.cons_ne_nil c u)]
    exact reads_none hq'

end MiniDbms.Scanner
