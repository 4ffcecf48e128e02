import MiniDbms.Lib.CString

/-!
# Tokens and lines of a C string

`tokens p s` are the pieces of a string between the bytes of a class, without the empty ones: what
`strtok` gives call by call (`tokens_of_strtok`), and what the conversions `%s` of `sscanf` read, as
far as they are wide enough (`exists_scanWord`).  `crlfLines s` are the lines of a string whose line
end is `\r\n`, the first of them found by `strstr` (`crlfLines_of_strstr`).  A string without a `\r`
or `\n` of its own has the same lines either way (`tokens_isCrlf`).
-/

namespace CString

variable {p : UInt8 → Bool} {s t rest : List UInt8}

/-! ### Tokens -/

/-- What is left behind a class of bytes. -/
theorem stopsAt_dropWhile (p : UInt8 → Bool) (s : List UInt8) : StopsAt p (s.dropWhile p) :=
  (dropWhile_eq_iff.mp rfl).2

/-- The pieces between the bytes of a class, without the empty ones. -/
def tokens (p : UInt8 → Bool) (s : List UInt8) : List (List UInt8) :=
  (s.splitOnP p).filter (· ≠ [])

@[simp] theorem tokens_nil : tokens p [] = [] := rfl

theorem tokens_cons_of_pos {c : UInt8} (hc : p c = true) : tokens p (c :: s) = tokens p s := by
  simp [tokens, List.splitOnP_cons_eq_if_modifyHead, hc]

/-- What is in front of the first token does not matter. -/
theorem tokens_dropWhile (s : List UInt8) : tokens p (s.dropWhile p) = tokens p s := by
  induction s with
  | nil => rfl
  | cons c s ih =>
    by_cases hc : p c = true
    · rw [List.dropWhile_cons_of_pos hc, tokens_cons_of_pos hc, ih]
    · rw [List.dropWhile_cons_of_neg hc]

/-- A token ends at a byte of the class. -/
theorem tokens_append (ht : t ≠ []) (hout : ∀ c ∈ t, p c = false) (hstop : StopsAt (!p ·) rest) :
    tokens p (t ++ rest) = t :: tokens p rest := by
  cases rest with
  | nil =>
    rw [List.append_nil, tokens, List.splitOnP_eq_singleton hout]
    simp [ht]
  | cons c rest =>
    rw [stopsAt_cons, Bool.not_eq_false'] at hstop
    rw [tokens_cons_of_pos hstop, tokens,
      List.splitOnP_append_cons_of_forall_mem hout c hstop rest]
    simp [ht, tokens]

/-- The first token, and what `strtok` leaves. -/
theorem tokens_takeWhile (hs : s.dropWhile p ≠ []) :
    tokens p s = (s.dropWhile p).takeWhile (!p ·) ::
      tokens p ((s.dropWhile p).dropWhile (!p ·)) := by
  have hfirst := stopsAt_dropWhile p s
  rw [← tokens_dropWhile s]
  conv_lhs => rw [← List.takeWhile_append_dropWhile (p := (!p ·)) (l := s.dropWhile p)]
  refine tokens_append ?_ (fun c hc => ?_) (stopsAt_dropWhile _ _)
  · obtain ⟨c, tail, hcons⟩ := List.exists_cons_of_ne_nil hs
    rw [hcons, stopsAt_cons] at hfirst
    rw [hcons, List.takeWhile_cons_of_pos (by rw [hfirst]; rfl)]
    exact List.cons_ne_nil _ _
  · simpa using List.mem_takeWhile_imp hc

theorem strtok_eq_none_iff : strtok p s = none ↔ tokens p s = [] := by
  unfold strtok
  split
  · rename_i hs
    rw [← tokens_dropWhile s, hs]
    simp
  · rename_i hs
    rw [tokens_takeWhile hs]
    simp

/-- **`strtok` gives the first token**, and goes on with the others. -/
theorem tokens_of_strtok {token : List UInt8} (h : strtok p s = some (token, rest)) :
    tokens p s = token :: tokens p rest := by
  unfold strtok at h
  split at h
  · cases h
  · rename_i hs
    cases h
    rw [tokens_takeWhile hs]
    -- the byte behind the token is skipped by `strtok` already
    have hstop := stopsAt_dropWhile (!p ·) (s.dropWhile p)
    cases htail : (s.dropWhile p).dropWhile (!p ·) with
    | nil => rfl
    | cons c tail =>
      rw [htail, stopsAt_cons, Bool.not_eq_false'] at hstop
      rw [tokens_cons_of_pos hstop, List.drop_one, List.tail_cons]

/-- Without words there is nothing to scan. -/
theorem scanWord_eq_none {width : ℕ} (h : tokens isspace s = []) : scanWord width s = none := by
  have hs : s.dropWhile isspace = [] := by
    by_contra hs
    rw [tokens_takeWhile hs] at h
    cases h
  unfold scanWord
  simp [hs]

/-- **A conversion `%<width>s`** reads the first word as far as it fits; what does not fit is left
in front of the other words. -/
theorem exists_scanWord {width : ℕ} (hwidth : 0 < width) {w : List UInt8} {ws : List (List UInt8)}
    (h : tokens isspace s = w :: ws) :
    ∃ rest, scanWord width s = some (w.take width, rest) ∧
      (w.length ≤ width → tokens isspace rest = ws) ∧
      ws.length ≤ (tokens isspace rest).length := by
  have hs : s.dropWhile isspace ≠ [] := by
    intro hs
    rw [← tokens_dropWhile s, hs] at h
    cases h
  rw [tokens_takeWhile hs, List.cons.injEq] at h
  obtain ⟨hw, hws⟩ := h
  -- the word that was scanned is the first one, and it has a character
  have hne : w ≠ [] := by
    have hfirst := stopsAt_dropWhile isspace s
    obtain ⟨c, tail, hcons⟩ := List.exists_cons_of_ne_nil hs
    rw [hcons, stopsAt_cons] at hfirst
    rw [← hw, hcons, List.takeWhile_cons_of_pos (by rw [hfirst]; rfl)]
    exact List.cons_ne_nil _ _
  obtain ⟨c, word, hcons⟩ : ∃ c word, w.take width = c :: word := by
    apply List.exists_cons_of_ne_nil
    rw [ne_eq, List.take_eq_nil_iff, not_or]
    exact ⟨hwidth.ne', hne⟩
  refine ⟨(s.dropWhile isspace).drop (w.take width).length, ?_, ?_, ?_⟩
  · rw [scanWord, hw, hcons]
  all_goals
    have hsplit : s.dropWhile isspace = w ++ (s.dropWhile isspace).dropWhile (!isspace ·) := by
      rw [← hw, List.takeWhile_append_dropWhile]
    rw [hsplit]
  · -- a word within the width is read to its end
    intro hle
    rw [List.take_of_length_le hle, List.drop_left, hws]
  · -- of a longer word a rest stays, and it is a word of its own
    have hout : ∀ c ∈ w.drop width, isspace c = false := fun c hc => by
      have hmem := List.mem_of_mem_drop hc
      rw [← hw] at hmem
      simpa using List.mem_takeWhile_imp hmem
    have hstop := stopsAt_dropWhile (!isspace ·) (s.dropWhile isspace)
    rw [List.length_take, List.drop_append_of_le_length (Nat.min_le_right _ _)]
    rcases Nat.lt_or_ge width w.length with hlong | hshort
    · rw [min_eq_left hlong.le, tokens_append _ hout hstop, List.length_cons, hws]
      · exact Nat.le_succ _
      · rw [ne_eq, List.drop_eq_nil_iff]
        omega
    · rw [min_eq_right hshort, List.drop_length, List.nil_append, hws]

/-! ### Lines -/

/-- The bytes of a line end. -/
def isCrlf (c : UInt8) : Bool := c == 13 || c == 10

/-- The lines between the `\r\n`. -/
def crlfLines : List UInt8 → List (List UInt8)
  | [] => [[]]
  | 13 :: 10 :: s => [] :: crlfLines s
  | c :: s => (crlfLines s).modifyHead (c :: ·)

/-- What `strstr(s, "\r\n")` finds is the end of the first line. -/
theorem crlfLines_of_strstr (s : List UInt8) :
    (strstr (ascii "\r\n") s = none ∧ crlfLines s = [s]) ∨
      ∃ line rest, strstr (ascii "\r\n") s = some (13 :: 10 :: rest) ∧
        s = line ++ 13 :: 10 :: rest ∧ crlfLines s = line :: crlfLines rest := by
  have hcrlf : ascii "\r\n" = [13, 10] := by decide
  rw [hcrlf]
  induction s with
  | nil => exact Or.inl ⟨rfl, rfl⟩
  | cons c s ih =>
    by_cases hhere : [13, 10].isPrefixOf (c :: s) = true
    · obtain ⟨rest, hrest⟩ := List.isPrefixOf_iff_prefix.mp hhere
      rw [List.cons_append, List.cons_append, List.nil_append] at hrest
      rw [← hrest]
      exact Or.inr ⟨[], rest, rfl, rfl, rfl⟩
    · have hstrstr : strstr [13, 10] (c :: s) = strstr [13, 10] s := by
        rw [strstr, if_neg hhere]
      have hlines : crlfLines (c :: s) = (crlfLines s).modifyHead (c :: ·) := by
        rw [crlfLines]
        rintro s' rfl rfl
        exact hhere rfl
      rw [hstrstr, hlines]
      rcases ih with ⟨hnone, hline⟩ | ⟨line, rest, hsome, rfl, hline⟩
      · exact Or.inl ⟨hnone, by rw [hline]; rfl⟩
      · exact Or.inr ⟨c :: line, rest, hsome, rfl, by rw [hline]; rfl⟩

/-- A proof for all strings goes line by line. -/
theorem crlfLines_induction {P : List UInt8 → Prop}
    (last : ∀ s, crlfLines s = [s] → P s)
    (line : ∀ line rest, crlfLines (line ++ 13 :: 10 :: rest) = line :: crlfLines rest → P rest →
      P (line ++ 13 :: 10 :: rest)) (s : List UInt8) : P s := by
  induction hlen : s.length using Nat.strong_induction_on generalizing s with
  | _ n ih =>
    rcases crlfLines_of_strstr s with ⟨-, hs⟩ | ⟨first, rest, -, rfl, hs⟩
    · exact last s hs
    · refine line first rest hs (ih rest.length ?_ rest rfl)
      rw [← hlen, List.length_append, List.length_cons, List.length_cons]
      omega

/-- **Lines and tokens**: without a `\r` or `\n` in a line, the tokens are the lines that are not
empty. -/
theorem tokens_isCrlf (hlines : ∀ line ∈ crlfLines s, ∀ c ∈ line, isCrlf c = false) :
    tokens isCrlf s = (crlfLines s).filter (· ≠ []) := by
  induction s using crlfLines_induction with
  | last s hs =>
    rw [hs] at hlines ⊢
    rw [tokens, List.splitOnP_eq_singleton (hlines s List.mem_cons_self)]
  | line line rest hs ih =>
    rw [hs] at hlines ⊢
    have hrest := ih fun line' hline' => hlines line' (List.mem_cons_of_mem _ hline')
    rw [tokens, List.splitOnP_append_cons_of_forall_mem (hlines line List.mem_cons_self) 13 rfl,
      List.filter_cons, List.filter_cons, ← hrest, ← tokens_cons_of_pos (c := 10) rfl]
    rfl

/-- An empty line behind the first one is the end of a `\r\n\r\n`. -/
theorem exists_blankLine_of_nil_mem (h : [] ∈ (crlfLines s).tail) :
    ∃ before behind, s ++ [13, 10] = before ++ 13 :: 10 :: 13 :: 10 :: behind := by
  induction s using crlfLines_induction with
  | last s hs =>
    rw [hs] at h
    cases h
  | line line rest hs ih =>
    rw [hs, List.tail_cons] at h
    -- the empty line is the first one of the rest, or behind it
    obtain ⟨first, others, hcons⟩ : ∃ first others, crlfLines rest = first :: others := by
      rcases crlfLines_of_strstr rest with ⟨-, hrest⟩ | ⟨first, rest', -, -, hrest⟩
      · exact ⟨_, _, hrest⟩
      · exact ⟨_, _, hrest⟩
    rw [hcons, List.mem_cons] at h
    rcases h with rfl | h
    · rcases crlfLines_of_strstr rest with ⟨-, hrest⟩ | ⟨first, rest', -, rfl, hrest⟩
      · rw [hrest, List.cons.injEq] at hcons
        rw [hcons.1]
        exact ⟨line, [], by simp⟩
      · rw [hrest, List.cons.injEq] at hcons
        rw [hcons.1]
        exact ⟨line, rest' ++ [13, 10], by simp⟩
    · obtain ⟨before, behind, heq⟩ := ih (by rw [hcons]; exact h)
      refine ⟨line ++ 13 :: 10 :: before, behind, ?_⟩
      rw [List.append_assoc, List.cons_append, List.cons_append, heq]
      simp

end CString
