import MiniDbms.Sql.Equiv.Parse

/-!
# What the parser reports

A statement that is rejected has an error message, and the message and the state fit into their
buffers.
-/

namespace MiniDbms

open CString

/-- The result of a rejected statement. -/
structure SQLParseResult.Reports (r : SQLParseResult) : Prop where
  status : r.status = .syntaxError ∨ r.status = .queryError
  sqlState : r.sqlState.length < sqlStateSize
  message : r.errorMessage ≠ []
  length_message : r.errorMessage.length < sqlErrorMessageSize

/-- What `snprintf` writes fits, and its `NUL` too. -/
theorem length_snprintf_lt {size : ℕ} (h : 0 < size) (text : CBytes) :
    (snprintf size text).length < size := by
  rw [snprintf, List.length_take]
  omega

/-- What fits is written as it is. -/
theorem snprintf_eq {size : ℕ} {text : CBytes} (h : text.length < size) :
    snprintf size text = text :=
  List.take_of_length_le (by omega)

theorem length_sqlBuildNearExcerpt_lt (cursor : Cursor) :
    (sqlBuildNearExcerpt cursor nearExcerptSize).length < nearExcerptSize := by
  unfold sqlBuildNearExcerpt
  dsimp only
  split_ifs
  · exact length_snprintf_lt (by decide) _
  · refine lt_of_le_of_lt (List.IsPrefix.length_le (List.rdropWhile_prefix ..)) ?_
    rw [List.length_take]
    exact lt_of_le_of_lt (min_le_left _ _) (by decide)

/-- No message of a syntax error is cut off. -/
theorem sqlParseSetSyntaxError_message (result : SQLParseResult) (cursor : Cursor) :
    (sqlParseSetSyntaxError result cursor).errorMessage =
      ascii ("ERROR 1064 (42000): You have an error in your SQL syntax; check the manual that " ++
        "corresponds to your sql processor2 version for the right syntax to use near '") ++
        sqlBuildNearExcerpt cursor nearExcerptSize ++ ascii "' at line 1" := by
  have hfits : ∀ before after : CBytes, (before ++ after).length = 168 →
      snprintf sqlErrorMessageSize (before ++ sqlBuildNearExcerpt cursor nearExcerptSize ++ after) =
        before ++ sqlBuildNearExcerpt cursor nearExcerptSize ++ after := by
    intro before after hlength
    have hlt := length_sqlBuildNearExcerpt_lt cursor
    apply snprintf_eq
    rw [List.length_append] at hlength
    rw [List.length_append, List.length_append, sqlErrorMessageSize]
    rw [nearExcerptSize] at hlt ⊢
    omega
  simp only [sqlParseSetSyntaxError]
  apply hfits
  rw [ascii_append, ascii_ofList, ascii_ofList, ascii_ofList]
  decide +kernel

theorem reports_syntaxError (result : SQLParseResult) (cursor : Cursor) :
    (sqlParseSetSyntaxError result cursor).Reports where
  status := Or.inl rfl
  sqlState := by
    simp only [sqlParseSetSyntaxError, sqlParseResultSetError]
    exact length_snprintf_lt (by decide) _
  message := sqlParseSetSyntaxError_errorMessage result cursor
  length_message := by
    simp only [sqlParseSetSyntaxError]
    exact length_snprintf_lt (by decide) _

theorem reports_unknownColumn (result : SQLParseResult) (column clauseName : CBytes) :
    (sqlParseSetUnknownColumnError result column clauseName).Reports where
  status := Or.inr rfl
  sqlState := by
    simp only [sqlParseSetUnknownColumnError, sqlParseResultSetError]
    exact length_snprintf_lt (by decide) _
  message := sqlParseSetUnknownColumnError_errorMessage result column clauseName
  length_message := by
    simp only [sqlParseSetUnknownColumnError]
    exact length_snprintf_lt (by decide) _

theorem sqlMatchExit_suffix (cursor : Cursor) : (sqlMatchExit cursor).2 <:+ cursor := by
  have hexit := sqlMatchKeyword_suffix cursor (ascii "EXIT")
  unfold sqlMatchExit
  split
  · rename_i c hc
    rw [hc] at hexit
    exact hexit
  · rename_i c hc
    rw [hc] at hexit
    exact (sqlMatchKeyword_suffix _ _).trans hexit

/-- **The errors of the parser.**  What holds of the syntax errors in a text and of the unknown
columns that it selects holds of the result when the text is rejected. -/
theorem sqlParse_of {P : SQLParseResult → Prop} {s : CBytes}
    (hrefuse : ∀ result cursor, Quoted s cursor → P (sqlParseSetSyntaxError result cursor))
    (hcolumn : ∀ result (column : Identifier) clauseName, SelectsColumn column s clauseName →
      sqlIsKnownColumn column.bytes = false →
      P (sqlParseSetUnknownColumnError result column.bytes clauseName))
    {r : SQLParseResult} (h : sqlParse s = (false, r)) : P r := by
  have hparsed : r.parsed = false := by
    have hfst := sqlParse_fst s
    rw [h] at hfst
    exact hfst.symm
  have hnot : ¬ r.parsed = true := by
    rw [hparsed]
    exact Bool.false_ne_true
  have hinit : ¬ ((sqlParseResultInit.parsed || decide (sqlParseResultInit.errorMessage ≠ [])) =
      true) := by decide
  have hskip := sqlSkipSpaces_suffix s
  have hexit := (sqlMatchExit_suffix (sqlSkipSpaces s)).trans hskip
  have hinsert := sqlParseInsert_of (P := fun r => r.Settled ∧ (r.parsed = true ∨ P r)) (s := s)
    (fun result cursor h => ⟨Or.inr (sqlParseSetSyntaxError_errorMessage _ _),
      Or.inr (hrefuse result cursor h)⟩) (fun _ h => ⟨Or.inl h, Or.inl h⟩) sqlParseResultInit
  have hselect := sqlParseSelect_of (P := fun r => r.parsed = true ∨ P r) (s := s)
    (fun result cursor h => Or.inr (hrefuse result cursor h))
    (fun result column clauseName h hknown => Or.inr (hcolumn result column clauseName h hknown))
    (fun _ h => Or.inl h) sqlParseResultInit
  unfold sqlParse at h
  dsimp only at h
  split at h
  · rename_i c hc
    rw [hc] at hexit
    have hend := (sqlMatchStatementEnd_suffix c).trans hexit
    split at h
    · cases h
    · rename_i c' hc'
      rw [hc'] at hend
      cases h
      exact hrefuse _ _ (Or.inl hend)
  · rename_i c hc
    rw [hc] at hexit
    rcases hinsert with heq | ⟨hsettled, hinsert⟩
    · rw [heq, if_neg hinit] at h
      split_ifs at h with hselected
      · rcases hselect with heq' | hselect
        · rw [heq'] at hselected
          exact absurd hselected hinit
        · obtain ⟨-, rfl⟩ := Prod.mk.inj h
          exact hselect.resolve_left hnot
      · cases h
        exact hrefuse _ _ (Or.inl hexit)
    · -- `SELECT` is not tried any more
      have hstop : ((sqlParseInsert s sqlParseResultInit).parsed ||
          decide ((sqlParseInsert s sqlParseResultInit).errorMessage ≠ [])) = true := by
        rw [Bool.or_eq_true, decide_eq_true_eq]
        exact hsettled
      rw [if_pos hstop] at h
      obtain ⟨-, rfl⟩ := Prod.mk.inj h
      exact hinsert.resolve_left hnot

/-- **A rejected statement is reported.** -/
theorem sqlParse_reports {s : CBytes} {r : SQLParseResult} (h : sqlParse s = (false, r)) :
    r.Reports :=
  sqlParse_of (fun result cursor _ => reports_syntaxError result cursor)
    (fun result column clauseName _ _ => reports_unknownColumn result column.bytes clauseName) h

end MiniDbms
