import MiniDbms.Sql.Equiv.Errors
import MiniDbms.Sql.Equiv.Select

/-!
# The lock modes

`sql_determine_lock_mode` looks at the first word of a text, `sql_command_lock_mode` at what the
parser made of it.  They agree on every text that is accepted (`sqlParse_lockMode`), and the mode of
any text says what its execution can do with the table (`sqlDetermineLockMode_agrees`).
-/

namespace MiniDbms

open CString

/-! ### The first word -/

theorem ExitLayout.lockMode (l : ExitLayout) : sqlDetermineLockMode l.text = .none := by
  obtain ⟨-, -, -, -, -, -, -, -, -, -, hexit, hquit⟩ := isWord_keyword
  have hnone : ∀ {word : CBytes} {k : UInt8}, word.head? = some k → IsWord word →
      tolower k ≠ tolower 83 → tolower k ≠ tolower 73 → casecmpEq l.word word = true →
      sqlDetermineLockMode l.text = .none := by
    intro word k hk hword hselect hinsert hsame
    have hskip : sqlSkipSpaces l.text = l.text :=
      sqlSkipSpaces_eq_iff.mpr
        ⟨⟨default, rfl⟩, (hword.spelling ⟨l.word, hsame⟩).stopsAt_isspace _⟩
    have hselect' := sqlMatchKeyword_spelling hk (by decide : (ascii "SELECT").head? = some 83)
      hselect ⟨l.word, hsame⟩ l.ending.text
    have hinsert' := sqlMatchKeyword_spelling hk (by decide : (ascii "INSERT").head? = some 73)
      hinsert ⟨l.word, hsame⟩ l.ending.text
    unfold sqlDetermineLockMode
    simp only [hskip]
    simp only [ExitLayout.text, hselect', hinsert', reduceCtorEq, if_false]
  rcases l.same with hsame | hsame
  · exact hnone (k := 69) (by decide) hexit (by decide) (by decide) hsame
  · exact hnone (k := 81) (by decide) hquit (by decide) (by decide) hsame

theorem InsertLayout.lockMode (l : InsertLayout) (name : StringOperand) (age : IntLiteral) :
    sqlDetermineLockMode (l.text name age) = .write := by
  obtain ⟨hinsert, hinto, -⟩ := isWord_keyword
  have hskip : sqlSkipSpaces (l.text name age) = l.text name age :=
    sqlSkipSpaces_eq_iff.mpr ⟨⟨default, rfl⟩, (hinsert.spelling l.insert).stopsAt_isspace _⟩
  have hselect : (sqlMatchKeyword (l.text name age) (ascii "SELECT")).1 = none := by
    rw [InsertLayout.text, sqlMatchKeyword_spelling (by decide : (ascii "INSERT").head? = some 73)
      (by decide : (ascii "SELECT").head? = some 83) (by decide)]
  have hmatch : sqlMatchKeyword (l.text name age) (ascii "INSERT") = (some (), _) :=
    sqlMatchKeyword_eq_iff.mpr
      ⟨l.insert, rfl, ((hinto.spelling l.into).stopsAt_gap _ _).mpr l.beforeInto.ne_nil⟩
  unfold sqlDetermineLockMode
  simp only [hskip, hselect, hmatch, reduceCtorEq, if_false, if_true]

theorem SelectLayout.lockMode (l : SelectLayout) (rest : CBytes) :
    sqlDetermineLockMode (l.textBefore rest) = .read := by
  have hselect : IsWord (ascii "SELECT") := isWord_keyword.2.2.2.2.1
  have hskip : sqlSkipSpaces (l.textBefore rest) = l.textBefore rest :=
    sqlSkipSpaces_eq_iff.mpr ⟨⟨default, rfl⟩, (hselect.spelling l.select).stopsAt_isspace _⟩
  have hmatch : sqlMatchKeyword (l.textBefore rest) (ascii "SELECT") = (some (), _) :=
    sqlMatchKeyword_eq_iff.mpr
      ⟨l.select, rfl, stopsAt_gap_cons (fun _ => isWordByte_of_isspace) _ (by decide) _⟩
  unfold sqlDetermineLockMode
  simp only [hskip, hmatch, if_true]

/-! ### Texts and commands -/

/-- The mode of a SELECT with a condition. -/
theorem lockMode_selectWhere (l : Layout) (condition : Condition IntLiteral) :
    sqlCommandLockMode ((Statement.selectWhere condition).command l) = .read := by
  cases condition <;> rfl

/-- **The two functions agree** on a text that is accepted. -/
theorem sqlParse_lockMode {input : CBytes} {r : SQLParseResult} (h : sqlParse input = (true, r)) :
    sqlCommandLockMode r.command = sqlDetermineLockMode input := by
  rcases sqlParse_eq_iff.mp h with ⟨g, l, rfl, rfl⟩ | ⟨l, statement, hne, rfl, rfl⟩ |
    ⟨l, g, g', condition, rfl, rfl⟩
  · rw [sqlDetermineLockMode_gap]
    exact l.exit.lockMode.symm
  · cases statement with
    | exit => exact absurd rfl hne
    | insert name age => exact (l.insert.lockMode name age).symm
    | select => exact (l.select.lockMode _).symm
    | selectWhere condition =>
      exact (lockMode_selectWhere l condition).trans (l.select.lockMode _).symm
  · exact (lockMode_selectWhere l condition).trans (l.select.lockMode _).symm

/-! ### Executions -/

/-- The table of `m'` is another one than that of `m`: its arrays and indexes, the next ID, or a
record. -/
def TableMemory.Changed (m m' : TableMemory) : Prop :=
  m'.toTable ≠ m.toTable ∨ m'.records ≠ m.records

/-- What the lock mode of a text says.  The rows that a result returns are its array; an insertion
gives the record that it has stored. -/
structure LockModeAgrees (input : CBytes) : Prop where
  parsed : ∀ r, sqlParse input = (true, r) →
    sqlCommandLockMode r.command = sqlDetermineLockMode input
  changes : ∀ m m' result, sqlExecute m input = some (m', result) → m.Changed m' →
    sqlDetermineLockMode input = .write
  answers : ∀ m m' result, sqlExecute m input = some (m', result) →
    result.records.rows ≠ [] ∨ result.status = .notFound → sqlDetermineLockMode input = .read
  /-- Every table is left as it is, and the result is the same for all of them. -/
  none : sqlDetermineLockMode input = .none → ∃ result, ∀ m, sqlExecute m input = some (m, result)

/-- Only an insertion changes the table. -/
theorem sqlExecutePlan_changed {m m' : TableMemory} {command : SQLCommand} {result : SQLResult}
    (h : sqlExecutePlan m command = some (m', result)) (hchanged : m.Changed m') :
    sqlCommandLockMode command = .write := by
  by_cases htype : command.type = .insert
  · rw [sqlCommandLockMode, htype]
  · obtain ⟨⟨used, honly⟩, -⟩ := sqlExecutePlan_leaves htype h
    rcases hchanged with htable | hrecords
    · exact absurd honly.toTable htable
    · exact absurd honly.records hrecords

/-- A result without rows that does not say `not_found`. -/
theorem SQLResult.no_answer {result : SQLResult} (hrecords : result.records = .empty)
    (hstatus : result.status ≠ .notFound) :
    ¬ (result.records.rows ≠ [] ∨ result.status = .notFound) := by
  rw [hrecords]
  rintro (hrows | hnotFound)
  · exact hrows rfl
  · exact hstatus hnotFound

/-- Only a SELECT has rows as its answer, or none. -/
theorem sqlExecutePlan_answers {m m' : TableMemory} {command : SQLCommand} {result : SQLResult}
    (h : sqlExecutePlan m command = some (m', result))
    (hanswers : result.records.rows ≠ [] ∨ result.status = .notFound) :
    sqlCommandLockMode command = .read := by
  unfold sqlExecutePlan at h
  unfold sqlCommandLockMode
  cases htype : command.type with
  | insert =>
    rw [htype] at h
    dsimp only at h
    rw [sqlExecuteInsertPlan, if_neg (not_not.mpr htype)] at h
    obtain ⟨⟨m₁, record⟩, -, h⟩ := Option.bind_eq_some_iff.mp h
    cases record with
    | none =>
      cases h
      exact absurd hanswers (SQLResult.no_answer rfl (by simp [sqlMakeResult]))
    | some record =>
      obtain ⟨r, -, h⟩ := Option.bind_eq_some_iff.mp h
      cases h
      exact absurd hanswers (SQLResult.no_answer rfl (by simp))
  | exit =>
    rw [htype] at h
    cases h
    exact absurd hanswers (SQLResult.no_answer rfl (by simp [sqlMakeResult]))
  | none =>
    rw [htype] at h
    cases h
    exact absurd hanswers (SQLResult.no_answer rfl (by simp [sqlMakeResult]))
  | _ => rfl

/-- A command without a lock mode has one result for all tables. -/
theorem sqlExecutePlan_unlocked {command : SQLCommand} (h : sqlCommandLockMode command = .none) :
    ∃ result, ∀ m, sqlExecutePlan m command = some (m, result) := by
  unfold sqlCommandLockMode at h
  unfold sqlExecutePlan
  cases htype : command.type with
  | exit => exact ⟨_, fun _ => rfl⟩
  | none => exact ⟨_, fun _ => rfl⟩
  | _ =>
    rw [htype] at h
    cases h

/-- What `sql_execute` does with a command. -/
theorem sqlExecute_accepted {input : CBytes} {r : SQLParseResult}
    (hparse : sqlParse input = (true, r))
    (m : TableMemory) : sqlExecute m input = (sqlExecutePlan m r.command).map fun (m', result) =>
      (m', if r.command.type = .exit then { result with status := .exit } else result) := by
  rw [sqlExecute, hparse]
  show (sqlExecutePlan m r.command).bind _ = _
  cases sqlExecutePlan m r.command with
  | none => rfl
  | some run =>
    show (if r.command.type = .exit then some (run.1, { run.2 with status := SQLStatus.exit })
      else some run) = some (run.1, if r.command.type = .exit then _ else _)
    split_ifs <;> rfl

/-- What it makes of a text that is rejected. -/
theorem sqlExecute_rejected {input : CBytes} {r : SQLParseResult}
    (hparse : sqlParse input = (false, r)) :
    ∃ result : SQLResult, result.records = .empty ∧ result.status ≠ .notFound ∧
      ∀ m, sqlExecute m input = some (m, result) := by
  refine ⟨{ sqlMakeResult r.status .none with
    errorCode := r.errorCode
    sqlState := snprintf sqlStateSize r.sqlState
    errorMessage := snprintf sqlErrorMessageSize r.errorMessage }, rfl, ?_, fun m => ?_⟩
  · show r.status ≠ .notFound
    rcases (sqlParse_reports hparse).status with hstatus | hstatus <;> rw [hstatus] <;> nofun
  · rw [sqlExecute, hparse]

/-- **The lock mode of a text** is that of its command, and covers what its execution does. -/
theorem sqlDetermineLockMode_agrees (input : CBytes) : LockModeAgrees input := by
  rcases hparse : sqlParse input with ⟨_ | _, r⟩
  · obtain ⟨rejected, hrecords, hstatus, hrun⟩ := sqlExecute_rejected hparse
    refine ⟨fun r h => ?_, fun m m' result h hchanged => ?_, fun m m' result h hanswers => ?_,
      fun _ => ⟨rejected, hrun⟩⟩
    · exact absurd (hparse.symm.trans h) (by simp)
    · rw [hrun] at h
      cases h
      exact (hchanged.elim (fun h => h rfl) fun h => h rfl).elim
    · rw [hrun] at h
      cases h
      exact absurd hanswers (SQLResult.no_answer hrecords hstatus)
  · have hmode := sqlParse_lockMode hparse
    have hrun := sqlExecute_accepted hparse
    refine ⟨fun r' h => ?_, fun m m' result h hchanged => ?_, fun m m' result h hanswers => ?_,
      fun hnone => ?_⟩
    · rw [hparse] at h
      cases h
      exact hmode
    · rw [hrun] at h
      obtain ⟨run, hplan, h⟩ := Option.map_eq_some_iff.mp h
      cases h
      rw [← hmode]
      exact sqlExecutePlan_changed hplan hchanged
    · rw [hrun] at h
      obtain ⟨⟨m₁, planned⟩, hplan, h⟩ := Option.map_eq_some_iff.mp h
      rw [← hmode]
      refine sqlExecutePlan_answers hplan ?_
      cases h
      split_ifs at hanswers
      · exact Or.inl (hanswers.resolve_right nofun)
      · exact hanswers
    · obtain ⟨result, hplan⟩ := sqlExecutePlan_unlocked (hmode.trans hnone)
      refine ⟨if r.command.type = .exit then { result with status := .exit } else result,
        fun m => ?_⟩
      rw [hrun, hplan]
      rfl

end MiniDbms
