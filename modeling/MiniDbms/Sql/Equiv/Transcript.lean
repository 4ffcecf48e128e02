import MiniDbms.Sql.Equiv.Repl

/-!
# What the REPL prints, and what it leaves behind

`ListDatabase.transcript` is the session as a user sees it who thinks of the database as one list:
the prompt, and behind it the answer to each statement.  The REPL prints it, byte for byte, for
every standard input, when no allocation and no lock call fails (`repl_transcript`).

Whatever allocations fail, every session frees every record and every result array, each once
(`repl_frees_all`): the table frees the records of every state that statements can reach
(`Kept.destroy`).  It comes to its end as long as there are IDs left: a statement reads no record
that was freed (`keptByStatements_lasting`).
-/

namespace MiniDbms

open CArray CString TableMemory ListDatabase

/-! ### Nothing is left behind -/

section Reached

variable {m m' : TableMemory} {command : SQLCommand} {result : SQLResult}

/-- **`table_destroy` frees everything**, on every table that statements reach, whatever allocations
have failed: every record that was allocated, and none twice.  Then no result array is left either,
and none was freed twice. -/
theorem Kept.destroy (h : Kept m) :
    ∃ m', tableDestroy m = some m' ∧ (∀ p, m'.record p = none) ∧ m'.Owns [] := by
  obtain ⟨rs, hs⟩ := h.formed
  obtain ⟨m', hrun, hfreed, hkept⟩ := h.records.destroy hs.toHoldsRows
  exact ⟨m', hrun, hfreed, hkept [] h.owns⟩

/-- One statement of a text. -/
theorem Kept.sqlExecute (h : Kept m) {input : CBytes}
    (hrun : sqlExecute m input = some (m', result)) : Kept (sqlResultDestroy m' result).1 := by
  rcases hparse : sqlParse input with ⟨_ | _, r⟩
  · obtain ⟨rejected, hrecords, -, hrejected⟩ := sqlExecute_rejected hparse
    rw [hrejected] at hrun
    cases hrun
    rw [sqlResultDestroy, hrecords]
    exact h
  · rw [sqlExecute_accepted hparse] at hrun
    obtain ⟨⟨m₁, result₁⟩, hplan, hrun⟩ := Option.map_eq_some_iff.mp hrun
    have hkept := h.execute hplan
    dsimp only at hrun
    split_ifs at hrun <;> cases hrun <;> exact hkept

/-- What a statement leaves of the IDs. -/
theorem Kept.execute_indexesRows (hm : Kept m) (h : m.IndexesRows)
    (hlt : command.type = .insert → m.nextId + 1 < 2 ^ 31)
    (hrun : sqlExecutePlan m command = some (m', result)) :
    (sqlResultDestroy m' result).1.IndexesRows ∧ (sqlResultDestroy m' result).1.nextId =
      m.nextId + if command.type = .insert then 1 else 0 := by
  obtain ⟨rs, hs⟩ := hm.formed
  have hfree := memoryOnly_freeArray m' result.records
  by_cases htype : command.type = .insert
  · obtain ⟨⟨found, hinsert⟩, -⟩ := sqlExecutePlan_insert htype hrun
    obtain ⟨hindexes, hnext⟩ := tableInsert_indexesRows h hm.unlocked hs (hlt htype) hinsert
    rw [if_pos htype]
    exact ⟨hfree.indexesRows hindexes, hfree.nextId.trans hnext⟩
  · obtain ⟨⟨used, honly⟩, -⟩ := sqlExecutePlan_leaves htype hrun
    have hmemory := (honly.memoryOnly hm.unlocked.lockResults).trans hfree
    rw [if_neg htype, add_zero]
    exact ⟨hmemory.indexesRows h, hmemory.nextId⟩

/-- A table in front of these statements, with an ID left for each INSERT among them. -/
structure Lasting (m : TableMemory) (inputs : List CBytes) : Prop extends Kept m where
  indexes : m.IndexesRows
  nextId : m.nextId + (inputs.filter fun input => IsInsert input).length < 2 ^ 31

/-- The IDs that are left behind a statement. -/
theorem Lasting.tail {input : CBytes} {inputs : List CBytes} (h : Lasting m (input :: inputs)) :
    m.nextId + (if IsInsert input then 1 else 0) +
      (inputs.filter fun input => IsInsert input).length < 2 ^ 31 := by
  have hlast := h.nextId
  by_cases hinsert : IsInsert input
  · rw [List.filter_cons_of_pos (by simpa using hinsert), List.length_cons] at hlast
    rw [if_pos hinsert]
    omega
  · rw [List.filter_cons_of_neg (by simpa using hinsert)] at hlast
    rw [if_neg hinsert]
    omega

/-- As long as there are IDs, every statement ends and reads no record that was freed. -/
theorem keptByStatements_lasting : KeptByStatements Lasting := by
  intro m input inputs h
  have hlast := h.tail
  rcases hparse : sqlParse input with ⟨_ | _, r⟩
  · obtain ⟨result, hrecords, -, hrun⟩ := sqlExecute_rejected hparse
    refine ⟨m, result, [], hrun m, by rw [hrecords]; rfl, ?_⟩
    rw [sqlResultDestroy, hrecords]
    refine ⟨h.toKept, h.indexes, ?_⟩
    show m.nextId + _ < (2 : ℤ) ^ 31
    split_ifs at hlast <;> omega
  · have hinsert : IsInsert input ↔ r.command.type = .insert := by rw [IsInsert, hparse]
    simp only [hinsert] at hlast
    obtain ⟨rs, hs⟩ := h.formed
    obtain ⟨m', result, rows, hplan, hrows⟩ :=
      h.sqlExecutePlan_total (fun p hp => h.indexes.record hs.toHoldsRows hp) r.command
    have hone : r.command.type = .insert → m.nextId + 1 < 2 ^ 31 := by
      intro htype
      rw [if_pos htype] at hlast
      omega
    obtain ⟨hindexes, hnext⟩ := h.execute_indexesRows h.indexes hone hplan
    rw [← hnext] at hlast
    have hbehind : Lasting (sqlResultDestroy m' result).1 inputs :=
      ⟨h.execute hplan, hindexes, hlast⟩
    refine ⟨m', if r.command.type = .exit then { result with status := .exit } else result, rows,
      ?_, ?_, ?_⟩
    · rw [sqlExecute_accepted hparse, hplan]
      rfl
    · split_ifs <;> exact hrows
    · split_ifs <;> exact hbehind

end Reached

section Frees

variable {s s' : Repl}

theorem replRound_kept (h : Kept s.memory) {goesOn : Bool}
    (hround : replRound s = some (goesOn, s')) : Kept s'.memory := by
  unfold replRound at hround
  dsimp only [Repl.print] at hround
  cases hgets : fgets inputBufferSize s.stdin with
  | none =>
    rw [hgets] at hround
    cases hround
    exact h
  | some read =>
    rw [hgets] at hround
    obtain ⟨⟨m, result⟩, hrun, hround⟩ := Option.bind_eq_some_iff.mp hround
    have hkept := h.sqlExecute hrun
    dsimp only at hround
    split_ifs at hround
    · cases hround
      exact hkept
    · obtain ⟨text, -, hround⟩ := Option.bind_eq_some_iff.mp hround
      cases hround
      exact hkept

theorem replLoop_kept {rounds : ℕ} (h : Kept s.memory) (hloop : replLoop rounds s = some s') :
    Kept s'.memory := by
  induction rounds generalizing s with
  | zero => cases hloop
  | succ rounds ih =>
    obtain ⟨⟨goesOn, s₁⟩, hround, hloop⟩ := Option.bind_eq_some_iff.mp hloop
    have hkept := replRound_kept h hround
    cases goesOn with
    | false =>
      cases hloop
      exact hkept
    | true => exact ih hkept hloop

theorem kept_start (allocs : List Bool) : Kept (.start allocs []) :=
  (ReachedBy.allocs allocs .start : ReachedBy AnyStatement _).kept

/-- **A session frees everything**, for every standard input and whatever allocations fail: where
its loop ends, `table_destroy` frees every record that is left, and none twice; and with fewer than
2^31 - 1 INSERTs the session ends. -/
theorem repl_frees_all (allocs : List Bool) (stdin : List UInt8) :
    (∀ s, replLoop (stdin.length + 1) (.start (.start allocs []) stdin) = some s →
      ∃ m, tableDestroy s.memory = some m ∧ (∀ p, m.record p = none) ∧ m.Owns []) ∧
    (((replStatements stdin).filter fun input => IsInsert input).length < 2 ^ 31 - 1 →
      ∃ s, replMain (.start allocs []) stdin = some s ∧
        (∀ p, s.memory.record p = none) ∧ s.memory.Owns []) := by
  have hkept := kept_start allocs
  refine ⟨fun s hloop => (replLoop_kept hkept hloop).destroy, fun hlen => ?_⟩
  have hstart : Lasting (.start allocs []) (replStatements stdin) := by
    refine ⟨hkept, indexesRows_start allocs [], ?_⟩
    show 1 + _ < (2 : ℤ) ^ 31
    omega
  obtain ⟨s, inputs, hloop, hlasts⟩ := replLoop_total (s := .start (.start allocs []) stdin)
    keptByStatements_lasting hstart (Nat.lt_succ_self _)
  obtain ⟨m, hdestroy, hfreed, howns⟩ := hlasts.destroy
  exact ⟨_, bind_eq_of_eq_some hloop (bind_eq_of_eq_some hdestroy rfl), hfreed, howns⟩

/-- There is memory for the record, but none for a node of the index. -/
theorem repl_frees_all_no_node :
    ∃ s, replMain (.start [true, true, false] [])
        (ascii "INSERT INTO users VALUES ('kim', 30);\n") = some s ∧
      s.memory.records = [none] ∧ (∀ p, s.memory.record p = none) ∧ s.memory.Owns [] := by
  have hruns : ((replMain (.start [true, true, false] [])
      (ascii "INSERT INTO users VALUES ('kim', 30);\n")).map fun s => s.memory.records) =
        some [none] := by decide
  obtain ⟨s, hrun, hfreed, howns⟩ := (repl_frees_all [true, true, false]
    (ascii "INSERT INTO users VALUES ('kim', 30);\n")).2 (by decide +kernel)
  rw [hrun] at hruns
  exact ⟨s, hrun, Option.some.inj hruns, hfreed, howns⟩

end Frees

/-! ### The transcript of a list database -/

/-- What is printed of an answer; `message` is the message of a statement that is rejected. -/
def Answer.text (answer : Answer) (message : CBytes) : CBytes :=
  match answer.status with
  | .ok =>
    match answer.action with
    | .insert => ascii "Inserted row with id = " ++ intText answer.insertedId ++ ascii "\n"
    | .selectRows => answer.rows.flatMap tablePrintRecord
    | .none => ascii "Done\n"
  | .notFound => ascii "Not found\n"
  | .syntaxError | .queryError => message ++ ascii "\n"
  | .exit | .error => ascii "Execution error\n"

/-- A session with the list of the rows: prompts and answers. -/
def ListDatabase.transcript (rows : List Record) : List CBytes → CBytes
  | [] => ascii "sql> "
  | input :: inputs =>
    let (rows, answer) := execute rows input
    if answer.status = .exit then ascii "sql> "
    else
      ascii "sql> " ++ (answer.text (sqlParse input).2.errorMessage ++ transcript rows inputs)

/-! ### The answers -/

/-- A SELECT that is answered with `OK` has found something. -/
theorem ListDatabase.execute_rows_ne_nil {rows : List Record} {input : CBytes}
    (hstatus : (execute rows input).2.status = .ok)
    (haction : (execute rows input).2.action = .selectRows) : (execute rows input).2.rows ≠ [] := by
  have hselected : ∀ found, (selected found).status = .ok → (selected found).rows ≠ [] := by
    intro found hok hnil
    have hfound : found = [] := hnil
    rw [selected, if_pos hfound] at hok
    cases hok
  unfold ListDatabase.execute at *
  rcases hparse : sqlParse input with ⟨_ | _, r⟩
  · rw [hparse] at haction
    cases haction
  · rw [hparse] at hstatus haction
    dsimp only at hstatus haction ⊢
    unfold ListDatabase.apply at *
    cases htype : r.command.type with
    | selectAll | selectById | selectByName | selectByAge =>
      rw [htype] at hstatus
      exact hselected _ hstatus
    | insert | exit | none =>
      rw [htype] at haction
      cases haction

section Transcript

variable {m m' : TableMemory} {result : SQLResult} {answer : Answer}

/-- Records are printed with their array. -/
theorem tablePrintRecords_of_rows {records : RecordArray} (hrecords : records.Allocated)
    {rows : List Record} (hrows : m.recordsAt records.rows = some rows) (hne : rows ≠ []) :
    tablePrintRecords m records = some (rows.flatMap tablePrintRecord, records.rows.length) ∧
      records.rows.length ≠ 0 := by
  have hlength := length_recordsAt hrows
  have hpos : records.rows.length ≠ 0 := by
    rw [hlength]
    exact fun hzero => hne (List.length_eq_zero_iff.mp hzero)
  refine ⟨?_, hpos⟩
  unfold tablePrintRecords
  cases hptr : records.ptr with
  | none =>
    obtain ⟨hnil, -⟩ := hrecords hptr
    rw [hnil] at hpos
    exact absurd rfl hpos
  | some ptr => exact bind_eq_of_eq_some hrows rfl

/-- The REPL prints the answer of the list database. -/
theorem replAnswer_eq (hanswer : result.answer m = some answer)
    (hrecords : result.records.Allocated)
    (hne : answer.status = .ok → answer.action = .selectRows → answer.rows ≠ [])
    {message : CBytes}
    (hmessage : (answer.status = .syntaxError ∨ answer.status = .queryError) →
      result.errorMessage = message ∧ message ≠ [])
    (hother : answer.status = .error → result.errorMessage = [])
    (hexit : answer.status ≠ .exit) : replAnswer m result = some (answer.text message) := by
  obtain ⟨rows, hrows, hanswer⟩ := Option.bind_eq_some_iff.mp hanswer
  cases hanswer
  dsimp only at hne hmessage hother hexit
  unfold replAnswer Answer.text
  cases hstatus : result.status with
  | ok =>
    rw [if_pos rfl]
    dsimp only
    cases haction : result.action with
    | insert => rfl
    | none => rfl
    | selectRows =>
      obtain ⟨hprint, hpos⟩ := tablePrintRecords_of_rows hrecords hrows (hne hstatus haction)
      refine bind_eq_of_eq_some hprint ?_
      dsimp only
      rw [if_neg hpos]
  | notFound => rfl
  | syntaxError =>
    obtain ⟨heq, hmsg⟩ := hmessage (Or.inl hstatus)
    rw [← heq] at hmsg ⊢
    rw [if_neg nofun, if_neg nofun, if_pos hmsg]
  | queryError =>
    obtain ⟨heq, hmsg⟩ := hmessage (Or.inr hstatus)
    rw [← heq] at hmsg ⊢
    rw [if_neg nofun, if_neg nofun, if_pos hmsg]
  | exit => exact absurd hstatus hexit
  | error =>
    rw [if_neg nofun, if_neg nofun, hother hstatus, if_neg (by simp), if_neg nofun]

/-! ### One statement -/

theorem sqlSelectRows_allocated {command : SQLCommand} {ok : Bool} {records : RecordArray}
    (h : sqlSelectRows m command = some (ok, m', records)) : records.Allocated := by
  unfold sqlSelectRows at h
  split at h
  · exact tableCollectAllSorted_allocated h
  · exact tableFindByIdCondition_allocated h
  · exact tableFindMatches_allocated h
  · exact tableFindMatches_allocated h
  all_goals
    cases h
    exact allocated_empty

/-- A command has no message, and its array has memory. -/
theorem sqlExecutePlan_prints {command : SQLCommand}
    (h : sqlExecutePlan m command = some (m', result)) :
    result.records.Allocated ∧ result.errorMessage = [] := by
  by_cases hselect : command.IsSelect
  · rw [sqlExecutePlan_select hselect] at h
    obtain ⟨⟨ok, m₁, records⟩, hrows, h⟩ := Option.map_eq_some_iff.mp h
    have hrecords := sqlSelectRows_allocated hrows
    cases ok <;> cases h <;> exact ⟨hrecords, rfl⟩
  · unfold sqlExecutePlan at h
    rcases SQLCommand.type_of_not_isSelect hselect with htype | htype | htype
    · rw [htype] at h
      cases h
      exact ⟨allocated_empty, rfl⟩
    · rw [htype] at h
      cases h
      exact ⟨allocated_empty, rfl⟩
    · rw [htype] at h
      dsimp only at h
      rw [sqlExecuteInsertPlan, if_neg (not_not.mpr htype)] at h
      obtain ⟨⟨m₁, found⟩, -, h⟩ := Option.bind_eq_some_iff.mp h
      cases found with
      | none =>
        cases h
        exact ⟨allocated_empty, rfl⟩
      | some p =>
        obtain ⟨r, -, h⟩ := Option.bind_eq_some_iff.mp h
        cases h
        exact ⟨allocated_empty, rfl⟩

/-- The status of an accepted statement is not one of the parser. -/
theorem ListDatabase.apply_status (rows : List Record) (command : SQLCommand) :
    (apply rows command).2.status ≠ .syntaxError ∧ (apply rows command).2.status ≠ .queryError := by
  have hselected : ∀ found, (selected found).status ≠ .syntaxError ∧
      (selected found).status ≠ .queryError := by
    intro found
    unfold selected
    dsimp only
    split_ifs <;> exact ⟨nofun, nofun⟩
  unfold ListDatabase.apply
  cases command.type with
  | selectAll | selectById | selectByName | selectByAge => exact hselected _
  | insert | exit | none => exact ⟨nofun, nofun⟩

/-- **One statement**: the REPL prints what the list database answers. -/
theorem replAnswer_refines {rows : List Record} {input : CBytes}
    (hrun : sqlExecute m input = some (m', result))
    (hanswer : result.answer m' = some (execute rows input).2)
    (hexit : (execute rows input).2.status ≠ .exit) :
    replAnswer m' result =
      some ((execute rows input).2.text (sqlParse input).2.errorMessage) := by
  rcases hparse : sqlParse input with ⟨_ | _, r⟩
  · have hreports := sqlParse_reports hparse
    have hanswer' : (execute rows input).2 = ⟨r.status, .none, 0, 0, []⟩ := by
      rw [ListDatabase.execute, hparse]
    rw [sqlExecute, hparse] at hrun
    cases hrun
    refine replAnswer_eq hanswer allocated_empty execute_rows_ne_nil (fun _ => ?_)
      (fun herror => ?_) hexit
    · exact ⟨snprintf_eq hreports.length_message, hreports.message⟩
    · rw [hanswer'] at herror
      rcases hreports.status with hstatus | hstatus <;> cases hstatus.symm.trans herror
  · have happly : (execute rows input).2 = (apply rows r.command).2 := by
      rw [ListDatabase.execute, hparse]
    rw [sqlExecute_accepted hparse] at hrun
    obtain ⟨⟨m₁, result₁⟩, hplan, hrun⟩ := Option.map_eq_some_iff.mp hrun
    obtain ⟨hrecords, hmessage⟩ := sqlExecutePlan_prints hplan
    obtain ⟨hnoSyntaxError, hnoQueryError⟩ := ListDatabase.apply_status rows r.command
    have hresult : result.records.Allocated ∧ result.errorMessage = [] := by
      dsimp only at hrun
      split_ifs at hrun <;> cases hrun <;> exact ⟨hrecords, hmessage⟩
    refine replAnswer_eq hanswer hresult.1 execute_rows_ne_nil (fun hstatus => ?_)
      (fun _ => hresult.2) hexit
    rw [happly] at hstatus
    exact (hstatus.elim hnoSyntaxError hnoQueryError).elim

end Transcript

/-! ### The session -/

section Session

variable {s : Repl} {rows : List Record}

/-- A round that reads a statement. -/
theorem replRound_refines (h : s.memory.Refines rows) {buffer rest : List UInt8}
    (hgets : fgets inputBufferSize s.stdin = some (buffer, rest)) {input : CBytes}
    (hinput : buffer.takeWhile (· ≠ 0) = input)
    (hlen : IsInsert input → rows.length + 2 < 2 ^ 31) :
    ∃ goesOn s', replRound s = some (goesOn, s') ∧ s'.memory.Refines (execute rows input).1 ∧
      s'.stdin = rest ∧ (IsExit input ↔ (execute rows input).2.status = .exit) ∧
      (goesOn = true ↔ (execute rows input).2.status ≠ .exit) ∧
      s'.stdout = s.stdout ++ (ascii "sql> " ++ if goesOn then
        (execute rows input).2.text (sqlParse input).2.errorMessage else []) := by
  obtain ⟨m', result, hrun, hanswer, hrefines⟩ := sqlExecute_refines h hlen
  have hdestroyed : (sqlResultDestroy m' result).1.Refines (execute rows input).1 :=
    hrefines.arraysOnly (arraysOnly_freeArray m' result.records)
  have hstatus : result.status = (execute rows input).2.status := by
    obtain ⟨found, -, heq⟩ := Option.bind_eq_some_iff.mp hanswer
    exact congrArg Answer.status (Option.some.inj heq)
  have hexit := sqlExecute_exit_iff hrun
  rw [hstatus] at hexit
  unfold replRound
  dsimp only [Repl.print]
  rw [hgets]
  dsimp only
  rw [hinput]
  by_cases hends : (execute rows input).2.status = .exit
  · refine ⟨false, _, bind_eq_of_eq_some hrun (if_pos (hstatus.trans hends)), hdestroyed, rfl,
      hexit.symm, ⟨nofun, fun hne => absurd hends hne⟩, ?_⟩
    rw [if_neg Bool.false_ne_true, List.append_nil]
  · have htext := replAnswer_refines hrun hanswer hends
    refine ⟨true, _, bind_eq_of_eq_some hrun ((if_neg (hstatus ▸ hends)).trans
      (bind_eq_of_eq_some htext rfl)), hdestroyed, rfl, hexit.symm, ⟨fun _ => hends, fun _ => rfl⟩,
      ?_⟩
    rw [if_pos rfl]
    exact List.append_assoc _ _ _

theorem replLoop_transcript {rounds : ℕ} (h : s.memory.Refines rows)
    (hlt : s.stdin.length < rounds)
    (hlen : rows.length + ((replStatements s.stdin).filter fun input => IsInsert input).length <
      2 ^ 31 - 1) :
    ∃ s' rows', replLoop rounds s = some s' ∧ s'.memory.Refines rows' ∧
      s'.stdout = s.stdout ++ transcript rows (replStatements s.stdin) := by
  induction rounds generalizing s rows with
  | zero => exact absurd hlt (Nat.not_lt_zero _)
  | succ rounds ih =>
    cases hgets : fgets inputBufferSize s.stdin with
    | none =>
      have hstdin := stdin_eq_nil hgets
      refine ⟨_, rows, bind_eq_of_eq_some (replRound_end hstdin) rfl, h, ?_⟩
      rw [hstdin, replStatements_nil]
      rfl
    | some read =>
      obtain ⟨buffer, rest⟩ := read
      have hstatements := replStatements_cons hgets
      set input := buffer.takeWhile (· ≠ 0) with hinput
      rw [hstatements] at hlen ⊢
      have hone : IsInsert input → rows.length + 2 < 2 ^ 31 := by
        intro hinsert
        rw [List.filter_cons_of_pos (by simpa using hinsert), List.length_cons] at hlen
        omega
      obtain ⟨goesOn, s₁, hround, hrefines, hstdin, hexit, hgoes, hstdout⟩ :=
        replRound_refines h hgets hinput.symm hone
      by_cases hends : (execute rows input).2.status = .exit
      · have hstop : goesOn = false := Bool.eq_false_iff.mpr fun hgo => hgoes.mp hgo hends
        subst hstop
        refine ⟨s₁, _, bind_eq_of_eq_some hround rfl, hrefines, ?_⟩
        rw [hstdout, if_pos (hexit.mpr hends), transcript]
        dsimp only
        rw [if_pos hends, if_neg Bool.false_ne_true, List.append_nil]
      · have hgo : goesOn = true := hgoes.mpr hends
        subst hgo
        have hnot : ¬ IsExit input := fun h => hends (hexit.mp h)
        rw [if_neg hnot] at hlen ⊢
        have hshorter := fgets_length_lt (by decide) hgets
        have hle := ListDatabase.length_execute_le rows input
        -- an INSERT is one row more and one INSERT less
        have hrest : (execute rows input).1.length +
            ((replStatements s₁.stdin).filter fun input => IsInsert input).length <
              2 ^ 31 - 1 := by
          rw [hstdin]
          by_cases hinsert : IsInsert input
          · rw [List.filter_cons_of_pos (by simpa using hinsert), List.length_cons] at hlen
            rw [if_pos hinsert] at hle
            omega
          · rw [List.filter_cons_of_neg (by simpa using hinsert)] at hlen
            rw [if_neg hinsert] at hle
            omega
        obtain ⟨s', rows', hloop, hrefines', hstdout'⟩ :=
          ih hrefines (by rw [hstdin]; omega) hrest
        refine ⟨s', rows', bind_eq_of_eq_some hround hloop, hrefines', ?_⟩
        rw [hstdout', hstdout, hstdin, if_pos rfl, transcript]
        dsimp only
        rw [if_neg hends]
        simp only [List.append_assoc]

end Session

/-- **The REPL is a session with a list database** when no allocation and no lock call fails: for
every standard input with fewer than 2^31 - 1 INSERTs the session ends, it has printed the
transcript, and everything is freed. -/
theorem repl_transcript (stdin : List UInt8)
    (hlen : ((replStatements stdin).filter fun input => IsInsert input).length < 2 ^ 31 - 1) :
    ∃ s, replMain (.start [] []) stdin = some s ∧
      s.stdout = replBanner ++ transcript [] (replStatements stdin) ∧
      (∀ p, s.memory.record p = none) ∧ s.memory.Owns [] := by
  have hlen' : ([] : List Record).length +
      ((replStatements stdin).filter fun input => IsInsert input).length < 2 ^ 31 - 1 := by
    rwa [List.length_nil, Nat.zero_add]
  obtain ⟨s, rows, hloop, hrefines, hstdout⟩ :=
    replLoop_transcript (s := .start (.start [] []) stdin) refines_start (Nat.lt_succ_self _) hlen'
  obtain ⟨m', hdestroy, hfreed, howns⟩ := (replLoop_kept (kept_start []) hloop).destroy
  exact ⟨_, bind_eq_of_eq_some hloop (bind_eq_of_eq_some hdestroy rfl), hstdout, hfreed, howns⟩

theorem repl_transcript_insert_select :
    ∃ s, replMain (.start [] [])
        (ascii "INSERT INTO users VALUES ('kim', 30);\nSELECT * FROM users WHERE age > 20\n") =
          some s ∧
      s.stdout = replBanner ++
        ascii "sql> Inserted row with id = 1\nsql> id=1, name='kim', age=30\nsql> " := by
  have hstatements : replStatements
      (ascii "INSERT INTO users VALUES ('kim', 30);\nSELECT * FROM users WHERE age > 20\n") =
      [ascii "INSERT INTO users VALUES ('kim', 30);\n",
        ascii "SELECT * FROM users WHERE age > 20\n"] := by
    have hfirst : fgets inputBufferSize
        (ascii "INSERT INTO users VALUES ('kim', 30);\nSELECT * FROM users WHERE age > 20\n") =
        some (ascii "INSERT INTO users VALUES ('kim', 30);\n",
          ascii "SELECT * FROM users WHERE age > 20\n") := by decide
    have hsecond : fgets inputBufferSize (ascii "SELECT * FROM users WHERE age > 20\n") =
        some (ascii "SELECT * FROM users WHERE age > 20\n", []) := by decide
    rw [replStatements_cons hfirst, replStatements_cons hsecond, replStatements_nil]
    decide
  obtain ⟨s, hrun, hstdout, -⟩ := repl_transcript
    (ascii "INSERT INTO users VALUES ('kim', 30);\nSELECT * FROM users WHERE age > 20\n")
    (by rw [hstatements]; decide)
  refine ⟨s, hrun, hstdout.trans ?_⟩
  rw [hstatements]
  decide +kernel

end MiniDbms
