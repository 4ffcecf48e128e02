import MiniDbms.Sql.Equiv.Lock
import MiniDbms.Sql.Equiv.Outcome
import MiniDbms.Sql.Repl
import MiniDbms.Table.Equiv.Destroy

/-!
# What the REPL executes

The REPL executes the pieces that `fgets` makes of its input, up to the first one that is an `EXIT`
or `QUIT` (`replMain_executed`).  The pieces are the lines as long as these fit into the buffer with
their newline, and only then (`replMain_executes_lines_iff`): a longer line is executed piece by
piece, and a piece can be a statement of its own.
-/

namespace MiniDbms

open CArray CString TableMemory

/-! ### The end of a session -/

/-- The text is `EXIT` or `QUIT`. -/
def IsExit (input : CBytes) : Prop := ∃ (g : Gap) (l : ExitLayout), input = g.text ++ l.text

theorem isExit_iff (input : CBytes) :
    IsExit input ↔ (sqlParse input).2.command.type = .exit := by
  rcases hparse : sqlParse input with ⟨_ | _, r⟩
  · have htype := (sqlParse_rejected hparse).type
    constructor
    · rintro ⟨g, l, rfl⟩
      have hexit := sqlParse_exit g { (default : Layout) with exit := l }
      cases hparse.symm.trans hexit
    · intro hexit
      cases htype.symm.trans hexit
  · exact (sqlParse_exit_iff hparse).symm

instance (input : CBytes) : Decidable (IsExit input) :=
  decidable_of_iff _ (isExit_iff input).symm

/-- The status that ends the loop. -/
theorem sqlExecute_exit_iff {m m' : TableMemory} {input : CBytes} {result : SQLResult}
    (h : sqlExecute m input = some (m', result)) : result.status = .exit ↔ IsExit input := by
  rw [isExit_iff]
  rcases hparse : sqlParse input with ⟨_ | _, r⟩
  · have hrejected := sqlParse_rejected hparse
    rw [sqlExecute, hparse] at h
    cases h
    constructor
    · intro hstatus
      rcases hrejected.error with ⟨herror, -⟩ | ⟨herror, -⟩ <;> cases herror.symm.trans hstatus
    · intro hexit
      cases hrejected.type.symm.trans hexit
  · rw [sqlExecute_accepted hparse] at h
    obtain ⟨⟨m₁, planned⟩, hplan, h⟩ := Option.map_eq_some_iff.mp h
    dsimp only at h
    by_cases hexit : r.command.type = .exit
    · rw [if_pos hexit] at h
      cases h
      exact iff_of_true rfl hexit
    · rw [if_neg hexit] at h
      cases h
      refine iff_of_false (fun hstatus => ?_) hexit
      rcases sqlExecutePlan_cases hplan hexit with herror | ⟨-, hok, -⟩ | ⟨-, hok | hnone, -⟩
      · cases herror.symm.trans hstatus
      · cases hok.symm.trans hstatus
      · cases hok.symm.trans hstatus
      · cases hnone.symm.trans hstatus

/-! ### What is executed -/

/-- The statements that `fgets` makes of a standard input, up to one that ends the session. -/
def replStatements (stdin : List UInt8) : List CBytes :=
  cutBehind (fun input => decide (IsExit input))
    ((fgetsAll inputBufferSize stdin).map fun buffer => buffer.takeWhile (· ≠ 0))

theorem replStatements_nil : replStatements [] = [] := by
  rw [replStatements, fgetsAll_nil]
  rfl

theorem replStatements_cons {stdin buffer rest : List UInt8}
    (hgets : fgets inputBufferSize stdin = some (buffer, rest)) :
    replStatements stdin = buffer.takeWhile (· ≠ 0) ::
      if IsExit (buffer.takeWhile (· ≠ 0)) then [] else replStatements rest := by
  rw [replStatements, fgetsAll_cons (by decide) hgets, List.map_cons, cutBehind]
  simp only [decide_eq_true_eq]
  rfl

/-- There is nothing to read at the end of the input only. -/
theorem stdin_eq_nil {stdin : List UInt8} (hgets : fgets inputBufferSize stdin = none) :
    stdin = [] := by
  unfold fgets at hgets
  split_ifs at hgets with hnil
  exact hnil

section Executed

variable {s s' : Repl} {goesOn : Bool}

/-- A round without input is the last one. -/
theorem replRound_end (hstdin : s.stdin = []) :
    replRound s = some (false, s.print (ascii "sql> ")) := by
  unfold replRound
  dsimp only [Repl.print]
  rw [hstdin, fgets_nil]

/-- A round executes what `fgets` gives. -/
theorem replRound_executed {buffer stdin : List UInt8}
    (hgets : fgets inputBufferSize s.stdin = some (buffer, stdin))
    (h : replRound s = some (goesOn, s')) :
    s'.executed = s.executed ++ [buffer.takeWhile (· ≠ 0)] ∧ s'.stdin = stdin ∧
      (goesOn = true ↔ ¬ IsExit (buffer.takeWhile (· ≠ 0))) := by
  unfold replRound at h
  dsimp only [Repl.print] at h
  rw [hgets] at h
  obtain ⟨⟨m, result⟩, hrun, h⟩ := Option.bind_eq_some_iff.mp h
  have hexit := sqlExecute_exit_iff hrun
  dsimp only at h
  split_ifs at h with hstatus
  · cases h
    exact ⟨rfl, rfl, iff_of_false nofun (not_not.mpr (hexit.mp hstatus))⟩
  · obtain ⟨answer, -, h⟩ := Option.bind_eq_some_iff.mp h
    cases h
    exact ⟨rfl, rfl, iff_of_true rfl (mt hexit.mpr hstatus)⟩

/-- The loop executes the pieces of its input, up to the first one that ends it. -/
theorem replLoop_executed {rounds : ℕ} (h : replLoop rounds s = some s') :
    s'.executed = s.executed ++ replStatements s.stdin := by
  induction rounds generalizing s with
  | zero => cases h
  | succ rounds ih =>
    obtain ⟨⟨goesOn, s₁⟩, hround, h⟩ := Option.bind_eq_some_iff.mp h
    cases hgets : fgets inputBufferSize s.stdin with
    | none =>
      have hstdin := stdin_eq_nil hgets
      rw [replRound_end hstdin] at hround
      cases hround
      cases h
      rw [hstdin, replStatements_nil]
      exact (List.append_nil _).symm
    | some read =>
      obtain ⟨buffer, stdin⟩ := read
      obtain ⟨hexecuted, hstdin, hgoes⟩ := replRound_executed hgets hround
      rw [replStatements_cons hgets]
      cases goesOn with
      | false =>
        cases h
        have hexit : IsExit (buffer.takeWhile (· ≠ 0)) :=
          not_not.mp fun hnot => Bool.false_ne_true (hgoes.mpr hnot)
        rw [hexecuted, if_pos hexit]
      | true =>
        rw [ih h, hexecuted, hstdin, if_neg (hgoes.mp rfl), List.append_assoc,
          List.singleton_append]

/-- **What the REPL executes**, for any input: the pieces that `fgets` makes of it. -/
theorem replMain_executed {m : TableMemory} {stdin : List UInt8}
    (h : replMain m stdin = some s) : s.executed = replStatements stdin := by
  obtain ⟨s₁, hloop, h⟩ := Option.bind_eq_some_iff.mp h
  obtain ⟨m', -, h⟩ := Option.bind_eq_some_iff.mp h
  cases h
  exact replLoop_executed hloop

end Executed

/-! ### Every session ends -/

/-- What every statement keeps, with the statements behind it: it ends, and the rows of its result
can be read. -/
def KeptByStatements (Inv : TableMemory → List CBytes → Prop) : Prop :=
  ∀ m input inputs, Inv m (input :: inputs) → ∃ m' result rows,
    sqlExecute m input = some (m', result) ∧ m'.recordsAt result.records.rows = some rows ∧
      Inv (sqlResultDestroy m' result).1 inputs

section Ends

variable {m : TableMemory} {s : Repl} {Inv : TableMemory → List CBytes → Prop}

/-- Records that can be read can be printed. -/
theorem replAnswer_total {result : SQLResult} {rows : List Record}
    (hrows : m.recordsAt result.records.rows = some rows) :
    ∃ text, replAnswer m result = some text := by
  have hprint : ∃ printed, tablePrintRecords m result.records = some printed := by
    unfold tablePrintRecords
    cases result.records.ptr with
    | none => exact ⟨_, rfl⟩
    | some ptr => exact ⟨_, bind_eq_of_eq_some hrows rfl⟩
  obtain ⟨printed, hprint⟩ := hprint
  unfold replAnswer
  split_ifs
  · cases result.action with
    | insert => exact ⟨_, rfl⟩
    | selectRows => exact ⟨_, bind_eq_of_eq_some hprint rfl⟩
    | none => exact ⟨_, rfl⟩
  all_goals exact ⟨_, rfl⟩

/-- A round keeps what every statement keeps, and has read something when there is another one. -/
theorem replRound_total (hkept : KeptByStatements Inv)
    (h : Inv s.memory (replStatements s.stdin)) :
    ∃ goesOn s', replRound s = some (goesOn, s') ∧ (∃ inputs, Inv s'.memory inputs) ∧
      (goesOn = true →
        Inv s'.memory (replStatements s'.stdin) ∧ s'.stdin.length < s.stdin.length) := by
  cases hgets : fgets inputBufferSize s.stdin with
  | none => exact ⟨false, _, replRound_end (stdin_eq_nil hgets), ⟨_, h⟩, nofun⟩
  | some read =>
    obtain ⟨buffer, stdin⟩ := read
    rw [replStatements_cons hgets] at h
    obtain ⟨m', result, rows, hrun, hrows, hinv⟩ := hkept _ _ _ h
    obtain ⟨text, htext⟩ := replAnswer_total hrows
    have hlt := fgets_length_lt (by decide) hgets
    have hexit := sqlExecute_exit_iff hrun
    unfold replRound
    dsimp only [Repl.print]
    rw [hgets]
    dsimp only
    by_cases hstatus : result.status = .exit
    · exact ⟨false, _, bind_eq_of_eq_some hrun (if_pos hstatus), ⟨_, hinv⟩, nofun⟩
    · rw [if_neg (mt hexit.mpr hstatus)] at hinv
      exact ⟨true, _, bind_eq_of_eq_some hrun
        ((if_neg hstatus).trans (bind_eq_of_eq_some htext rfl)), ⟨_, hinv⟩, fun _ => ⟨hinv, hlt⟩⟩

/-- **The rule of the loop**: it ends, with what every statement keeps. -/
theorem replLoop_total (hkept : KeptByStatements Inv) {rounds : ℕ}
    (h : Inv s.memory (replStatements s.stdin)) (hlt : s.stdin.length < rounds) :
    ∃ s' inputs, replLoop rounds s = some s' ∧ Inv s'.memory inputs := by
  induction rounds generalizing s with
  | zero => exact absurd hlt (Nat.not_lt_zero _)
  | succ rounds ih =>
    obtain ⟨goesOn, s₁, hround, ⟨inputs, hm₁⟩, hread⟩ := replRound_total hkept h
    cases goesOn with
    | false => exact ⟨s₁, inputs, bind_eq_of_eq_some hround rfl, hm₁⟩
    | true =>
      obtain ⟨hinv, hshorter⟩ := hread rfl
      obtain ⟨s', inputs', hloop, hm'⟩ := ih hinv (hshorter.trans_le (Nat.le_of_lt_succ hlt))
      exact ⟨s', inputs', bind_eq_of_eq_some hround hloop, hm'⟩

end Ends

section Steady

variable {m m' : TableMemory}

/-- A table with its rows, on which no call will fail. -/
def TableMemory.Steady (m : TableMemory) : Prop := m.Quiet ∧ ∃ rs, m.Stores rs

theorem TableMemory.Steady.arraysOnly (h : m.Steady) (hm' : m.ArraysOnly m') : m'.Steady := by
  obtain ⟨hq, rs, hs⟩ := h
  exact ⟨hm'.quiet hq, rs, hm'.stores hs⟩

theorem steady_start : (TableMemory.start [] []).Steady := by
  obtain ⟨rs, hs, -⟩ := refines_start.stores
  exact ⟨refines_start.quiet, rs, hs⟩

/-- What a command ends with on such a table: the table is another one, and the rows of the result
can be read. -/
theorem sqlExecutePlan_steady (h : m.Steady) (command : SQLCommand) :
    ∃ m' result rows, sqlExecutePlan m command = some (m', result) ∧ m'.Steady ∧
      m'.recordsAt result.records.rows = some rows := by
  obtain ⟨hq, rs, hs⟩ := h
  by_cases hinsert : command.type = .insert
  · obtain ⟨m', found, hrun, hq', hs', hfound⟩ :=
      tableInsert_of_memory hq hs command.name command.intValue
    rw [sqlExecutePlan, hinsert]
    dsimp only
    rw [sqlExecuteInsertPlan, if_neg (not_not.mpr hinsert)]
    cases found with
    | none => exact ⟨m', _, [], bind_eq_of_eq_some hrun rfl, ⟨hq', hs'⟩, rfl⟩
    | some p =>
      obtain ⟨r, hr⟩ := hfound p rfl
      exact ⟨m', _, [], bind_eq_of_eq_some hrun (bind_eq_of_eq_some hr rfl), ⟨hq', hs'⟩, rfl⟩
  by_cases hselect : command.IsSelect
  · obtain ⟨rows, ho⟩ := hs.exists_ordered
    obtain ⟨m', records, hrun, hm', hrecords⟩ := sqlSelectRows_returns hq hs ho hselect
    rw [sqlExecutePlan_select hselect, hrun]
    exact ⟨m', _, _, rfl, ⟨hm'.quiet hq, rs, hm'.stores hs⟩, hrecords⟩
  · unfold sqlExecutePlan
    rcases SQLCommand.type_of_not_isSelect hselect with htype | htype | htype
    · rw [htype]
      exact ⟨m, _, [], rfl, ⟨hq, rs, hs⟩, rfl⟩
    · rw [htype]
      exact ⟨m, _, [], rfl, ⟨hq, rs, hs⟩, rfl⟩
    · exact absurd htype hinsert

theorem keptByStatements_steady : KeptByStatements fun m _ => m.Steady := by
  intro m input inputs h
  rcases hparse : sqlParse input with ⟨_ | _, r⟩
  · obtain ⟨result, hrecords, -, hrun⟩ := sqlExecute_rejected hparse
    refine ⟨m, result, [], hrun m, ?_, ?_⟩
    · rw [hrecords]
      rfl
    · exact h.arraysOnly (arraysOnly_freeArray m result.records)
  · obtain ⟨m', result, rows, hplan, hm', hrows⟩ := sqlExecutePlan_steady h r.command
    refine ⟨m', if r.command.type = .exit then { result with status := .exit } else result, rows,
      ?_, ?_, hm'.arraysOnly (arraysOnly_freeArray m' _)⟩
    · rw [sqlExecute_accepted hparse, hplan]
      rfl
    · split_ifs <;> exact hrows

/-- **Every session ends** where no call fails. -/
theorem replMain_total (h : m.Steady) (stdin : List UInt8) :
    ∃ s, replMain m stdin = some s := by
  obtain ⟨s, -, hloop, -, rs, hs⟩ :=
    replLoop_total (s := .start m stdin) keptByStatements_steady h (Nat.lt_succ_self _)
  obtain ⟨m', hdestroy, -⟩ := tableDestroy_spec hs
  exact ⟨_, bind_eq_of_eq_some hloop (bind_eq_of_eq_some hdestroy rfl)⟩

end Steady

/-! ### Lines and statements -/

/-- A line of the input: its bytes in front of the newline. -/
structure Line where
  text : List UInt8
  no_newline : 10 ∉ text
  no_nul : 0 ∉ text

/-- The line with its newline. -/
def Line.bytes (line : Line) : List UInt8 := line.text ++ [10]

/-- The lines up to the first `EXIT` or `QUIT`, and with it. -/
def linesRead (lines : List Line) : List CBytes :=
  cutBehind (fun input => decide (IsExit input)) (lines.map Line.bytes)

/-- No piece of such lines has a `NUL`. -/
theorem linePieces_no_nul {size : ℕ} {text piece : List UInt8} (htext : 0 ∉ text)
    (hpiece : piece ∈ linePieces size text) : 0 ∉ piece := by
  intro hzero
  have hmem := List.mem_flatten_of_mem hpiece hzero
  rw [flatten_linePieces, List.mem_append, List.mem_singleton] at hmem
  exact hmem.elim htext (by decide)

/-- What is executed of lines. -/
theorem replMain_executed_lines {m : TableMemory} {s : Repl} {lines : List Line}
    (h : replMain m (lines.flatMap Line.bytes) = some s) :
    s.executed = cutBehind (fun input => decide (IsExit input))
      ((lines.map Line.text).flatMap (linePieces inputBufferSize)) := by
  have hbytes : lines.flatMap Line.bytes = (lines.map Line.text).flatMap (· ++ [10]) := by
    rw [List.flatMap_map]
    rfl
  have hlines : ∀ text ∈ lines.map Line.text, 10 ∉ text := by
    intro text htext
    obtain ⟨line, -, rfl⟩ := List.mem_map.mp htext
    exact line.no_newline
  rw [replMain_executed h, replStatements, hbytes, fgetsAll_lines (by decide) hlines]
  congr 1
  refine (List.map_congr_left fun piece hpiece => ?_).trans (List.map_id _)
  obtain ⟨text, htext, hpiece⟩ := List.mem_flatMap.mp hpiece
  obtain ⟨line, -, rfl⟩ := List.mem_map.mp htext
  have hnul := linePieces_no_nul line.no_nul hpiece
  rw [id, List.takeWhile_eq_self_iff]
  exact fun c hc => decide_eq_true fun hzero => hnul (hzero ▸ hc)

/-- **One line is one statement exactly when it fits into the buffer**: every session ends, and it
has executed its lines up to the first `EXIT` or `QUIT`, each of them whole and once, if and only if
all of these have at most 255 bytes with their newline. -/
theorem replMain_executes_lines_iff (lines : List Line) :
    (∃ s, replMain (.start [] []) (lines.flatMap Line.bytes) = some s) ∧
      ∀ allocs lockResults s,
        replMain (.start allocs lockResults) (lines.flatMap Line.bytes) = some s →
          (s.executed = linesRead lines ↔
            ∀ line ∈ linesRead lines, line.length < inputBufferSize) := by
  refine ⟨replMain_total steady_start _, fun allocs lockResults s h => ?_⟩
  have hread : linesRead lines = cutBehind (fun input => decide (IsExit input))
      ((lines.map Line.text).map (· ++ [10])) := by
    rw [List.map_map]
    rfl
  rw [replMain_executed_lines h, hread]
  exact cutBehind_linePieces_iff (by decide) _ _

/-- 255 letters and an `EXIT` in one line. -/
def longLine : Line := ⟨List.replicate 255 120 ++ ascii "EXIT", by decide, by decide⟩

/-- The end of a long line ends the session, and the line behind it is never read. -/
theorem replMain_executes_tail :
    ∃ s, replMain (.start [] [])
        ([longLine, ⟨ascii "SELECT * FROM users", by decide, by decide⟩].flatMap Line.bytes) =
          some s ∧
      s.executed = [List.replicate 255 120, ascii "EXIT\n"] ∧
      s.executed ≠ linesRead [longLine, ⟨ascii "SELECT * FROM users", by decide, by decide⟩] := by
  obtain ⟨s, h⟩ := replMain_total steady_start
    ([longLine, ⟨ascii "SELECT * FROM users", by decide, by decide⟩].flatMap Line.bytes)
  have hexecuted := replMain_executed_lines h
  have hpieces : s.executed = [List.replicate 255 120, ascii "EXIT\n"] := by
    rw [hexecuted]
    decide +kernel
  refine ⟨s, h, hpieces, ?_⟩
  rw [hpieces]
  decide +kernel

end MiniDbms
