import MiniDbms.Server.Equiv.Api

/-!
# Answers of any length

With memory, a buffer takes every text that is shorter than half of the address space (`Grows`);
only the single pieces that `vsnprintf` writes have to be shorter than `INT_MAX`.  The answer to a
statement is made of such pieces when its rows have numbers of type `int`.
-/

namespace MiniDbms

open CString Json

/-! ### Calls -/

/-- With memory, `call` appends `piece`. -/
structure Grows (call : JsonCall) (piece : List UInt8) : Prop extends Appends call piece where
  grows : ∀ {s : JsonState} {text : List UInt8}, s.Built text → s.cap ∣ 2 ^ 63 → s.allocs = [] →
    text.length + piece.length < 2 ^ 63 → ∃ s', call s = some (true, s') ∧ s'.allocs = []

theorem grows_append (text : List UInt8) : Grows (jsonBufferAppend text) text where
  toAppends := appends_append text
  grows := by
    intro s before h hdvd hallocs hlength
    obtain ⟨s₁, hreserve, hallocs₁⟩ := h.reserve_granted text.length hdvd hallocs hlength
    obtain ⟨h₁, hcap₁, -⟩ := h.reserve hreserve
    have hfit := hcap₁ rfl
    rw [sizeWrap_of_lt (by omega)] at hfit
    obtain ⟨s₂, hstore, -, -, hallocs₂⟩ := h₁.store_fits hfit
    exact ⟨s₂, CArray.bind_eq_of_eq_some hreserve (CArray.bind_eq_of_eq_some hstore rfl),
      hallocs₂.trans hallocs₁⟩

theorem grows_appendf {piece : List UInt8} (hshort : piece.length < 2 ^ 31) :
    Grows (jsonBufferAppendf piece) piece where
  toAppends := appends_appendf piece
  grows := by
    intro s text h hdvd hallocs hlength
    obtain ⟨s₁, hreserve, hallocs₁⟩ := h.reserve_granted piece.length hdvd hallocs hlength
    obtain ⟨h₁, hcap₁, hdvd₁⟩ := h.reserve hreserve
    have hfit := hcap₁ rfl
    rw [sizeWrap_of_lt (by omega)] at hfit
    obtain ⟨data, hvsnprintf, -⟩ := h₁.vsnprintf (cap_lt_of_dvd (hdvd₁ hdvd)) piece (by omega)
    refine ⟨⟨⟨s₁.cap, some data, s₁.len + piece.length⟩, s₁.allocs⟩, ?_, hallocs₁⟩
    rw [jsonBufferAppendf, if_neg (not_le.mpr hshort)]
    exact CArray.bind_eq_of_eq_some hreserve (CArray.bind_eq_of_eq_some hvsnprintf rfl)

theorem grows_nil : Grows (fun s => some (true, s)) [] where
  toAppends := appends_nil
  grows := fun {s} _ _ _ hallocs _ => ⟨s, rfl, hallocs⟩

theorem Grows.cons {call : JsonCall} {calls : List JsonCall} {piece pieces : List UInt8}
    (hcall : Grows call piece) (hcalls : Grows (jsonCalls calls) pieces) :
    Grows (jsonCalls (call :: calls)) (piece ++ pieces) where
  toAppends := hcall.toAppends.cons hcalls.toAppends
  grows := by
    intro s text h hdvd hallocs hlength
    rw [List.length_append] at hlength
    obtain ⟨s₁, hfirst, hallocs₁⟩ := hcall.grows h hdvd hallocs (by omega)
    obtain ⟨h₁, hdvd₁⟩ := hcall.built h hdvd hfirst
    obtain ⟨s₂, hrest, hallocs₂⟩ := hcalls.grows h₁ hdvd₁ hallocs₁ (by
      rw [List.length_append]
      omega)
    exact ⟨s₂, CArray.bind_eq_of_eq_some hfirst hrest, hallocs₂⟩

/-- **A chain appends what its calls append.** -/
theorem Grows.calls {calls : List JsonCall} {pieces : List (List UInt8)}
    (h : List.Forall₂ Grows calls pieces) : Grows (jsonCalls calls) pieces.flatten := by
  induction h with
  | nil => exact grows_nil
  | cons hcall _ ih => exact hcall.cons ih

/-- A string of any length. -/
theorem grows_jsonString (text : List UInt8) :
    Grows (jsonBufferAppendJsonString text) (quote text) := by
  have hescaped : ∀ c, Grows (jsonAppendEscaped c) (escapeByte c) := by
    intro c
    rcases jsonAppendEscaped_eq c with h | h <;> rw [h]
    · exact grows_append _
    · exact grows_appendf ((length_escapeByte_le c).trans_lt (by decide))
  rw [← flatten_stringPieces]
  exact Grows.calls (forall₂_stringPieces grows_append hescaped text)

/-! ### Rows -/

/-- A row of a table: the name has room in the record, and the numbers are values of type `int`. -/
structure Record.Sane (r : Record) : Prop where
  name : r.name.length < recordNameSize
  id : IsInt r.id
  age : IsInt r.age

theorem Record.Sane.grows {r : Record} (h : r.Sane) : Grows (apiAppendRecord r) (recordText r) := by
  have hid := length_intText_le h.id.1 h.id.2
  have hage := length_intText_le h.age.1 h.age.2
  have hid_key : (ascii "\x7b\"id\":").length = 6 := by decide
  have hname_key : (ascii ",\"name\":").length = 8 := by decide
  have hage_key : (ascii ",\"age\":").length = 7 := by decide
  have hend : (ascii "\x7d").length = 1 := by decide
  refine Grows.calls (.cons (grows_appendf ?_) (.cons (grows_jsonString _)
    (.cons (grows_appendf ?_) .nil)))
  · rw [List.length_append, List.length_append]
    omega
  · rw [List.length_append, List.length_append]
    omega

/-- A row takes at most 424 bytes. -/
theorem Record.Sane.length_recordText_le {r : Record} (h : r.Sane) :
    (recordText r).length ≤ 424 := by
  have hid := length_intText_le h.id.1 h.id.2
  have hage := length_intText_le h.age.1 h.age.2
  have hid_key : (ascii "\x7b\"id\":").length = 6 := by decide
  have hname_key : (ascii ",\"name\":").length = 8 := by decide
  have hage_key : (ascii ",\"age\":").length = 7 := by decide
  have hend : (ascii "\x7d").length = 1 := by decide
  have hname := length_quote_le r.name
  have hlt := h.name
  rw [recordNameSize] at hlt
  simp only [recordText, List.flatten_cons, List.flatten_nil, List.length_append, List.append_nil]
  omega

/-- The rows of an answer. -/
theorem length_rowsText_le {records : List Record} (h : ∀ r ∈ records, r.Sane) :
    (rowsText records).length ≤ 425 * records.length := by
  have hrest : ∀ rs : List Record, (∀ r ∈ rs, r.Sane) →
      (rs.flatMap fun r => 44 :: recordText r).length ≤ 425 * rs.length := by
    intro rs hrs
    induction rs with
    | nil => exact Nat.zero_le _
    | cons r rs ih =>
      obtain ⟨hr, hrs⟩ := List.forall_mem_cons.mp hrs
      have hle := hr.length_recordText_le
      have hih := ih hrs
      rw [List.flatMap_cons, List.length_append, List.length_cons, List.length_cons]
      omega
  cases records with
  | nil => exact Nat.zero_le _
  | cons r rs =>
    obtain ⟨hr, hrs⟩ := List.forall_mem_cons.mp h
    have hle := hr.length_recordText_le
    have hrs_le := hrest rs hrs
    rw [rowsText, List.length_append, List.length_cons]
    omega

/-- One round of the loop, when its record is there. -/
theorem apiAppendRow_eq {m : TableMemory} {result : SQLResult} {records : List Record}
    (h : m.recordsAt result.records.rows = some records) {index : ℕ}
    (hindex : index < records.length) :
    apiAppendRow m result index = jsonCalls [
      if index > 0 then jsonBufferAppend (ascii ",") else fun s => some (true, s),
      apiAppendRecord records[index]] := by
  have hlt : index < result.records.rows.length := TableMemory.length_recordsAt h ▸ hindex
  have hp := List.getElem?_eq_getElem hlt
  have hr := TableMemory.record_of_recordsAt h hp
  rw [List.getElem?_eq_getElem hindex] at hr
  have hrecord : (fun s => do
      apiAppendRecord (← m.record (← result.records.rows[index]?)) s : JsonCall) =
      apiAppendRecord records[index] := by
    funext s
    simp only [hp, hr, Option.bind_eq_bind, Option.bind_some]
  rw [apiAppendRow, hrecord]

theorem grows_row {m : TableMemory} {result : SQLResult} {records : List Record}
    (h : m.recordsAt result.records.rows = some records) (hsane : ∀ r ∈ records, r.Sane)
    {index : ℕ} (hindex : index < records.length) :
    Grows (apiAppendRow m result index) (rowPiece records index) := by
  have hcomma : Grows
      (if index > 0 then jsonBufferAppend (ascii ",") else fun s => some (true, s))
      (if index > 0 then ascii "," else []) := by
    split_ifs
    · exact grows_append _
    · exact grows_nil
  have hpiece : rowPiece records index =
      [if index > 0 then ascii "," else [], recordText records[index]].flatten := by
    rw [rowPiece, List.getElem?_eq_getElem hindex]
    simp only [Option.map_some, Option.getD_some, List.flatten_cons, List.flatten_nil,
      List.append_nil]
  rw [apiAppendRow_eq h hindex, hpiece]
  exact Grows.calls (.cons hcomma (.cons (hsane _ (List.getElem_mem hindex)).grows .nil))

/-! ### Answers -/

/-- The text of a number that fits. -/
theorem length_decimalDigits_lt {n : ℕ} (h : n < 2 ^ 63) : (decimalDigits n).length < 20 :=
  Nat.lt_succ_of_le (length_decimalDigits_le (by decide) (h.trans (by decide)))

theorem grows_inserted {m : TableMemory} {result : SQLResult} (haction : result.action = .insert)
    (hid : IsInt result.insertedId) (hcount : result.rowCount < 2 ^ 63) :
    Grows (apiBuildSuccessResponse m result) (insertedText result.insertedId result.rowCount) := by
  have hid_length := length_intText_le hid.1 hid.2
  have hcount_length := length_decimalDigits_lt hcount
  have hid_key : (ascii ",\"inserted_id\":").length = 15 := by decide
  have hcount_key : (ascii ",\"row_count\":").length = 13 := by decide
  have hend : (ascii "\x7d").length = 1 := by decide
  rw [apiBuildSuccessResponse, haction, if_pos rfl]
  refine Grows.calls (.cons (grows_append _) (.cons (grows_jsonString _)
    (.cons (grows_appendf ?_) .nil)))
  simp only [List.length_append]
  omega

theorem grows_selected {m : TableMemory} {result : SQLResult}
    (haction : result.action = .selectRows) {records : List Record}
    (h : m.recordsAt result.records.rows = some records) (hsane : ∀ r ∈ records, r.Sane)
    (hcount : result.rowCount = records.length) (hlength : records.length < 2 ^ 63) :
    Grows (apiBuildSuccessResponse m result) (selectedText records) := by
  have hcount_length := length_decimalDigits_lt hlength
  have hcount_key : (ascii ",\"row_count\":").length = 13 := by decide
  have hrows_key : (ascii ",\"rows\":[").length = 9 := by decide
  have hrows : List.Forall₂ Grows ((List.range records.length).map (apiAppendRow m result))
      ((List.range records.length).map (rowPiece records)) := by
    rw [List.forall₂_map_left_iff, List.forall₂_map_right_iff, List.forall₂_same]
    exact fun index hindex => grows_row h hsane (List.mem_range.mp hindex)
  have hcount_piece : (ascii ",\"row_count\":" ++ decimalDigits records.length ++
      ascii ",\"rows\":[").length < 2 ^ 31 := by
    simp only [List.length_append]
    omega
  have hcalls := Grows.calls (.cons (grows_append (ascii "\x7b\"ok\":true,\"action\":"))
    (.cons (grows_jsonString (ascii "select")) (.cons (grows_appendf hcount_piece)
      (List.rel_append hrows (.cons (grows_append (ascii "]\x7d")) .nil)))))
  simp only [List.flatten_cons, List.flatten_append, flatten_rowPieces] at hcalls
  rw [apiBuildSuccessResponse, haction, if_neg (by decide), hcount]
  simp only [selectedText, List.flatten_cons]
  exact hcalls

theorem length_selectedText_le {records : List Record} (hsane : ∀ r ∈ records, r.Sane)
    (hlength : records.length < 2 ^ 63) :
    (selectedText records).length ≤ 425 * records.length + 100 := by
  have hrows := length_rowsText_le hsane
  have hcount := length_decimalDigits_lt hlength
  have hok : (ascii "\x7b\"ok\":true,\"action\":").length = 20 := by
    rw [ascii_ofList]
    decide
  have haction : (quote (ascii "select")).length = 8 := by decide
  have hcount_key : (ascii ",\"row_count\":").length = 13 := by decide
  have hrows_key : (ascii ",\"rows\":[").length = 9 := by decide
  have hend : (ascii "]\x7d").length = 2 := by decide
  simp only [selectedText, List.flatten_cons, List.flatten_nil, List.length_append, List.append_nil]
  omega

/-- A response that could be built leaves the memory as it was. -/
theorem apiRespond_all {m : TableMemory} (hallocs : m.allocs = []) (httpStatus : ℤ)
    {build : JsonCall} {text : CBytes} (hbuild : Appends build text) (htext : Printable text)
    (hgrows : ∀ {s : JsonState}, s.Built [] → s.cap ∣ 2 ^ 63 → s.allocs = [] →
      ∃ s', build s = some (true, s') ∧ s'.allocs = []) :
    apiRespond m httpStatus build = some (true, m, ⟨httpStatus, some text⟩) := by
  obtain ⟨s, hs, hcap, hs_allocs, hinit⟩ := jsonBufferInit_spec m.allocs (show 0 < 256 by decide)
  rw [hallocs] at hs_allocs hinit
  have hready : jsonBufferInit [] 256 = some (true, s) := hinit
  have hdvd : s.cap ∣ 2 ^ 63 := hcap ▸ by decide
  obtain ⟨s₁, hrun, hallocs₁⟩ := hgrows hs hdvd hs_allocs
  obtain ⟨hs₁, -⟩ := hbuild.built hs hdvd hrun
  rw [List.nil_append] at hs₁
  have hsame : { m with allocs := [] } = m := by
    rw [← hallocs]
  rw [apiRespond, hallocs, hready]
  simp only [Option.bind_eq_bind, Option.bind_some, hrun, hs₁.detach htext.zero_notMem,
    Option.isSome_some, jsonBufferDestroy, hallocs₁, hsame]

/-- **With memory, there is a response.** -/
theorem apiRespond_grows {m : TableMemory} (hallocs : m.allocs = []) (httpStatus : ℤ)
    {build : JsonCall} {text : CBytes} (hbuild : Grows build text) (htext : Printable text)
    (hlength : text.length < 2 ^ 63) :
    apiRespond m httpStatus build = some (true, m, ⟨httpStatus, some text⟩) :=
  apiRespond_all hallocs httpStatus hbuild.toAppends htext fun hs hdvd hs_allocs =>
    hbuild.grows hs hdvd hs_allocs (by rwa [List.length_nil, Nat.zero_add])

/-- A short response. -/
theorem apiRespond_below {m : TableMemory} (hallocs : m.allocs = []) (httpStatus : ℤ)
    {build : JsonCall} {text : CBytes} (hbuild : Appends build text) (htext : Printable text)
    (hlength : text.length < 2 ^ 31) :
    apiRespond m httpStatus build = some (true, m, ⟨httpStatus, some text⟩) :=
  apiRespond_all hallocs httpStatus hbuild htext fun hs hdvd hs_allocs =>
    hbuild.granted hs hdvd hs_allocs (by rwa [List.length_nil, Nat.zero_add])

end MiniDbms
