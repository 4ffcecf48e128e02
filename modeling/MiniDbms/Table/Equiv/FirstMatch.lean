import MiniDbms.Sql.Equiv.Transcript
import MiniDbms.Table.FirstMatch

/-!
# Correctness of the other callers of the scanning lookups

`table_find_first`: on every table that statements reach, and whatever fails in the call,
`table_find_by_name` and `table_find_by_age` return a matching row with the least ID or none, and
`table_print_all` prints all rows in the order of their IDs or nothing; a missing row or text means
that there is none, if nothing fails.  The array is freed, and the table is as it was.
-/

namespace MiniDbms

open CArray CString TableMemory

variable {m m' : TableMemory} {records : RecordArray} {ok : Bool} {rs : Rows}

/-! ### A scan to which everything is granted -/

/-- No coming allocation and no coming lock call fails. -/
structure TableMemory.AllGranted (m : TableMemory) : Prop where
  allocs : false ∉ m.allocs
  lockResults : false ∉ m.lockResults

/-- The next outcome is a success when no coming one is a failure. -/
theorem headD_of_granted {outcomes : List Bool} (h : false ∉ outcomes) :
    outcomes.headD true = true ∧ false ∉ outcomes.tail := by
  cases outcomes with
  | nil => exact ⟨rfl, List.not_mem_nil⟩
  | cons outcome outcomes =>
    rw [List.mem_cons, not_or] at h
    exact ⟨by simpa using Ne.symm h.1, h.2⟩

namespace TableMemory.AllGranted

variable {rows : List RecordPtr} {records' : RecordArray} {test : Record → Bool}

theorem alloc (h : m.AllGranted) (hrun : m.alloc = (ok, m')) : ok = true ∧ m'.AllGranted := by
  obtain ⟨rfl, rfl⟩ := Prod.mk.inj hrun
  have hhead := headD_of_granted h.allocs
  exact ⟨hhead.1, hhead.2, h.lockResults⟩

theorem lock (h : m.AllGranted) {l : TableLock} (hrun : m.lock l = (ok, m')) :
    ok = true ∧ m'.AllGranted := by
  have hhead := headD_of_granted h.lockResults
  rw [TableMemory.lock, if_pos hhead.1] at hrun
  obtain ⟨rfl, rfl⟩ := Prod.mk.inj hrun
  exact ⟨rfl, h.allocs, hhead.2⟩

theorem unlock (h : m.AllGranted) {l : TableLock} (hrun : m.unlock l = some m') :
    m'.AllGranted := by
  unfold TableMemory.unlock at hrun
  split_ifs at hrun
  cases hrun
  exact ⟨h.allocs, h.lockResults⟩

theorem appendRecord (h : m.AllGranted) {p : RecordPtr}
    (hrun : tableAppendRecord m records p = (ok, m', records')) : ok = true ∧ m'.AllGranted := by
  unfold tableAppendRecord at hrun
  by_cases hroom : records.rows.length < records.capacity
  · rw [if_pos hroom] at hrun
    cases hrun
    exact ⟨rfl, h⟩
  · rw [if_neg hroom] at hrun
    rcases halloc : m.alloc with ⟨granted, m₁⟩
    obtain ⟨rfl, hm₁⟩ := h.alloc halloc
    rw [halloc] at hrun
    dsimp only at hrun
    cases hptr : records.ptr with
    | none =>
      rw [hptr] at hrun
      cases hrun
      exact ⟨rfl, hm₁.allocs, hm₁.lockResults⟩
    | some ptr =>
      rw [hptr] at hrun
      cases hrun
      exact ⟨rfl, hm₁⟩

theorem collectRows (h : m.AllGranted)
    (hrun : tableCollectRows m records rows = (ok, m', records')) : ok = true ∧ m'.AllGranted := by
  induction rows generalizing m records with
  | nil =>
    cases hrun
    exact ⟨rfl, h⟩
  | cons p rows ih =>
    rcases happend : tableAppendRecord m records p with ⟨appended, m₁, records₁⟩
    obtain ⟨rfl, hm₁⟩ := h.appendRecord happend
    rw [tableCollectRows, happend] at hrun
    exact ih hm₁ hrun

theorem collectSection (h : m.AllGranted) {b : Fin tableBucketCount}
    (hrun : tableCollectSection m records b = some (ok, m', records')) :
    ok = true ∧ m'.AllGranted := by
  rcases hlock : m.lock (.bucket b) with ⟨locked, m₁⟩
  obtain ⟨rfl, hm₁⟩ := h.lock hlock
  rw [tableCollectSection, hlock] at hrun
  rcases hrows : tableCollectRows m₁ records (m₁.buckets b).rows with ⟨collected, m₂, records₂⟩
  obtain ⟨rfl, hm₂⟩ := hm₁.collectRows hrows
  dsimp only at hrun
  rw [hrows] at hrun
  obtain ⟨m₃, hunlock, hrun⟩ := Option.bind_eq_some_iff.mp hrun
  cases hrun
  exact ⟨rfl, hm₂.unlock hunlock⟩

theorem collectBuckets (h : m.AllGranted) {bs : List (Fin tableBucketCount)}
    (hrun : tableCollectBuckets m records bs = some (ok, m', records')) :
    ok = true ∧ m'.AllGranted := by
  induction bs generalizing m records with
  | nil =>
    cases hrun
    exact ⟨rfl, h⟩
  | cons b bs ih =>
    obtain ⟨⟨collected, m₁, records₁⟩, hsection, hrun⟩ := Option.bind_eq_some_iff.mp hrun
    obtain ⟨rfl, hm₁⟩ := h.collectSection hsection
    exact ih hm₁ hrun

theorem collectAllSorted (h : m.AllGranted)
    (hrun : tableCollectAllSorted m = some (ok, m', records)) : ok = true ∧ m'.AllGranted := by
  obtain ⟨⟨collected, m₁, records₁⟩, hbuckets, hrun⟩ := Option.bind_eq_some_iff.mp hrun
  obtain ⟨rfl, hm₁⟩ := h.collectBuckets hbuckets
  obtain ⟨sorted, -, hrun⟩ := Option.bind_eq_some_iff.mp hrun
  cases hrun
  exact ⟨rfl, hm₁⟩

theorem filterRows (h : m.AllGranted)
    (hrun : tableFilterRows m test records rows = some (ok, m', records')) : ok = true := by
  induction rows generalizing m records with
  | nil =>
    cases hrun
    rfl
  | cons p rows ih =>
    obtain ⟨r, -, hrun⟩ := Option.bind_eq_some_iff.mp hrun
    split_ifs at hrun
    · rcases happend : tableAppendRecord m records p with ⟨appended, m₁, records₁⟩
      obtain ⟨rfl, hm₁⟩ := h.appendRecord happend
      rw [happend] at hrun
      exact ih hm₁ hrun
    · exact ih h hrun

theorem findMatches (h : m.AllGranted)
    (hrun : tableFindMatches m test = some (ok, m', records)) : ok = true := by
  obtain ⟨⟨collected, m₁, all⟩, hall, hrun⟩ := Option.bind_eq_some_iff.mp hrun
  obtain ⟨rfl, hm₁⟩ := h.collectAllSorted hall
  obtain ⟨⟨filtered, m₂, found⟩, hfilter, hrun⟩ := Option.bind_eq_some_iff.mp hrun
  obtain rfl := hm₁.filterRows hfilter
  cases hrun
  rfl

end TableMemory.AllGranted

/-! ### The first match -/

/-- How the search for the first match ended: with a matching row that has the least ID, or with
none; if nothing fails, then there is none. -/
structure FirstMatch (m : TableMemory) (test : Record → Bool) (m' : TableMemory)
    (found : Option RecordPtr) : Prop where
  only : ∃ used, m.LookupOnly used m'
  owns : ∀ owned, m.Owns owned → m'.Owns owned
  least : ∀ p ∈ found, ∃ r, p ∈ m.rows ∧ m.record p = some r ∧ test r = true ∧
    ∀ q ∈ m.rows, ∀ r', m.record q = some r' → test r' = true → r.id ≤ r'.id
  missing : m.AllGranted → found = none → ∀ q ∈ m.rows, ∀ r, m.record q = some r → test r = false

/-- What the array of a scanning lookup starts with. -/
theorem Scanned.firstMatch {test : Record → Bool} (hs : m.HoldsRows rs)
    (h : Scanned m (fun rs => (sortRows rs.all).filter fun e => test e.2) ok m' records)
    (hgranted : m.AllGranted → ok = true) :
    ∃ m'' found, tableFirstMatch (some (ok, m', records)) = some (m'', found) ∧
      FirstMatch m test m'' found := by
  obtain ⟨used, honly, -⟩ := h.only
  have hmem : ∀ q r, q ∈ m.rows → m.record q = some r → (q, r) ∈ sortRows rs.all := by
    intro q r hq hr
    rw [hs.rows_eq] at hq
    obtain ⟨e, he, rfl⟩ := List.mem_map.mp hq
    rw [hs.record_all he] at hr
    cases hr
    exact (List.mem_insertionSort _).mpr he
  cases ok with
  | false =>
    refine ⟨m', none, rfl, ⟨used, honly⟩, fun owned howned => ?_, fun p hp => ?_,
      fun hgranted' => ?_⟩
    · have howned' := h.owns owned howned
      rwa [h.empty rfl] at howned'
    · exact absurd hp (Option.not_mem_none p)
    · exact absurd (hgranted hgranted') Bool.false_ne_true
  | true =>
    have hrows := h.rows rfl rs hs
    have hfree := honly.trans (memoryOnly_freeArray m' records).lookupOnly
    refine ⟨_, _, rfl, ⟨_, hfree⟩, fun owned howned => (h.owns owned howned).free, fun p hp => ?_,
      fun _ hnone q hq r hr => ?_⟩
    · -- the first of the sorted matches is the least
      rw [hrows, Option.mem_def, List.head?_map, Option.map_eq_some_iff] at hp
      obtain ⟨e, hhead, rfl⟩ := hp
      obtain ⟨rest, hcons⟩ := List.head?_eq_some_iff.mp hhead
      have he := List.mem_filter.mp (hcons ▸ List.mem_cons_self :
        e ∈ (sortRows rs.all).filter fun e => test e.2)
      have hall := (List.mem_insertionSort _).mp he.1
      refine ⟨e.2, ?_, hs.record_all hall, he.2, fun q hq r' hr' htest => ?_⟩
      · rw [hs.rows_eq]
        exact List.mem_map_of_mem hall
      · have hsorted := (pairwise_sortRows rs.all).filter fun e => test e.2
        have hother : (q, r') ∈ e :: rest :=
          hcons ▸ List.mem_filter.mpr ⟨hmem q r' hq hr', htest⟩
        rw [hcons] at hsorted
        rcases List.mem_cons.mp hother with heq | hrest
        · rw [← heq]
        · exact (List.pairwise_cons.mp hsorted).1 _ hrest
    · rw [hrows, List.head?_eq_none_iff, List.map_eq_nil_iff, List.filter_eq_nil_iff] at hnone
      exact Bool.eq_false_iff.mpr (hnone (q, r) (hmem q r hq hr))

theorem tableFindMatches_firstMatch (hs : m.HoldsRows rs) (test : Record → Bool) :
    ∃ m' found, tableFirstMatch (tableFindMatches m test) = some (m', found) ∧
      FirstMatch m test m' found := by
  obtain ⟨⟨ok, m₁, records⟩, hrun⟩ := tableFindMatches_total hs test
  rw [hrun]
  exact (tableFindMatches_scanned hrun).firstMatch hs fun hgranted => hgranted.findMatches hrun

/-! ### Printing -/

/-- `text` are all rows of the table, in the order of their IDs, and `printed` is their number. -/
def Prints (m : TableMemory) (text : CBytes) (printed : ℕ) : Prop :=
  ∃ ptrs rows, ptrs.Perm m.rows ∧ m.recordsAt ptrs = some rows ∧
    rows.Pairwise (fun left right => left.id ≤ right.id) ∧
      text = rows.flatMap tablePrintRecord ∧ printed = rows.length

theorem tablePrintAll_prints (hs : m.HoldsRows rs) :
    ∃ m' text printed, tablePrintAll m = some (m', text, printed) ∧
      (∃ used, m.LookupOnly used m') ∧ (∀ owned, m.Owns owned → m'.Owns owned) ∧
        (Prints m text printed ∨ text = [] ∧ printed = 0 ∧ ¬ m.AllGranted) := by
  obtain ⟨⟨ok, m₁, records⟩, hrun⟩ := tableCollectAllSorted_total hs
  have hscanned := tableCollectAllSorted_scanned hrun
  obtain ⟨used, honly, -⟩ := hscanned.only
  cases ok with
  | false =>
    refine ⟨m₁, [], 0, bind_eq_of_eq_some hrun rfl, ⟨used, honly⟩, fun owned howned => ?_,
      Or.inr ⟨rfl, rfl, fun hgranted => ?_⟩⟩
    · have howned' := hscanned.owns owned howned
      rwa [hscanned.empty rfl] at howned'
    · exact absurd (hgranted.collectAllSorted hrun).1 Bool.false_ne_true
  | true =>
    have hrows := hscanned.rows rfl rs hs
    have hsorted : ∀ e ∈ sortRows rs.all, m.record e.1 = some e.2 := fun e he =>
      hs.record_all ((List.mem_insertionSort _).mp he)
    have hread := recordsAt_map hsorted
    have hread₁ : m₁.recordsAt records.rows = some ((sortRows rs.all).map Prod.snd) := by
      rw [hrows]
      exact recordsAt_map fun e he => (honly.record e.1).trans (hsorted e he)
    have hallocated := tableCollectAllSorted_allocated hrun
    have hprints : Prints m (((sortRows rs.all).map Prod.snd).flatMap tablePrintRecord)
        records.rows.length := by
      refine ⟨_, _, ?_, hread, List.pairwise_map.mpr (pairwise_sortRows rs.all), rfl, ?_⟩
      · rw [hs.rows_eq]
        exact (List.perm_insertionSort _ _).map Prod.fst
      · rw [hrows, List.length_map, List.length_map]
    have hprint : tablePrintRecords m₁ records =
        some (((sortRows rs.all).map Prod.snd).flatMap tablePrintRecord, records.rows.length) := by
      by_cases hnil : (sortRows rs.all).map Prod.snd = []
      · -- without rows there may be no array
        rw [List.map_eq_nil_iff] at hnil
        rw [hnil] at hrows ⊢
        unfold tablePrintRecords
        cases records.ptr with
        | none => rw [hrows]; rfl
        | some ptr => rw [hrows]; rfl
      · exact (tablePrintRecords_of_rows hallocated hread₁ hnil).1
    have hfree := honly.trans (memoryOnly_freeArray m₁ records).lookupOnly
    exact ⟨_, _, _, bind_eq_of_eq_some hrun (bind_eq_of_eq_some hprint rfl), ⟨_, hfree⟩,
      fun owned howned => (hscanned.owns owned howned).free, Or.inl hprints⟩

/-- **The other callers of the scanning lookups**, on every table that statements reach, whatever
fails in the call. -/
theorem table_find_first {allowed : TableMemory → SQLCommand → Prop} {m : TableMemory}
    (h : ReachedBy allowed m) (allocs lockResults : List Bool) :
    let m₀ : TableMemory := { m with allocs := allocs, lockResults := lockResults }
    (∀ name, ∃ m' found, tableFindByName m₀ name = some (m', found) ∧
      FirstMatch m₀ (fun r => r.name = name) m' found) ∧
    (∀ age, ∃ m' found, tableFindByAge m₀ age = some (m', found) ∧
      FirstMatch m₀ (fun r => r.age = age) m' found) ∧
    ∃ m' text printed, tablePrintAll m₀ = some (m', text, printed) ∧
      (∃ used, m₀.LookupOnly used m') ∧ (∀ owned, m₀.Owns owned → m'.Owns owned) ∧
        (Prints m₀ text printed ∨ text = [] ∧ printed = 0 ∧ ¬ m₀.AllGranted) := by
  intro m₀
  obtain ⟨rs, hformed⟩ := h.kept.formed
  have hs : m₀.HoldsRows rs := ⟨hformed.rows, hformed.capacity, hformed.record, hformed.bucket⟩
  exact ⟨fun name => tableFindMatches_firstMatch hs _, fun age => tableFindMatches_firstMatch hs _,
    tablePrintAll_prints hs⟩

theorem table_find_first_kim : ∃ m m' r, ReachedBy AnyStatement m ∧
    tableFindByAge { m with allocs := [], lockResults := [] } 30 = some (m', some 0) ∧
      m.record 0 = some r ∧ r.age = 30 := by
  have hruns : ((sqlExecutePlan (.start [] [])
      (sqlParse (ascii "INSERT INTO users VALUES ('kim', 30)")).2.command).bind fun r =>
        (tableFindByAge { (sqlResultDestroy r.1 r.2).1 with
          allocs := [], lockResults := [] } 30).map Prod.snd) = some (some 0) := by
    decide
  obtain ⟨⟨m, result⟩, hrun, hfind⟩ := Option.bind_eq_some_iff.mp hruns
  obtain ⟨⟨m', found⟩, hfind, hfound⟩ := Option.map_eq_some_iff.mp hfind
  have hreached : ReachedBy AnyStatement (sqlResultDestroy m result).1 :=
    .execute .start True.intro hrun
  obtain ⟨-, hage, -⟩ := table_find_first hreached [] []
  obtain ⟨m'', found', hfind', hfirst⟩ := hage 30
  obtain ⟨rfl, rfl⟩ := Prod.mk.inj (Option.some.inj (hfind.symm.trans hfind'))
  obtain ⟨r, -, hr, htest, -⟩ := hfirst.least 0 hfound
  rw [show found = some 0 from hfound] at hfind
  exact ⟨_, m', r, hreached, hfind, hr, of_decide_eq_true htest⟩

end MiniDbms
