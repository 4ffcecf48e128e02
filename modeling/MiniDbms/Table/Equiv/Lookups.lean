import MiniDbms.Table.Equiv.Sections

/-!
# The table operations, run one after another

`Rows.Ordered rs rows` says that `rows` are the records of all buckets in ascending order of their
IDs.  With nothing in between, an insertion appends one record to them, and every lookup returns the
records that match, in that order.
-/

namespace MiniDbms

open SortedAssoc CArray TableMemory

/-- The records that an array of pointers points to. -/
def TableMemory.recordsAt (m : TableMemory) (ptrs : List RecordPtr) : Option (List Record) :=
  ptrs.mapM m.record

theorem TableMemory.recordsAt_map {m : TableMemory} {es : List Row}
    (h : ∀ e ∈ es, m.record e.1 = some e.2) :
    m.recordsAt (es.map Prod.fst) = some (es.map Prod.snd) := by
  unfold TableMemory.recordsAt
  induction es with
  | nil => rfl
  | cons e es ih =>
    rw [List.map_cons, List.mapM_cons, h e List.mem_cons_self,
      ih fun e' he' => h e' (List.mem_cons_of_mem _ he')]
    rfl

theorem TableMemory.length_recordsAt {m : TableMemory} {ptrs : List RecordPtr} {rows : List Record}
    (h : m.recordsAt ptrs = some rows) : ptrs.length = rows.length := by
  unfold TableMemory.recordsAt at h
  induction ptrs generalizing rows with
  | nil =>
    cases h
    rfl
  | cons p ptrs ih =>
    rw [List.mapM_cons] at h
    obtain ⟨r, -, h⟩ := Option.bind_eq_some_iff.mp h
    obtain ⟨rs, hrs, h⟩ := Option.bind_eq_some_iff.mp h
    cases h
    rw [List.length_cons, List.length_cons, ih hrs]

theorem TableMemory.exists_recordsAt {m : TableMemory} {ptrs : List RecordPtr}
    (h : ∀ p ∈ ptrs, ∃ r, m.record p = some r) : ∃ rows, m.recordsAt ptrs = some rows := by
  unfold TableMemory.recordsAt
  induction ptrs with
  | nil => exact ⟨[], rfl⟩
  | cons p ptrs ih =>
    obtain ⟨r, hr⟩ := h p List.mem_cons_self
    obtain ⟨rs, hrs⟩ := ih fun q hq => h q (List.mem_cons_of_mem _ hq)
    exact ⟨r :: rs, by rw [List.mapM_cons, hr, hrs]; rfl⟩

theorem TableMemory.record_of_recordsAt {m : TableMemory} {ptrs : List RecordPtr}
    {rows : List Record} (h : m.recordsAt ptrs = some rows) {i : ℕ} {p : RecordPtr}
    (hp : ptrs[i]? = some p) : m.record p = rows[i]? := by
  unfold TableMemory.recordsAt at h
  induction ptrs generalizing rows i with
  | nil => cases hp
  | cons q ptrs ih =>
    rw [List.mapM_cons] at h
    obtain ⟨r, hr, h⟩ := Option.bind_eq_some_iff.mp h
    obtain ⟨rs, hrs, h⟩ := Option.bind_eq_some_iff.mp h
    cases h
    cases i with
    | zero =>
      cases hp
      exact hr
    | succ i => exact ih hrs hp

theorem TableMemory.mem_recordsAt {m : TableMemory} {ptrs : List RecordPtr} {rows : List Record}
    (h : m.recordsAt ptrs = some rows) {r : Record} (hr : r ∈ rows) :
    ∃ p ∈ ptrs, m.record p = some r := by
  obtain ⟨i, hi, rfl⟩ := List.mem_iff_getElem.mp hr
  have hlt : i < ptrs.length := (TableMemory.length_recordsAt h).symm ▸ hi
  refine ⟨ptrs[i], List.getElem_mem hlt, ?_⟩
  rw [TableMemory.record_of_recordsAt h (List.getElem?_eq_getElem hlt), List.getElem?_eq_getElem hi]

/-! ### The records of all buckets -/

theorem Rows.mem_all {rs : Rows} {e : Row} : e ∈ rs.all ↔ ∃ b, e ∈ rs b := by
  unfold Rows.all
  rw [List.mem_flatMap]
  constructor
  · rintro ⟨b, -, he⟩
    exact ⟨b, he⟩
  · rintro ⟨b, he⟩
    exact ⟨b, List.mem_finRange b, he⟩

/-- One more element in one place is one more element in all. -/
theorem flatMap_update_perm {α β : Type} [DecidableEq α] (f : α → List β) (a : α) (x : β)
    {as : List α} (hnd : as.Nodup) (ha : a ∈ as) :
    (as.flatMap (Function.update f a (f a ++ [x]))).Perm (x :: as.flatMap f) := by
  induction as with
  | nil => cases ha
  | cons a' as ih =>
    rw [List.nodup_cons] at hnd
    rw [List.flatMap_cons, List.flatMap_cons]
    by_cases haa : a' = a
    · subst haa
      have hrest : as.flatMap (Function.update f a' (f a' ++ [x])) = as.flatMap f := by
        apply List.flatMap_congr
        intro b hb
        rw [Function.update_of_ne]
        rintro rfl
        exact hnd.1 hb
      rw [Function.update_self, hrest, ← List.cons_append]
      exact (List.perm_append_singleton x (f a')).append_right _
    · rw [Function.update_of_ne haa]
      have ha' : a ∈ as := (List.mem_cons.mp ha).resolve_left (Ne.symm haa)
      exact ((ih hnd.2 ha').append_left _).trans List.perm_middle

theorem Rows.all_add (rs : Rows) (e : Row) : (rs.add e).all.Perm (e :: rs.all) :=
  flatMap_update_perm rs _ e (List.nodup_finRange _) (List.mem_finRange _)

/-- The records of all buckets, in ascending order of their IDs. -/
structure Rows.Ordered (rs : Rows) (rows : List Record) : Prop where
  perm : (rs.all.map Prod.snd).Perm rows
  sorted : rows.Pairwise fun left right => left.id < right.id

theorem Rows.Ordered.mem_iff {rs : Rows} {rows : List Record} (h : rs.Ordered rows) {r : Record} :
    r ∈ rows ↔ ∃ b, ∃ e ∈ rs b, e.2 = r := by
  rw [← h.perm.mem_iff, List.mem_map]
  constructor
  · rintro ⟨e, he, rfl⟩
    obtain ⟨b, hb⟩ := Rows.mem_all.mp he
    exact ⟨b, e, hb, rfl⟩
  · rintro ⟨b, e, he, rfl⟩
    exact ⟨e, Rows.mem_all.mpr ⟨b, he⟩, rfl⟩

/-- Records with the same ID are the same record. -/
theorem Rows.Ordered.eq_of_id {rs : Rows} {rows : List Record} (h : rs.Ordered rows)
    {r r' : Record} (hr : r ∈ rows) (hr' : r' ∈ rows) (hid : r.id = r'.id) : r = r' := by
  have hnd : (rows.map Record.id).Nodup := by
    rw [List.Nodup, List.pairwise_map]
    exact h.sorted.imp fun hlt => ne_of_lt hlt
  exact List.inj_on_of_nodup_map hnd hr hr' hid

/-- Sorting the rows of all buckets gives the records in order. -/
theorem Rows.Ordered.sortRows_eq {rs : Rows} {rows : List Record} (h : rs.Ordered rows) :
    (sortRows rs.all).map Prod.snd = rows := by
  have hperm : ((sortRows rs.all).map Prod.snd).Perm rows :=
    ((List.perm_insertionSort _ _).map _).trans h.perm
  have hsorted : ((sortRows rs.all).map Prod.snd).Pairwise
      fun left right => left.id ≤ right.id := by
    rw [List.pairwise_map]
    exact pairwise_sortRows _
  refine hperm.eq_of_pairwise ?_ hsorted (h.sorted.imp le_of_lt)
  intro r r' hr hr' hle hge
  exact h.eq_of_id (hperm.mem_iff.mp hr) hr' (le_antisymm hle hge)

/-! ### Lookups -/

/-- A lookup that returned `rows` and changed nothing but its result arrays. -/
def Returns (m : TableMemory) (rows : List Record)
    (found : Option (Bool × TableMemory × RecordArray)) : Prop :=
  ∃ m' records, found = some (true, m', records) ∧ m.ArraysOnly m' ∧
    m'.recordsAt records.rows = some rows

section Lookups

variable {m : TableMemory} {rs : Rows} {rows : List Record}

theorem tableCollectAll_returns (hq : m.Quiet) (hs : m.Stores rs) (ho : rs.Ordered rows) :
    Returns m rows (tableCollectAll m) := by
  obtain ⟨m', records, hrun, hm', hrows⟩ := tableCollectAllSorted_spec hq hs
  refine ⟨m', records, hrun, hm', ?_⟩
  rw [hrows, recordsAt_map, ho.sortRows_eq]
  intro e he
  obtain ⟨b, hb⟩ := Rows.mem_all.mp ((List.mem_insertionSort _).mp he)
  rw [hm'.record]
  exact hs.record b e hb

theorem tableFindMatches_returns (hq : m.Quiet) (hs : m.Stores rs) (ho : rs.Ordered rows)
    (test : Record → Bool) : Returns m (rows.filter test) (tableFindMatches m test) := by
  obtain ⟨m₁, all, hrun, hm₁, hrows⟩ := tableCollectAllSorted_spec hq hs
  have hrec : ∀ e ∈ sortRows rs.all, m.record e.1 = some e.2 := by
    intro e he
    obtain ⟨b, hb⟩ := Rows.mem_all.mp ((List.mem_insertionSort _).mp he)
    exact hs.record b e hb
  obtain ⟨m', records, hrun', hm', hrows'⟩ := tableFilterRecords_spec test (hm₁.quiet hq).allocs
    (fun e he => (hm₁.record e.1).trans (hrec e he)) hrows
  refine ⟨m', records, bind_eq_of_eq_some hrun hrun', hm₁.trans hm', ?_⟩
  have hfilter : ((sortRows rs.all).filter fun e => test e.2).map Prod.snd = rows.filter test := by
    rw [← ho.sortRows_eq, List.filter_map]
    rfl
  rw [hrows', recordsAt_map, hfilter]
  intro e he
  rw [(hm₁.trans hm').record]
  exact hrec e (List.mem_of_mem_filter he)

/-- The records with a given ID: the one that the index finds, or none. -/
theorem Rows.Ordered.filter_id (hs : m.Stores rs) (ho : rs.Ordered rows) {id : ℤ}
    {p : Option RecordPtr}
    (hp : ∀ q, p = some q ↔ ∃ r, (q, r) ∈ rs (tableBucketIndexForId id) ∧ r.id = id) :
    m.recordsAt p.toList = some (rows.filter fun r => r.id = id) := by
  cases p with
  | none =>
    have hnil : (rows.filter fun r => decide (r.id = id)) = [] := by
      rw [List.filter_eq_nil_iff]
      intro r hr hid
      rw [decide_eq_true_eq] at hid
      obtain ⟨b, ⟨q, r'⟩, he, rfl⟩ := ho.mem_iff.mp hr
      have hb : tableBucketIndexForId id = b := by
        rw [← hid]
        exact hs.bucket b _ he
      exact Option.some_ne_none q ((hp q).mpr ⟨r', by rw [hb]; exact he, hid⟩).symm
    rw [hnil]
    rfl
  | some q =>
    obtain ⟨r, he, hid⟩ := (hp q).mp rfl
    have hr : r ∈ rows := ho.mem_iff.mpr ⟨_, _, he, rfl⟩
    have hsingle : (rows.filter fun r => decide (r.id = id)) = [r] := by
      have : Std.Irrefl fun left right : Record => left.id < right.id :=
        ⟨fun r => lt_irrefl r.id⟩
      refine (ho.sorted.filter _).eq_of_mem_iff (List.pairwise_singleton _ r) fun r' => ?_
      rw [List.mem_filter, decide_eq_true_eq, List.mem_singleton]
      constructor
      · rintro ⟨hr', hid'⟩
        exact ho.eq_of_id hr' hr (hid'.trans hid.symm)
      · rintro rfl
        exact ⟨hr, hid⟩
    rw [hsingle]
    have hrecord : ∀ e ∈ [(q, r)], m.record e.1 = some e.2 := by
      intro e he'
      rw [List.mem_singleton.mp he']
      exact hs.record _ _ he
    exact recordsAt_map hrecord

theorem tableFindByIdCondition_returns (hq : m.Quiet) (hs : m.Stores rs) (ho : rs.Ordered rows)
    (comparison : TableComparison) (id : ℤ) :
    Returns m (rows.filter fun r => tableCompareInt r.id comparison id)
      (tableFindByIdCondition m comparison id) := by
  unfold tableFindByIdCondition
  split_ifs with heq
  · subst heq
    obtain ⟨p, hrun, hp⟩ := tableFindById_spec hq.unlocked hs id
    have hfound := ho.filter_id hs hp
    cases p with
    | none => exact ⟨m, .empty, bind_eq_of_eq_some hrun rfl, .refl m, hfound⟩
    | some q =>
      obtain ⟨m', records, happ, hm', hrows⟩ := tableAppendRecord_spec hq.allocs .empty q
      refine ⟨m', records, bind_eq_of_eq_some hrun (congrArg some happ), hm', ?_⟩
      obtain ⟨a, f, rfl⟩ := hm'
      rw [hrows]
      exact hfound
  · exact tableFindMatches_returns hq hs ho _

end Lookups

end MiniDbms
