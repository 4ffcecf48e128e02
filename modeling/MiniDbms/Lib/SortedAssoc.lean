import Mathlib.Data.List.Sort
import Mathlib.Order.Basic

/-!
# Sorted association lists

A finite map kept as a list of key/value pairs with strictly ascending keys.  `insertEntry` puts a
pair at its place; `lookup_insertEntry` says it is the map with that one binding added, and
`insertEntry_middle` that inserting into the right segment of a list is inserting into the list.
-/

namespace SortedAssoc

variable {κ ν : Type*} [LinearOrder κ]

/-- Strictly ascending keys. -/
def Sorted (m : List (κ × ν)) : Prop := m.Pairwise fun a b => a.1 < b.1

/-- The keys of a list of pairs. -/
abbrev keys (m : List (κ × ν)) : List κ := m.map Prod.fst

instance (k : κ) (m : List (κ × ν)) : Decidable (k ∈ keys m) :=
  inferInstanceAs (Decidable (k ∈ m.map Prod.fst))

/-- Put `x` in front of the first pair whose key is not smaller. -/
def insertEntry (x : κ × ν) (m : List (κ × ν)) : List (κ × ν) :=
  m.orderedInsert (fun a b => a.1 ≤ b.1) x

@[simp] theorem insertEntry_nil (x : κ × ν) : insertEntry x [] = [x] := rfl

theorem insertEntry_cons_of_le {x y : κ × ν} (m : List (κ × ν)) (h : x.1 ≤ y.1) :
    insertEntry x (y :: m) = x :: y :: m :=
  List.orderedInsert_cons_of_le _ m h

theorem insertEntry_cons_of_lt {x y : κ × ν} (m : List (κ × ν)) (h : y.1 < x.1) :
    insertEntry x (y :: m) = y :: insertEntry x m :=
  List.orderedInsert_of_not_le _ m (not_le.mpr h)

@[simp] theorem length_insertEntry (x : κ × ν) (m : List (κ × ν)) :
    (insertEntry x m).length = m.length + 1 :=
  List.orderedInsert_length _ m x

theorem perm_insertEntry (x : κ × ν) (m : List (κ × ν)) : (insertEntry x m).Perm (x :: m) :=
  List.perm_orderedInsert _ _ _

@[simp] theorem mem_insertEntry {x y : κ × ν} {m : List (κ × ν)} :
    y ∈ insertEntry x m ↔ y = x ∨ y ∈ m :=
  List.mem_orderedInsert _

/-- The place of a key: behind the smaller ones. -/
theorem insertEntry_eq_insertIdx (x : κ × ν) (m : List (κ × ν)) :
    insertEntry x m = m.insertIdx ((keys m).takeWhile (· < x.1)).length x := by
  induction m with
  | nil => rfl
  | cons y m ih =>
    rw [keys, List.map_cons, List.takeWhile_cons]
    by_cases h : y.1 < x.1
    · rw [insertEntry_cons_of_lt m h, ih]
      simp [h]
    · rw [insertEntry_cons_of_le m (not_lt.mp h)]
      simp [h]

theorem Sorted.sublist {m m' : List (κ × ν)} (h : Sorted m) (hs : m'.Sublist m) : Sorted m' :=
  List.Pairwise.sublist hs h

theorem Sorted.nodup_keys {m : List (κ × ν)} (h : Sorted m) : (keys m).Nodup :=
  List.pairwise_map.mpr (h.imp fun hlt => hlt.ne)

/-- Inserting a fresh key keeps the list sorted. -/
theorem Sorted.insertEntry {x : κ × ν} {m : List (κ × ν)} (h : Sorted m) (hx : x.1 ∉ keys m) :
    Sorted (insertEntry x m) := by
  induction m with
  | nil => simp [Sorted]
  | cons y m ih =>
    obtain ⟨hy, hm⟩ := List.pairwise_cons.mp h
    rw [keys, List.map_cons, List.mem_cons, not_or] at hx
    rcases lt_or_gt_of_ne hx.1 with hlt | hgt
    · rw [insertEntry_cons_of_le m hlt.le]
      refine List.pairwise_cons.mpr ⟨fun z hz => ?_, h⟩
      rcases List.mem_cons.mp hz with rfl | hz
      · exact hlt
      · exact hlt.trans (hy z hz)
    · rw [insertEntry_cons_of_lt m hgt]
      refine List.pairwise_cons.mpr ⟨fun z hz => ?_, ih hm hx.2⟩
      rcases mem_insertEntry.mp hz with rfl | hz
      · exact hgt
      · exact hy z hz

theorem lookup_cons (y : κ × ν) (m : List (κ × ν)) (k : κ) :
    (y :: m).lookup k = if k = y.1 then some y.2 else m.lookup k := by
  rw [show y :: m = (y.1, y.2) :: m from rfl, List.lookup_cons]
  by_cases hk : k = y.1
  · simp [hk]
  · rw [if_neg hk, beq_false_of_ne hk]

/-- Inserting a fresh key adds one binding. -/
theorem lookup_insertEntry {x : κ × ν} {m : List (κ × ν)} (hx : x.1 ∉ keys m) (k : κ) :
    (insertEntry x m).lookup k = if k = x.1 then some x.2 else m.lookup k := by
  induction m with
  | nil => rw [insertEntry_nil, lookup_cons]
  | cons y m ih =>
    rw [keys, List.map_cons, List.mem_cons, not_or] at hx
    by_cases h : y.1 < x.1
    · rw [insertEntry_cons_of_lt m h, lookup_cons, lookup_cons, ih hx.2]
      by_cases hk : k = y.1
      · simp [hk, Ne.symm hx.1]
      · simp [hk]
    · rw [insertEntry_cons_of_le m (not_lt.mp h), lookup_cons]

theorem lookup_eq_none_of_notMem {m : List (κ × ν)} {k : κ} (h : k ∉ keys m) :
    m.lookup k = none := by
  rw [List.lookup_eq_none_iff]
  intro p hp
  rw [bne_iff_ne]
  rintro rfl
  exact h (List.mem_map_of_mem hp)

/-- In a sorted list a pair is what its key looks up. -/
theorem Sorted.lookup_eq_some_iff {m : List (κ × ν)} (h : Sorted m) {k : κ} {v : ν} :
    m.lookup k = some v ↔ (k, v) ∈ m := by
  induction m with
  | nil => simp
  | cons y m ih =>
    obtain ⟨hy, hm⟩ := List.pairwise_cons.mp h
    rw [lookup_cons, List.mem_cons]
    by_cases hk : k = y.1
    · subst hk
      have hnot : (y.1, v) ∉ m := fun hmem => lt_irrefl y.1 (hy (y.1, v) hmem)
      rw [if_pos rfl, Option.some.injEq, or_iff_left hnot]
      exact ⟨fun hv => by rw [← hv], fun hv => by rw [← hv]⟩
    · have hne : (k, v) ≠ y := fun he => hk (by rw [← he])
      rw [if_neg hk, ih hm, or_iff_right hne]

theorem mem_keys_insertEntry {x : κ × ν} {m : List (κ × ν)} {k : κ} :
    k ∈ keys (insertEntry x m) ↔ k = x.1 ∨ k ∈ keys m := by
  simp only [keys, List.mem_map, mem_insertEntry]
  constructor
  · rintro ⟨e, rfl | he, rfl⟩
    · exact .inl rfl
    · exact .inr ⟨e, he, rfl⟩
  · rintro (rfl | ⟨e, he, rfl⟩)
    · exact ⟨x, .inl rfl, rfl⟩
    · exact ⟨e, .inr he, rfl⟩

theorem isSome_lookup_iff {m : List (κ × ν)} {k : κ} : (m.lookup k).isSome ↔ k ∈ keys m := by
  constructor
  · intro h
    by_contra hk
    simp [lookup_eq_none_of_notMem hk] at h
  · intro h
    obtain ⟨e, he, rfl⟩ := List.mem_map.mp h
    rw [Option.isSome_iff_ne_none, Ne, List.lookup_eq_none_iff]
    exact fun hall => by simpa using hall e he

/-! ### First insertion wins -/

/-- Insertion of an entry whose key may be there already: the old entry stays. -/
def insertNew (x : κ × ν) (m : List (κ × ν)) : List (κ × ν) :=
  if x.1 ∈ keys m then m else insertEntry x m

theorem mem_keys_insertNew {x : κ × ν} {m : List (κ × ν)} {k : κ} :
    k ∈ keys (insertNew x m) ↔ k = x.1 ∨ k ∈ keys m := by
  rw [insertNew]
  split_ifs with hx
  · exact ⟨.inr, fun h => h.elim (fun h0 => h0 ▸ hx) id⟩
  · exact mem_keys_insertEntry

theorem lookup_insertNew (x : κ × ν) (m : List (κ × ν)) (k : κ) :
    (insertNew x m).lookup k = (m.lookup k).or (if k = x.1 then some x.2 else none) := by
  rw [insertNew]
  split_ifs with hx hk hk
  · obtain ⟨v, hv⟩ := Option.isSome_iff_exists.mp (isSome_lookup_iff.mpr (hk ▸ hx))
    rw [hv, Option.some_or]
  · rw [Option.or_none]
  · rw [lookup_insertEntry hx, if_pos hk, lookup_eq_none_of_notMem (hk ▸ hx), Option.none_or]
  · rw [lookup_insertEntry hx, if_neg hk, Option.or_none]

/-- Inserting one entry after another: what was there wins over what comes, and earlier entries win
over later ones. -/
theorem lookup_foldl_insertNew (xs : List (κ × ν)) (m : List (κ × ν)) (k : κ) :
    (xs.foldl (fun m x => insertNew x m) m).lookup k = (m.lookup k).or (xs.lookup k) := by
  induction xs generalizing m with
  | nil => rw [List.foldl_nil, List.lookup_nil, Option.or_none]
  | cons x xs ih =>
    rw [List.foldl_cons, ih, lookup_insertNew, lookup_cons, Option.or_assoc]
    split_ifs
    · rw [Option.some_or]
    · rw [Option.none_or]

theorem mem_keys_foldl_insertNew (xs : List (κ × ν)) (m : List (κ × ν)) (k : κ) :
    k ∈ keys (xs.foldl (fun m x => insertNew x m) m) ↔ k ∈ keys m ∨ k ∈ keys xs := by
  induction xs generalizing m with
  | nil => simp
  | cons x xs ih =>
    rw [List.foldl_cons, ih, mem_keys_insertNew, keys, keys, keys, List.map_cons, List.mem_cons]
    tauto

/-! ### Segments -/

theorem notMem_keys_of_lt {m : List (κ × ν)} {k : κ} (h : ∀ e ∈ m, e.1 < k) : k ∉ keys m := by
  rintro hk
  obtain ⟨e, he, rfl⟩ := List.mem_map.mp hk
  exact lt_irrefl _ (h e he)

theorem notMem_keys_of_gt {m : List (κ × ν)} {k : κ} (h : ∀ e ∈ m, k < e.1) : k ∉ keys m := by
  rintro hk
  obtain ⟨e, he, rfl⟩ := List.mem_map.mp hk
  exact lt_irrefl _ (h e he)

/-- Lookup only concerns the segment that may hold the key. -/
theorem lookup_middle {a b c : List (κ × ν)} {k : κ} (ha : ∀ e ∈ a, e.1 < k)
    (hc : ∀ e ∈ c, k < e.1) : (a ++ b ++ c).lookup k = b.lookup k := by
  rw [List.lookup_append, List.lookup_append,
    lookup_eq_none_of_notMem (notMem_keys_of_lt ha),
    lookup_eq_none_of_notMem (notMem_keys_of_gt hc)]
  simp

theorem insertEntry_append_right {x : κ × ν} {a : List (κ × ν)} (b : List (κ × ν))
    (ha : ∀ e ∈ a, e.1 < x.1) : insertEntry x (a ++ b) = a ++ insertEntry x b := by
  induction a with
  | nil => rfl
  | cons y a ih =>
    rw [List.cons_append, insertEntry_cons_of_lt _ (ha y List.mem_cons_self),
      ih fun e he => ha e (List.mem_cons_of_mem _ he), List.cons_append]

theorem insertEntry_append_left {x : κ × ν} (b : List (κ × ν)) {c : List (κ × ν)}
    (hc : ∀ e ∈ c, x.1 < e.1) : insertEntry x (b ++ c) = insertEntry x b ++ c := by
  induction b with
  | nil =>
    cases c with
    | nil => rfl
    | cons y c => exact insertEntry_cons_of_le c (hc y List.mem_cons_self).le
  | cons y b ih =>
    by_cases h : y.1 < x.1
    · rw [List.cons_append, insertEntry_cons_of_lt _ h, insertEntry_cons_of_lt _ h, ih,
        List.cons_append]
    · rw [List.cons_append, insertEntry_cons_of_le _ (not_lt.mp h),
        insertEntry_cons_of_le _ (not_lt.mp h), List.cons_append, List.cons_append]

/-- Inserting into the segment that may hold the key is inserting into the whole list. -/
theorem insertEntry_middle {x : κ × ν} {a c : List (κ × ν)} (b : List (κ × ν))
    (ha : ∀ e ∈ a, e.1 < x.1) (hc : ∀ e ∈ c, x.1 < e.1) :
    insertEntry x (a ++ b ++ c) = a ++ insertEntry x b ++ c := by
  rw [List.append_assoc, insertEntry_append_right _ ha, insertEntry_append_left _ hc,
    List.append_assoc]

/-- A piece that is cut out of a list takes the greatest entry with it, unless that is right of the
piece: when the greatest is the new one, old ones are left. -/
theorem mem_of_cut {x : κ × ν} {m a lost b : List (κ × ν)} (hgreatest : ∀ e ∈ m, e.1 < x.1)
    (heq : insertEntry x m = a ++ lost ++ b) (hlost : lost ≠ []) (hlt : ∀ e ∈ b, x.1 < e.1) :
    ∀ e ∈ a ++ b, e ∈ m := by
  have hlast : m ++ [x] = a ++ lost ++ b := by
    rw [← heq, ← List.append_nil m, insertEntry_append_right [] hgreatest, List.append_nil,
      insertEntry_nil]
  rcases List.eq_nil_or_concat b with rfl | ⟨b, y, rfl⟩
  · rcases List.eq_nil_or_concat lost with rfl | ⟨lost, y, rfl⟩
    · exact absurd rfl hlost
    · rw [List.append_nil, List.concat_eq_append, ← List.append_assoc] at hlast
      obtain ⟨rfl, -⟩ := List.append_inj' hlast rfl
      intro e he
      rw [List.append_nil] at he
      exact List.mem_append_left _ he
  · rw [List.concat_eq_append, ← List.append_assoc] at hlast
    obtain ⟨-, hxy⟩ := List.append_inj' hlast rfl
    obtain rfl : x = y := List.singleton_injective hxy
    exact absurd (hlt x (by simp)) (lt_irrefl _)

end SortedAssoc
