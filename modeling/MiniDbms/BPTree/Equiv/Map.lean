import MiniDbms.BPTree.Equiv.Root

/-!
# Sequences of insertions into the index

`bptreeInsertAll` runs a sequence of `bptree_insert` calls and collects their answers.

* `bptree_first_wins`: with memory for every node, the index is the finite map in which the first
  insertion of a key wins.
* `bptreeInsert_atomic_iff`: a call that fails for want of memory leaves the index as it was only
  when the *first* of the allocations it needs fails; otherwise entries that were there are lost
  (`bptreeInsert_loses_key`).
-/

namespace MiniDbms

open SortedAssoc CArray BPlus

variable {ρ : Type}

/-- A sequence of `bptree_insert` calls, with their answers. -/
def bptreeInsertAll (h : BPHeap ρ) : List (ℤ × Option ρ) → Option (BPHeap ρ × List Bool)
  | [] => some (h, [])
  | x :: xs => do
    let (h, ok) ← bptreeInsert h x.1 x.2
    let (h, oks) ← bptreeInsertAll h xs
    some (h, ok :: oks)

/-- The empty index, with the outcomes of the coming `calloc` calls. -/
def bptreeStart (ρ : Type) (allocs : List Bool) : BPHeap ρ := ⟨bptreeCreate, allocs⟩

/-- Any sequence of calls stays inside the arrays, whatever fails. -/
theorem bptreeInsertAll_holds (xs : List (ℤ × Option ρ)) {h : BPHeap ρ}
    {m : List (ℤ × Option ρ)} (hm : h.toBPTree.Holds m) :
    ∃ h' oks m', bptreeInsertAll h xs = some (h', oks) ∧ h'.toBPTree.Holds m' := by
  induction xs generalizing h m with
  | nil => exact ⟨h, [], m, rfl, hm⟩
  | cons x xs ih =>
    obtain ⟨⟨h₁, ok⟩, hrun, hres⟩ := bptreeInsert_spec hm x
    obtain ⟨m₁, hm₁⟩ : ∃ m₁, h₁.toBPTree.Holds m₁ := by
      cases hres with
      | added _ _ _ holds => exact ⟨_, holds⟩
      | duplicate _ _ _ holds => exact ⟨_, holds⟩
      | refused _ _ _ holds => exact ⟨_, holds⟩
      | truncated _ _ _ _ holds => exact ⟨_, holds⟩
    obtain ⟨h', oks, m', hrun', hm'⟩ := ih hm₁
    exact ⟨h', ok :: oks, m', bind_eq_of_eq_some hrun (bind_eq_of_eq_some hrun' rfl), hm'⟩

/-! ### With memory for every node -/

/-- One insertion with enough memory. -/
theorem bptreeInsert_of_memory {h : BPHeap ρ} {m : List (ℤ × Option ρ)} (hm : h.toBPTree.Holds m)
    (hallocs : h.allocs = []) (x : ℤ × Option ρ) :
    ∃ h', bptreeInsert h x.1 x.2 = some (h', decide (x.1 ∉ SortedAssoc.keys m)) ∧
      h'.allocs = [] ∧ h'.toBPTree.Holds (insertNew x m) := by
  obtain ⟨res, hrun, hres⟩ := bptreeInsert_spec hm x
  rw [insertNew]
  cases hres with
  | @added h' fresh _ allocs holds =>
    refine ⟨h', by rw [hrun, decide_eq_true fresh], by rw [allocs, hallocs, List.drop_nil], ?_⟩
    rwa [if_neg fresh]
  | @duplicate h' mem _ allocs holds =>
    refine ⟨h', by rw [hrun, decide_eq_false (not_not.mpr mem)], by rw [allocs, hallocs], ?_⟩
    rwa [if_pos mem]
  | refused _ refused => simp [hallocs] at refused
  | truncated _ _ refused => simp [hallocs] at refused

/-- A sequence of insertions with enough memory, from any index. -/
theorem bptreeInsertAll_of_memory (xs : List (ℤ × Option ρ)) {h : BPHeap ρ}
    {m : List (ℤ × Option ρ)} (hm : h.toBPTree.Holds m) (hallocs : h.allocs = []) :
    ∃ h' oks, bptreeInsertAll h xs = some (h', oks) ∧
      h'.toBPTree.Holds (xs.foldl (fun m x => insertNew x m) m) ∧ oks.length = xs.length ∧
      ∀ i x, xs[i]? = some x → oks[i]? = some
        (decide (x.1 ∉ SortedAssoc.keys ((xs.take i).foldl (fun m x => insertNew x m) m))) := by
  induction xs generalizing h m with
  | nil => exact ⟨h, [], rfl, hm, rfl, by simp⟩
  | cons x xs ih =>
    obtain ⟨h₁, hrun, hallocs₁, hm₁⟩ := bptreeInsert_of_memory hm hallocs x
    obtain ⟨h', oks, hrun', hm', hlen, hoks⟩ := ih hm₁ hallocs₁
    refine ⟨h', _ :: oks, bind_eq_of_eq_some hrun (bind_eq_of_eq_some hrun' rfl), hm',
      by rw [List.length_cons, List.length_cons, hlen], fun i y hy => ?_⟩
    cases i with
    | zero =>
      cases hy
      rfl
    | succ i => exact hoks i y hy

/-- **The index is a first-wins finite map**: with memory for every node, a call of `bptree_insert`
answers 1 exactly when its key was not inserted before, and afterwards `bptree_search` returns the
value of the first insertion of a key, or `NULL` when there was none. -/
theorem bptree_first_wins (xs : List (ℤ × Option ρ)) :
    ∃ h oks, bptreeInsertAll (bptreeStart ρ []) xs = some (h, oks) ∧ oks.length = xs.length ∧
      (∀ i x, xs[i]? = some x →
        oks[i]? = some (decide (x.1 ∉ SortedAssoc.keys (xs.take i)))) ∧
      ∀ key, bptreeSearch h.toBPTree key = some (xs.lookup key).join := by
  obtain ⟨h, oks, hrun, hm, hlen, hoks⟩ :=
    bptreeInsertAll_of_memory xs (h := bptreeStart ρ []) bptreeCreate_holds rfl
  refine ⟨h, oks, hrun, hlen, fun i x hx => ?_, fun key => ?_⟩
  · rw [hoks i x hx]
    simp only [mem_keys_foldl_insertNew, SortedAssoc.keys, List.map_nil, List.not_mem_nil, false_or]
  · rw [bptreeSearch_eq hm, lookup_foldl_insertNew, List.lookup_nil, Option.none_or]

/-! ### Without memory -/

/-- The index answers every search as before, and holds the same keys. -/
def BPTree.Unchanged (t t' : BPTree ρ) : Prop :=
  ∀ key, bptreeSearch t' key = bptreeSearch t key ∧ bptreeContains t' key = bptreeContains t key

theorem BPTree.Holds.unchanged {t t' : BPTree ρ} {m : List (ℤ × Option ρ)} (h : t.Holds m)
    (h' : t'.Holds m) : t.Unchanged t' := fun key =>
  ⟨(bptreeSearch_eq h' key).trans (bptreeSearch_eq h key).symm,
    (bptreeContains_eq h' key).trans (bptreeContains_eq h key).symm⟩

/-- When two neighbouring entries are lost, one of them was there before. -/
theorem exists_lost {m a lost b : List (ℤ × Option ρ)} {x : ℤ × Option ρ} (hsort : Sorted m)
    (hx : x.1 ∉ SortedAssoc.keys m) (heq : insertEntry x m = a ++ lost ++ b)
    (hlost : 2 ≤ lost.length) :
    ∃ key ∈ SortedAssoc.keys m, key ∉ SortedAssoc.keys (a ++ b) := by
  have hnd := (hsort.insertEntry hx).nodup_keys
  rw [heq, SortedAssoc.keys, List.map_append, List.map_append, List.append_assoc] at hnd
  obtain ⟨-, hndlb, hcross⟩ := List.nodup_append.mp hnd
  obtain ⟨hndl, -, hcross'⟩ := List.nodup_append.mp hndlb
  -- at most one of the lost entries is the new one
  obtain ⟨e, he, hne⟩ : ∃ e ∈ lost, e.1 ≠ x.1 := by
    obtain _ | ⟨e, _ | ⟨e', rest⟩⟩ := lost
    · simp at hlost
    · simp at hlost
    · by_cases h0 : e.1 = x.1
      · refine ⟨e', by simp, fun h1 => ?_⟩
        simp only [List.map_cons, List.nodup_cons, List.mem_cons, not_or] at hndl
        exact hndl.1.1 (h0.trans h1.symm)
      · exact ⟨e, by simp, h0⟩
  have hkl : e.1 ∈ lost.map Prod.fst := List.mem_map_of_mem he
  refine ⟨e.1, ?_, fun hmem => ?_⟩
  · have : e.1 ∈ SortedAssoc.keys (insertEntry x m) := by
      rw [heq, SortedAssoc.keys, List.map_append, List.map_append]
      exact List.mem_append_left _ (List.mem_append_right _ hkl)
    exact (mem_keys_insertEntry.mp this).resolve_left hne
  · rw [SortedAssoc.keys, List.map_append] at hmem
    rcases List.mem_append.mp hmem with hmem | hmem
    · exact hcross _ hmem _ (List.mem_append_left _ hkl) rfl
    · exact hcross' _ hkl _ hmem rfl

/-- The allocations a call meets: the first fails, or none that it needs does. -/
def FirstFailsOrNone (h : BPHeap ρ) (key : ℤ) : Prop :=
  h.allocs.headD true = false ∨
    ∀ i < bptreeNodesNeeded h.toBPTree key, h.allocs.getD i true = true

/-- **Failed insertions**: in an index reached by any calls with any allocation failures, a call
that answers 0 leaves the index as it was, if and only if its first allocation fails or none of
those it needs does. -/
theorem bptreeInsert_atomic_iff (allocs : List Bool) (xs : List (ℤ × Option ρ)) :
    ∃ h oks, bptreeInsertAll (bptreeStart ρ allocs) xs = some (h, oks) ∧
      ∀ key value, ∃ h' ok, bptreeInsert h key value = some (h', ok) ∧
        ((ok = false → h.toBPTree.Unchanged h'.toBPTree) ↔ FirstFailsOrNone h key) := by
  obtain ⟨h, oks, m, hrun, hm⟩ :=
    bptreeInsertAll_holds xs (h := bptreeStart ρ allocs) bptreeCreate_holds
  refine ⟨h, oks, hrun, fun key value => ?_⟩
  obtain ⟨⟨h', ok⟩, hins, hres⟩ := bptreeInsert_spec hm (key, value)
  refine ⟨h', ok, hins, ?_⟩
  cases hres with
  | added _ granted => exact ⟨fun _ => .inr granted, fun _ h0 => by cases h0⟩
  | duplicate _ needed_eq _ holds =>
    exact ⟨fun _ => .inr fun i hi => by rw [needed_eq] at hi; omega, fun _ _ => hm.unchanged holds⟩
  | refused _ refused _ holds =>
    exact ⟨fun _ => .inl (by simpa using refused), fun _ _ => hm.unchanged holds⟩
  | truncated fresh granted refused insert_eq holds two_le lt =>
    obtain ⟨i, hi, hgi⟩ := refused
    refine ⟨fun hun => ?_, fun hcond => ?_⟩
    · obtain ⟨k, hk, hk'⟩ := exists_lost hm.sorted fresh insert_eq two_le
      have hc := (hun rfl k).2
      rw [bptreeContains_eq holds, bptreeContains_eq hm, decide_eq_true hk, decide_eq_false hk']
        at hc
      cases hc
    · rcases hcond with h0 | hall
      · rw [granted] at h0
        cases h0
      · exact absurd (hall i hi) hgi

/-- The fourth key cuts the only leaf in two; without memory for a new root the right half is lost,
with the key 3 in it. -/
theorem bptreeInsert_loses_key :
    (do
      let (h, oks) ← bptreeInsertAll (bptreeStart Char [true, true, false])
        [(1, some 'a'), (2, some 'b'), (3, some 'c')]
      let (h', ok) ← bptreeInsert h 4 (some 'd')
      some (oks, ok, ← bptreeSearch h.toBPTree 3, ← bptreeSearch h'.toBPTree 3)) =
      some ([true, true, true], false, some 'c', none) := by
  decide +kernel

end MiniDbms
