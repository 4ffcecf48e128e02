import MiniDbms.BPTree.Basic
import MiniDbms.Lib.BPlusTree.Root

/-!
# Single nodes of the index

`BPTreeNode.IsLeafOf` and `BPTreeNode.IsBranchOf` say which entries, or separators and children, a
node record holds.  The operations on one record are `SortedAssoc.insertEntry` and
`List.insertIdx` on what it holds: `bptreeInsertIntoLeaf_spec`, `bptreeMergeLeaf_spec`,
`bptreeMergeInternal_spec` and `putEntries_spec`.  In each case the checked code returns `some`: it
stays inside its arrays.
-/

namespace MiniDbms

open SortedAssoc CArray

variable {ρ : Type}

/-- The record of a leaf with these entries. -/
structure BPTreeNode.IsLeafOf (node : BPTreeNode ρ) (es : List (ℤ × Option ρ))
    (parent : Option NodeRef) : Prop where
  isLeaf : node.isLeaf = true
  numKeys : node.numKeys = es.length
  keys : node.keys.Holds (SortedAssoc.keys es)
  values : node.values.Holds (es.map Prod.snd)
  parent : node.parent = parent

/-- The record of an inner node with these separators and children. -/
structure BPTreeNode.IsBranchOf (node : BPTreeNode ρ) (ks : List ℤ) (cs : List NodeRef)
    (parent : Option NodeRef) : Prop where
  isLeaf : node.isLeaf = false
  numKeys : node.numKeys = ks.length
  keys : node.keys.Holds ks
  children : node.children.Holds (cs.map some)
  parent : node.parent = parent

/-! ### Scans -/

theorem scan_read {n : ℕ} {a : CArray ℤ n} {ks : List ℤ} (h : a.Holds ks) (p : ℤ → Bool) :
    scanUp (fun index => (a.read index).map p) 0 ks.length =
      some (ks.takeWhile p).length := by
  rw [scanUp_eq p ks 0 fun i x hx => ?_, Nat.zero_add]
  rw [Nat.zero_add, h i x hx, Option.map_some]

theorem bptreeFindInsertIndex_eq {n : ℕ} {a : CArray ℤ n} {ks : List ℤ} (h : a.Holds ks)
    (key : ℤ) : bptreeFindInsertIndex a ks.length key = some (ks.takeWhile (· < key)).length :=
  scan_read h _

/-- A scan for a key ends before the end exactly when the key is there. -/
theorem length_takeWhile_ne_lt_iff {ks : List ℤ} {key : ℤ} :
    (ks.takeWhile (· ≠ key)).length < ks.length ↔ key ∈ ks := by
  induction ks with
  | nil => simp
  | cons k ks ih =>
    rw [List.takeWhile_cons]
    by_cases hk : k = key
    · simp [hk]
    · have hk' : key ≠ k := fun h => hk h.symm
      simpa [hk, hk'] using ih

/-- What the scan of a leaf finds is what its entries look up. -/
theorem lookup_eq_getElem? {es : List (ℤ × Option ρ)} (key : ℤ) :
    es.lookup key = (es.map Prod.snd)[((SortedAssoc.keys es).takeWhile (· ≠ key)).length]? := by
  induction es with
  | nil => rfl
  | cons e es ih =>
    rw [lookup_cons, SortedAssoc.keys, List.map_cons, List.map_cons, List.takeWhile_cons]
    by_cases hk : e.1 = key
    · simp [hk]
    · have hk' : key ≠ e.1 := fun h => hk h.symm
      simpa [hk, hk'] using ih

/-! ### Leaves -/

/-- Where a key goes in a leaf. -/
theorem BPTreeNode.IsLeafOf.bptreeFindInsertIndex {node : BPTreeNode ρ} {es : List (ℤ × Option ρ)}
    {parent : Option NodeRef} (h : node.IsLeafOf es parent) (key : ℤ) :
    bptreeFindInsertIndex node.keys node.numKeys key =
      some ((SortedAssoc.keys es).takeWhile (· < key)).length := by
  rw [h.numKeys, ← (List.length_map Prod.fst : (SortedAssoc.keys es).length = es.length)]
  exact bptreeFindInsertIndex_eq h.keys key

/-- Insertion into a leaf that is not full. -/
theorem bptreeInsertIntoLeaf_spec {node : BPTreeNode ρ} {es : List (ℤ × Option ρ)}
    {parent : Option NodeRef} (h : node.IsLeafOf es parent) (hroom : es.length < bptreeMaxKeys)
    (key : ℤ) (value : Option ρ) :
    ∃ node', bptreeInsertIntoLeaf node key value = some node' ∧
      node'.IsLeafOf (insertEntry (key, value) es) parent ∧ node'.next = node.next := by
  have hk := h.keys
  have hv := h.values
  have hlk : (SortedAssoc.keys es).length = es.length := List.length_map _
  have hlv : (es.map Prod.snd).length = es.length := List.length_map _
  have hpos := (List.takeWhile_sublist (· < key) (l := SortedAssoc.keys es)).length_le
  obtain ⟨keys, keys', hks, hkw, hkh⟩ := shiftInsert_holds hk (by omega) hpos key
  obtain ⟨values, values', hvs, hvw, hvh⟩ :=
    shiftInsert_holds hv (by omega) (show ((SortedAssoc.keys es).takeWhile (· < key)).length ≤
      (es.map Prod.snd).length by omega) value
  rw [hlk] at hks
  rw [hlv] at hvs
  have hfind := h.bptreeFindInsertIndex key
  have hloop := forDown_prod hks hvs
  rw [← h.numKeys] at hloop
  refine ⟨{ node with keys := keys', values := values', numKeys := node.numKeys + 1 }, ?_,
    ⟨h.isLeaf, ?_, ?_, ?_, h.parent⟩, rfl⟩
  · unfold bptreeInsertIntoLeaf
    simp only [hfind, Option.bind_eq_bind, Option.bind_some]
    rw [hloop]
    simp only [Option.bind_some, hkw, hvw]
  · simp [h.numKeys]
  · simpa [insertEntry_eq_insertIdx, SortedAssoc.keys, List.map_insertIdx] using hkh
  · simpa [insertEntry_eq_insertIdx, List.map_insertIdx] using hvh

/-- The temporary arrays hold the first entries of `es`, up to the current index. -/
structure MergeState.Holds (s : MergeState ρ) (es : List (ℤ × Option ρ)) (j : ℕ) : Prop where
  tempIndex : s.tempIndex = j
  keys : s.tempKeys.Holds ((SortedAssoc.keys es).take j)
  values : s.tempValues.Holds ((es.map Prod.snd).take j)

/-- Writing the next entry. -/
theorem MergeState.Holds.put {s : MergeState ρ} {es : List (ℤ × Option ρ)} {j : ℕ}
    (h : s.Holds es j) {x : ℤ × Option ρ} (hx : es[j]? = some x) (hlen : es.length ≤ bptreeOrder) :
    ∃ s', s.put x.1 x.2 = some s' ∧ s'.advance.Holds es (j + 1) := by
  obtain ⟨ks, hkw, hkh⟩ := h.keys.write_next (x := x.1)
    (by rw [SortedAssoc.keys, List.getElem?_map, hx, Option.map_some])
    (by rw [SortedAssoc.keys, List.length_map]; exact hlen)
  obtain ⟨vs, hvw, hvh⟩ := h.values.write_next (x := x.2)
    (by rw [List.getElem?_map, hx, Option.map_some]) (by rw [List.length_map]; exact hlen)
  refine ⟨⟨ks, vs, s.tempIndex⟩, ?_, ⟨?_, hkh, hvh⟩⟩
  · simp [MergeState.put, h.tempIndex, hkw, hvw]
  · simp [MergeState.advance, h.tempIndex]

/-- The merge loop puts the new entry at its place. -/
theorem bptreeMergeLeaf_spec {node : BPTreeNode ρ} {es : List (ℤ × Option ρ)}
    {parent : Option NodeRef} (h : node.IsLeafOf es parent) (hlen : es.length < bptreeOrder)
    {pos : ℕ} (hpos : pos ≤ es.length) (x : ℤ × Option ρ) :
    ∃ s, bptreeMergeLeaf node pos x.1 x.2 = some s ∧
      s.tempKeys.Holds (SortedAssoc.keys (es.insertIdx pos x)) ∧
      s.tempValues.Holds ((es.insertIdx pos x).map Prod.snd) := by
  have hlen' : (es.insertIdx pos x).length = es.length + 1 :=
    List.length_insertIdx_of_le_length hpos x
  have hself : (es.insertIdx pos x)[pos]? = some x := by
    rw [List.getElem?_insertIdx_self, if_pos hpos]
  -- after `i` rounds the arrays hold the entries up to `i`, or `i + 1` once the new one is in
  obtain ⟨s, hrun, hs⟩ := forUp_spec (bptreeMergeLeafStep node pos x.1 x.2)
    (fun i (s : MergeState ρ) => s.Holds (es.insertIdx pos x) (if i ≤ pos then i else i + 1))
    0 es.length
    (s := ⟨.uninit _ _, .uninit _ _, 0⟩)
    ⟨by simp, by simpa using holds_nil _, by simpa using holds_nil _⟩
    (fun i s _ hi hs => by
      have hk : node.keys.read i = some es[i].1 := by
        refine h.keys i _ ?_
        rw [SortedAssoc.keys, List.getElem?_map, List.getElem?_eq_getElem (by omega),
          Option.map_some]
      have hv : node.values.read i = some es[i].2 := by
        refine h.values i _ ?_
        rw [List.getElem?_map, List.getElem?_eq_getElem (by omega), Option.map_some]
      unfold bptreeMergeLeafStep
      rcases lt_trichotomy i pos with hlt | rfl | hgt
      · rw [if_pos hlt.le] at hs
        rw [if_pos (by omega : i + 1 ≤ pos)]
        obtain ⟨s', hput, hs'⟩ := hs.put (x := es[i])
          (by rw [List.getElem?_insertIdx_of_lt hlt, List.getElem?_eq_getElem (by omega)])
          (by omega)
        refine ⟨_, ?_, hs'⟩
        rw [hs.tempIndex, if_neg (by omega)]
        simp [hk, hv, hput]
      · rw [if_pos le_rfl] at hs
        rw [if_neg (by omega : ¬ i + 1 ≤ i)]
        obtain ⟨s₁, hput₁, hs₁⟩ := hs.put hself (by omega)
        obtain ⟨s', hput, hs'⟩ := hs₁.put (x := es[i])
          (by rw [List.getElem?_insertIdx_of_gt (by omega), Nat.add_sub_cancel,
            List.getElem?_eq_getElem (by omega)]) (by omega)
        refine ⟨_, ?_, hs'⟩
        rw [hs.tempIndex, if_pos rfl, hput₁]
        simp [hk, hv, hput]
      · rw [if_neg (by omega : ¬ i ≤ pos)] at hs
        rw [if_neg (by omega : ¬ i + 1 ≤ pos)]
        obtain ⟨s', hput, hs'⟩ := hs.put (x := es[i])
          (by rw [List.getElem?_insertIdx_of_gt (by omega), Nat.add_sub_cancel,
            List.getElem?_eq_getElem (by omega)]) (by omega)
        refine ⟨_, ?_, hs'⟩
        rw [hs.tempIndex, if_neg (by omega)]
        simp [hk, hv, hput])
  unfold bptreeMergeLeaf
  rw [h.numKeys, hrun, Option.bind_eq_bind, Option.bind_some, hs.tempIndex]
  rcases Nat.lt_or_ge pos es.length with hlt | hge
  · rw [Nat.zero_add, if_neg (by omega)] at hs
    rw [Nat.zero_add, if_neg (by omega : ¬ es.length ≤ pos), if_neg (by omega)]
    refine ⟨s, rfl, ?_, ?_⟩
    · have := hs.keys
      rwa [← hlen', ← List.length_map (f := Prod.fst), List.take_length] at this
    · have := hs.values
      rwa [← hlen', ← List.length_map (f := Prod.snd), List.take_length] at this
  · obtain rfl : pos = es.length := by omega
    rw [Nat.zero_add, if_pos le_rfl] at hs
    obtain ⟨s', hput, hs'⟩ := hs.put hself (by omega)
    refine ⟨s', by rw [Nat.zero_add, if_pos le_rfl, if_pos rfl, hput], ?_, ?_⟩
    · have := hs'.keys
      rwa [← hlen', ← List.length_map (f := Prod.fst), List.take_length] at this
    · have := hs'.values
      rwa [← hlen', ← List.length_map (f := Prod.snd), List.take_length] at this

/-- Writing one entry behind those a leaf holds. -/
theorem BPTreeNode.IsLeafOf.putEntry {node : BPTreeNode ρ} {es : List (ℤ × Option ρ)}
    {parent : Option NodeRef} (h : node.IsLeafOf es parent) (hroom : es.length < bptreeMaxKeys)
    (x : ℤ × Option ρ) :
    ∃ node', node.putEntry es.length x.1 x.2 = some node' ∧ node'.IsLeafOf (es ++ [x]) parent ∧
      node'.next = node.next := by
  obtain ⟨keys, hkw, hkh⟩ := h.keys.write_end x.1 (by simpa [SortedAssoc.keys] using hroom)
  obtain ⟨values, hvw, hvh⟩ := h.values.write_end x.2 (by simpa using hroom)
  rw [SortedAssoc.keys, List.length_map] at hkw
  rw [List.length_map] at hvw
  refine ⟨{ node with keys := keys, values := values, numKeys := node.numKeys + 1 }, ?_,
    ⟨h.isLeaf, ?_, ?_, ?_, h.parent⟩, rfl⟩
  · simp [BPTreeNode.putEntry, hkw, hvw]
  · simp [h.numKeys]
  · simpa [SortedAssoc.keys] using hkh
  · simpa using hvh

/-- A loop that fills an empty leaf with a segment of the temporary arrays. -/
theorem putEntries_spec {keys : CArray ℤ bptreeOrder} {values : CArray (Option ρ) bptreeOrder}
    {es : List (ℤ × Option ρ)} (hk : keys.Holds (SortedAssoc.keys es))
    (hv : values.Holds (es.map Prod.snd)) (lo count : ℕ) (hlen : lo + count ≤ es.length)
    (hcount : count ≤ bptreeMaxKeys) (slot : ℕ → BPTreeNode ρ → ℕ)
    (hslot : ∀ i node, node.numKeys = i - lo → slot i node = i - lo) (node : BPTreeNode ρ)
    {parent : Option NodeRef} (h : node.IsLeafOf [] parent) :
    ∃ node', forUp (fun index (node : BPTreeNode ρ) => do
        node.putEntry (slot index node) (← keys.read index) (← values.read index)) lo count node =
        some node' ∧
      node'.IsLeafOf ((es.drop lo).take count) parent ∧ node'.next = node.next := by
  -- after the rounds below `i` the leaf holds the segment up to `i`
  obtain ⟨node', hrun, hleaf, hnext⟩ := forUp_spec
    (fun index (node : BPTreeNode ρ) => do
      node.putEntry (slot index node) (← keys.read index) (← values.read index))
    (fun i (nd : BPTreeNode ρ) => nd.IsLeafOf ((es.drop lo).take (i - lo)) parent ∧
      nd.next = node.next)
    lo count (s := node) ⟨by simpa using h, rfl⟩
    (fun i nd hlo hhi hnd => by
      obtain ⟨hleaf, hnext⟩ := hnd
      have hi : i < es.length := by omega
      have hlen' : ((es.drop lo).take (i - lo)).length = i - lo := by
        rw [List.length_take, List.length_drop]
        omega
      have hkr : keys.read i = some es[i].1 := by
        refine hk i _ ?_
        rw [SortedAssoc.keys, List.getElem?_map, List.getElem?_eq_getElem hi, Option.map_some]
      have hvr : values.read i = some es[i].2 := by
        refine hv i _ ?_
        rw [List.getElem?_map, List.getElem?_eq_getElem hi, Option.map_some]
      obtain ⟨nd', hput, hleaf', hnext'⟩ := hleaf.putEntry (by omega) es[i]
      rw [hlen'] at hput
      have hs : slot i nd = i - lo := hslot i nd (by rw [hleaf.numKeys, hlen'])
      refine ⟨nd', by simp [hkr, hvr, hs, hput], ?_, hnext'.trans hnext⟩
      rw [show i + 1 - lo = i - lo + 1 by omega, List.take_add_one, List.getElem?_drop,
        show lo + (i - lo) = i by omega, List.getElem?_eq_getElem hi]
      exact hleaf')
  refine ⟨node', hrun, ?_, hnext⟩
  rwa [Nat.add_sub_cancel_left] at hleaf

/-! ### Inner nodes -/

/-- The temporary arrays of an inner split. -/
theorem bptreeMergeInternal_spec {node : BPTreeNode ρ} {ks : List ℤ} {cs : List NodeRef}
    {parent : Option NodeRef} (h : node.IsBranchOf ks cs parent) (hks : ks.length < bptreeOrder)
    (hcs : cs.length = ks.length + 1) {i : ℕ} (hi : i ≤ ks.length) (key : ℤ) (right : NodeRef) :
    ∃ keys children, bptreeMergeInternal node i key right = some (keys, children) ∧
      keys.Holds (ks.insertIdx i key) ∧
      children.Holds ((cs.insertIdx (i + 1) right).map some) := by
  have hlc : (cs.map some).length = ks.length + 1 := by rw [List.length_map, hcs]
  obtain ⟨keys₀, hcopyk, hk₀⟩ := forUp_copy h.keys (n := bptreeOrder) hks.le (.uninit _ _)
  obtain ⟨children₀, hcopyc, hc₀⟩ := forUp_copy h.children (n := bptreeOrder + 1)
    (by omega) (.uninit _ _)
  obtain ⟨keys₁, keys, hshiftk, hwritek, hk⟩ := shiftInsert_holds hk₀ hks hi key
  obtain ⟨children₁, children, hshiftc, hwritec, hc⟩ := shiftInsert_holds hc₀ (by omega)
    (show i + 1 ≤ (cs.map some).length by omega) (some right)
  rw [hlc] at hcopyc hshiftc
  refine ⟨keys, children, ?_, hk, ?_⟩
  · unfold bptreeMergeInternal
    simp only [h.numKeys, Option.bind_eq_bind]
    rw [hcopyk, Option.bind_some, hcopyc, Option.bind_some, hshiftk, Option.bind_some, hwritek,
      Option.bind_some, hshiftc, Option.bind_some, hwritec, Option.bind_some]
  · rwa [List.map_insertIdx]

end MiniDbms
