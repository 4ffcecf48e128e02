import MiniDbms.BPTree.Equiv.Next
import MiniDbms.BPTree.Equiv.Shape

/-!
# The leaf chain of the index

`BPTree.Path t start ps stop` says that following `next` from `start` visits the nodes `ps` and
arrives at `stop`.  The leaves of the tree that the index is laid out as form such a path, from the
first one to `NULL`, in their order from left to right, before and after every insertion
(`BPTree.Lays.insert_chained`).  What is met along the chain is therefore what the tree lists:
`bptree_chain`.
-/

namespace MiniDbms

open SortedAssoc CArray BPlus

variable {ρ : Type}

/-! ### Paths along the chain -/

/-- Following `next` from `start` visits the nodes `ps` and arrives at `stop`. -/
def BPTree.Path (t : BPTree ρ) : Option NodeRef → List NodeRef → Option NodeRef → Prop
  | start, [], stop => start = stop
  | start, p :: ps, stop => start = some p ∧ ∃ next, (t.load p).map (·.next) = some next ∧
      t.Path next ps stop

namespace BPTree.Path

variable {t : BPTree ρ} {start stop : Option NodeRef} {ps : List NodeRef}

theorem append_iff {qs : List NodeRef} :
    t.Path start (ps ++ qs) stop ↔ ∃ mid, t.Path start ps mid ∧ t.Path mid qs stop := by
  induction ps generalizing start with
  | nil => simp [Path]
  | cons p ps ih =>
    simp only [List.cons_append, Path, ih]
    constructor
    · rintro ⟨rfl, next, hl, mid, h, h'⟩
      exact ⟨mid, ⟨rfl, next, hl, h⟩, h'⟩
    · rintro ⟨mid, ⟨rfl, next, hl, h⟩, h'⟩
      exact ⟨rfl, next, hl, mid, h, h'⟩

/-- A path depends on the `next` fields of its nodes only. -/
theorem congr {t' : BPTree ρ} (h : t.Path start ps stop)
    (heq : ∀ p ∈ ps, (t'.load p).map (·.next) = (t.load p).map (·.next)) :
    t'.Path start ps stop := by
  induction ps generalizing start with
  | nil => exact h
  | cons p ps ih =>
    obtain ⟨rfl, next, hl, hps⟩ := h
    exact ⟨rfl, next, (heq p List.mem_cons_self).trans hl,
      ih hps fun q hq => heq q (List.mem_cons_of_mem p hq)⟩

/-- A path to `NULL` is what the chain visits. -/
theorem nextChain (h : t.Path start ps none) : t.NextChain start ps := by
  induction ps generalizing start with
  | nil =>
    obtain rfl : start = none := h
    exact .nil
  | cons p ps ih =>
    obtain ⟨rfl, next, hl, hps⟩ := h
    obtain ⟨node, hload, rfl⟩ := Option.map_eq_some_iff.mp hl
    exact .cons hload (ih hps)

/-- The nodes of a path are there. -/
theorem exists_load (h : t.Path start ps stop) {p : NodeRef} (hp : p ∈ ps) :
    ∃ node, t.load p = some node := by
  induction ps generalizing start with
  | nil => cases hp
  | cons q ps ih =>
    obtain ⟨-, next, hl, hps⟩ := h
    rcases List.mem_cons.mp hp with rfl | hp
    · obtain ⟨node, hl, -⟩ := Option.map_eq_some_iff.mp hl
      exact ⟨node, hl⟩
    · exact ih hps hp

end BPTree.Path

theorem BPHeap.getElem?_nexts (h : BPHeap ρ) (p : NodeRef) :
    h.nexts[p]? = (h.load p).map (·.next) := List.getElem?_map

/-- A path whose `next` fields were all kept. -/
theorem BPTree.Path.of_nexts_eq {h h' : BPHeap ρ} {start stop : Option NodeRef} {ps : List NodeRef}
    (hp : h.toBPTree.Path start ps stop) (heq : h'.nexts = h.nexts) :
    h'.toBPTree.Path start ps stop := by
  refine hp.congr fun p _ => ?_
  rw [← BPHeap.getElem?_nexts, heq, BPHeap.getElem?_nexts]

/-- A path when a new node was put behind one of its nodes. -/
theorem BPTree.Path.extend {h h' : BPHeap ρ} {start : Option NodeRef} {q : NodeRef}
    {node : BPTreeNode ρ} {A C : List NodeRef} (hp : h.toBPTree.Path start (A ++ q :: C) none)
    (hnd : (A ++ q :: C).Nodup) (hq : h.load q = some node)
    (hnext : h.nexts.set q (some h.nodes.length) ++ [node.next] <+: h'.nexts) :
    h'.toBPTree.Path start (A ++ q :: h.nodes.length :: C) none := by
  obtain ⟨rest, hrest⟩ := hnext
  have hlen : h.nexts.length = h.nodes.length := List.length_map _
  have hlt : q < h.nexts.length := hlen ▸ BPHeap.lt_of_load hq
  have hold : ∀ p, p ≠ q → (∃ nd, h.load p = some nd) →
      (h'.load p).map (·.next) = (h.load p).map (·.next) := by
    rintro p hpq ⟨nd, hl⟩
    have hp' : p < h.nexts.length := hlen ▸ BPHeap.lt_of_load hl
    rw [← BPHeap.getElem?_nexts, ← hrest, List.append_assoc,
      List.getElem?_append_left (by rwa [List.length_set]), List.getElem?_set_ne (Ne.symm hpq),
      BPHeap.getElem?_nexts]
  have hself : (h'.load q).map (·.next) = some (some h.nodes.length) := by
    rw [← BPHeap.getElem?_nexts, ← hrest, List.append_assoc,
      List.getElem?_append_left (by rwa [List.length_set]), List.getElem?_set_self hlt]
  have hnew : (h'.load h.nodes.length).map (·.next) = some node.next := by
    rw [← BPHeap.getElem?_nexts, ← hrest, List.append_assoc,
      List.getElem?_append_right (by rw [List.length_set, hlen]), List.length_set, hlen,
      Nat.sub_self, List.singleton_append, List.getElem?_cons_zero]
  obtain ⟨mid, hA, rfl, next, hl, hC⟩ := append_iff.mp hp
  rw [hq, Option.map_some] at hl
  cases hl
  obtain ⟨-, hndC, hcross⟩ := List.nodup_append.mp hnd
  refine append_iff.mpr ⟨some q, hA.congr fun p hpA => ?_, rfl, _, hself, rfl, _, hnew,
    hC.congr fun p hpC => ?_⟩
  · exact hold p (hcross p hpA q List.mem_cons_self) (hA.exists_load hpA)
  · exact hold p (fun h0 => (List.nodup_cons.mp hndC).1 (h0 ▸ hpC)) (hC.exists_load hpC)

/-! ### The leaves of the tree -/

/-- The index is laid out as `tree`, and its leaves are chained. -/
structure BPTree.Chained (t : BPTree ρ) (tree : AnyTree ℤ (Option ρ)) : Prop where
  lays : t.Lays tree
  path : t.Path tree.2.leafLabels.head? tree.2.leafLabels none

theorem head?_append_cons {A C : List NodeRef} {q r : NodeRef} :
    (A ++ q :: r :: C).head? = (A ++ q :: C).head? := by
  cases A <;> rfl

/-- The leaf that a key is routed to is the one that the code finds. -/
theorem find_leafOf (key : ℤ) {t : BPTree ρ} : {n : ℕ} → {tree : Tree ℤ (Option ρ) n} →
    {parent : Option NodeRef} → Repr t tree parent → tree.Separated → Sorted tree.toList → ∀ e,
    bptreeFindLeafFrom t key (n + 1 + e) tree.label = tree.leafOf key
  | 0, l, parent, hr, _, _, e => by
    rw [Nat.zero_add, Nat.add_comm]
    exact bptreeFindLeafFrom_leaf hr key e
  | n + 1, b, parent, hr, hsep, hsort, e => by
    obtain ⟨A, c, C, hrt⟩ := Tree.exists_routed hsep hsort key
    rw [Tree.leafOf, hrt.getElem?, Option.bind_some, ← find_leafOf key
      ((repr_branch.mp hr).2 c hrt.mem) (hsep.2.2 c hrt.mem) (hrt.sorted hsort) e,
      show n + 1 + 1 + e = (n + 1 + e) + 1 by omega]
    exact bptreeFindLeafFrom_branch (h := ⟨t, []⟩) (x := (key, none)) hr hrt (n + 1 + e)

/-- What an insertion into an index with entries does to the `next` pointers. -/
theorem BPTree.Lays.insert_nexts {h h' : BPHeap ρ} {tree : AnyTree ℤ (Option ρ)}
    (hlays : h.toBPTree.Lays tree) {key : ℤ} {value : Option ρ} {ok : Bool}
    (hrun : bptreeInsert h key value = some (h', ok)) :
    ∃ leaf, tree.2.leafOf key = some leaf ∧ NextsAfter h h' leaf := by
  unfold bptreeInsert at hrun
  rw [show h.root = some tree.2.label from hlays.root] at hrun
  obtain ⟨leaf, hfind, hrun⟩ := Option.bind_eq_some_iff.mp hrun
  have hlt := hlays.height_lt
  have hleaf := find_leafOf key hlays.repr hlays.wf.separated hlays.wf.sorted
    (h.nodes.length - tree.1)
  rw [show tree.1 + 1 + (h.nodes.length - tree.1) = h.nodes.length + 1 by omega, hfind] at hleaf
  exact ⟨leaf, hleaf.symm, bptreeInsertAt_nexts hrun⟩

/-- The supply of nodes tells whether `next` pointers were written. -/
theorem NextsAfter.cases {h h' : BPHeap ρ} {leaf : NodeRef} (hn : NextsAfter h h' leaf) :
    (h'.supply.fresh = h.supply.fresh → h'.nexts = h.nexts) ∧
    (h.supply.fresh < h'.supply.fresh → ∃ node, h.load leaf = some node ∧
      h.nexts.set leaf (some h.nodes.length) ++ [node.next] <+: h'.nexts) := by
  have hlen : h.nexts.length = h.supply.fresh := List.length_map _
  have hlen' : h'.nexts.length = h'.supply.fresh := List.length_map _
  rcases hn with heq | ⟨node, hl, hnext⟩
  · refine ⟨fun _ => heq, fun hlt => ?_⟩
    rw [← hlen, ← hlen', heq] at hlt
    exact absurd hlt (lt_irrefl _)
  · refine ⟨fun h0 => ?_, fun _ => ⟨node, hl, hnext⟩⟩
    have hle := hnext.length_le
    rw [List.length_append, List.length_set, hlen, hlen', h0, List.length_singleton] at hle
    omega

/-- **An insertion keeps the leaves chained.** -/
theorem BPTree.Chained.insert {h : BPHeap ρ} {tree : AnyTree ℤ (Option ρ)}
    (hch : h.toBPTree.Chained tree) (hallocs : h.allocs = []) (x : ℤ × Option ρ) :
    ∃ h' ok tree', bptreeInsert h x.1 x.2 = some (h', ok) ∧ h'.toBPTree.Chained tree' := by
  obtain ⟨h', hrun, hlays', hsupply⟩ := hch.lays.insert x
  refine ⟨h', _, _, hrun, hlays', ?_⟩
  obtain ⟨leaf, hleaf, hnexts⟩ := hch.lays.insert_nexts hrun
  obtain ⟨hkeep, hextend⟩ := hnexts.cases
  rw [hsupply] at hkeep hextend
  have hleaves := insertRoot_leafLabels hch.lays.wf x h.supply
  have hspec := insertRoot_spec (by decide) hch.lays.wf x h.supply
  generalize insertRoot bptreeOrder x tree h.supply = res at *
  cases hspec with
  | added =>
    rcases hleaves rfl with ⟨hfresh, heq⟩ | ⟨hfresh, q, A, C, hq, hls, hls'⟩
    · rw [heq]
      exact hch.path.of_nexts_eq (hkeep hfresh)
    · obtain ⟨node, hl, hnext⟩ := hextend hfresh
      obtain rfl : leaf = q := Option.some.inj (hleaf.symm.trans hq)
      have hpath := hch.path
      rw [hls] at hpath
      rw [hls', head?_append_cons]
      exact hpath.extend (hls ▸ hch.lays.nodup.sublist (Tree.leafLabels_sublist _)) hl hnext
  | duplicate => exact hch.path.of_nexts_eq (hkeep rfl)
  | refused _ hrefused => simp [Supply.Granted, BPHeap.supply, hallocs] at hrefused
  | truncated _ _ hrefused => simp [Supply.Granted, BPHeap.supply, hallocs] at hrefused

/-- The first insertion builds a leaf that points nowhere. -/
theorem bptreeInsert_first_next {h h' : BPHeap ρ} (hroot : h.root = none) {key : ℤ}
    {value : Option ρ} (hrun : bptreeInsert h key value = some (h', true)) :
    ∃ p, h'.root = some p ∧ (h'.load p).map (·.next) = some none := by
  unfold bptreeInsert at hrun
  rw [hroot] at hrun
  rcases hc : bptreeCreateNode h true with ⟨_ | p, h₁⟩ <;> simp only [hc] at hrun
  · cases hrun
  · obtain ⟨hp, hn₁⟩ := bptreeCreateNode_nexts hc
    obtain ⟨h₂, hmod, hrun⟩ := Option.bind_eq_some_iff.mp hrun
    cases hrun
    have hn₂ : h₂.nexts = h₁.nexts := BPHeap.nexts_modify_of_next (fun node node' hf => by
      simp only [Option.bind_eq_bind, Option.bind_eq_some_iff] at hf
      obtain ⟨_, _, _, _, hf⟩ := hf
      cases hf
      rfl) hmod
    refine ⟨p, rfl, ?_⟩
    show (h₂.load p).map (·.next) = some none
    have hlen : h.nexts.length = p := (List.length_map _).trans hp.symm
    rw [← BPHeap.getElem?_nexts, hn₂, hn₁, ← hlen, List.getElem?_concat_length]

/-- An empty index, or one with chained leaves. -/
inductive BPTree.Tidy (t : BPTree ρ) : Prop
  | empty (root : t.root = none) : Tidy t
  | tree {tree : AnyTree ℤ (Option ρ)} (chained : t.Chained tree) : Tidy t

/-- What one insertion preserves. -/
theorem BPTree.Tidy.insert {h : BPHeap ρ} (ht : h.toBPTree.Tidy) (hallocs : h.allocs = [])
    (x : ℤ × Option ρ) :
    ∃ h' ok, bptreeInsert h x.1 x.2 = some (h', ok) ∧ h'.toBPTree.Tidy ∧ h'.allocs = [] := by
  cases ht with
  | empty hroot =>
    obtain ⟨h', hrun, hallocs', hm⟩ := bptreeInsert_of_memory (.empty hroot) hallocs x
    obtain ⟨p, hroot', hnext⟩ := bptreeInsert_first_next hroot hrun
    refine ⟨h', _, hrun, ?_, hallocs'⟩
    -- the only leaf is the root
    have hone : ∀ m, h'.toBPTree.Holds m → m.length = 1 → h'.toBPTree.Tidy := fun m hm hlen => by
      cases hm with
      | empty hroot'' =>
        rw [hroot''] at hroot'
        cases hroot'
      | @tree tree lays =>
        have hheight := lays.wf.height_le_log (by decide)
        rw [hlen, Nat.log_one_right] at hheight
        obtain ⟨n, l⟩ := tree
        obtain rfl : n = 0 := Nat.le_zero.mp hheight
        have hp : p = Tree.label (n := 0) l := by
          have := lays.root
          rw [hroot'] at this
          exact Option.some.inj this
        subst hp
        exact .tree ⟨lays, rfl, none, hnext, rfl⟩
    exact hone _ hm rfl
  | tree hch =>
    obtain ⟨h', ok, tree', hrun, hch'⟩ := hch.insert hallocs x
    obtain ⟨h'', hrun', hallocs', -⟩ := bptreeInsert_of_memory (.tree hch.lays) hallocs x
    obtain rfl : h' = h'' := congrArg Prod.fst (Option.some.inj (hrun.symm.trans hrun'))
    exact ⟨h', ok, hrun, .tree hch', hallocs'⟩

/-- What any sequence of insertions preserves. -/
theorem BPTree.Tidy.insertAll (xs : List (ℤ × Option ρ)) {h : BPHeap ρ} (ht : h.toBPTree.Tidy)
    (hallocs : h.allocs = []) :
    ∃ h' oks, bptreeInsertAll h xs = some (h', oks) ∧ h'.toBPTree.Tidy := by
  induction xs generalizing h with
  | nil => exact ⟨h, [], rfl, ht⟩
  | cons x xs ih =>
    obtain ⟨h₁, ok, hrun, ht₁, hallocs₁⟩ := ht.insert hallocs x
    obtain ⟨h', oks, hrun', ht'⟩ := ih ht₁ hallocs₁
    exact ⟨h', ok :: oks, bind_eq_of_eq_some hrun (bind_eq_of_eq_some hrun' rfl), ht'⟩

/-! ### What the chain lists -/

/-- The entries of a leaf are read off its arrays. -/
theorem BPTreeNode.IsLeafOf.entriesUpTo {node : BPTreeNode ρ} {es : List (ℤ × Option ρ)}
    {parent : Option NodeRef} (h : node.IsLeafOf es parent) :
    node.entriesUpTo node.numKeys = some es := by
  have htake : ∀ i ≤ es.length, node.entriesUpTo i = some (es.take i) := fun i hi => by
    induction i with
    | zero => simp [BPTreeNode.entriesUpTo]
    | succ i ih =>
      have hk : node.keys.read i = some es[i].1 := by
        refine h.keys i _ ?_
        rw [SortedAssoc.keys, List.getElem?_map, List.getElem?_eq_getElem hi, Option.map_some]
      have hv : node.values.read i = some es[i].2 := by
        refine h.values i _ ?_
        rw [List.getElem?_map, List.getElem?_eq_getElem hi, Option.map_some]
      rw [BPTreeNode.entriesUpTo, ih (Nat.le_of_succ_le hi), hk, hv, List.take_add_one,
        List.getElem?_eq_getElem hi]
      rfl
  rw [htake _ h.numKeys.le, h.numKeys, List.take_length]

theorem BPTree.entriesAlong_append {t : BPTree ρ} {ps qs : List NodeRef}
    {es fs : List (ℤ × Option ρ)} (hps : t.entriesAlong ps = some es)
    (hqs : t.entriesAlong qs = some fs) : t.entriesAlong (ps ++ qs) = some (es ++ fs) := by
  induction ps generalizing es with
  | nil =>
    cases hps
    exact hqs
  | cons p ps ih =>
    obtain ⟨node, hl, hps⟩ := Option.bind_eq_some_iff.mp hps
    obtain ⟨es₁, hes₁, hps⟩ := Option.bind_eq_some_iff.mp hps
    obtain ⟨es₂, hes₂, hps⟩ := Option.bind_eq_some_iff.mp hps
    cases hps
    rw [List.append_assoc]
    exact bind_eq_of_eq_some hl (bind_eq_of_eq_some hes₁ (bind_eq_of_eq_some (ih hes₂) rfl))

theorem BPTree.entriesAlong_flatMap {t : BPTree ρ} {α : Type} {f : α → List NodeRef}
    {g : α → List (ℤ × Option ρ)} {cs : List α} (h : ∀ c ∈ cs, t.entriesAlong (f c) = some (g c)) :
    t.entriesAlong (cs.flatMap f) = some (cs.flatMap g) := by
  induction cs with
  | nil => rfl
  | cons c cs ih =>
    rw [List.flatMap_cons, List.flatMap_cons]
    exact entriesAlong_append (h c List.mem_cons_self)
      (ih fun d hd => h d (List.mem_cons_of_mem c hd))

/-- The leaves of a tree list its entries. -/
theorem Repr.entriesAlong {t : BPTree ρ} : {n : ℕ} → {tree : Tree ℤ (Option ρ) n} →
    {parent : Option NodeRef} → Repr t tree parent →
    t.entriesAlong tree.leafLabels = some tree.toList
  | 0, l, parent, hr => by
    obtain ⟨node, hl, hnode⟩ := repr_leaf.mp hr
    refine bind_eq_of_eq_some hl (bind_eq_of_eq_some hnode.entriesUpTo ?_)
    show some (Leaf.entries l ++ []) = some (Leaf.entries l)
    rw [List.append_nil]
  | n + 1, b, parent, hr =>
    BPTree.entriesAlong_flatMap fun c hc => ((repr_branch.mp hr).2 c hc).entriesAlong

/-- The first leaf is the leftmost one. -/
theorem Repr.leftmost {t : BPTree ρ} : {n : ℕ} → {tree : Tree ℤ (Option ρ) n} →
    {parent : Option NodeRef} → Repr t tree parent → tree.Separated →
    ∃ leaf, tree.leafLabels.head? = some leaf ∧ t.Leftmost leaf tree.label
  | 0, l, parent, hr, _ => by
    obtain ⟨node, hl, hnode⟩ := repr_leaf.mp hr
    exact ⟨Leaf.label l, rfl, .leaf hl hnode.isLeaf⟩
  | n + 1, b, parent, hr, hsep => by
    obtain ⟨c, cs, hcs⟩ := List.exists_cons_of_ne_nil hsep.2.1
    have hc : c ∈ Branch.children b := by rw [hcs]; exact List.mem_cons_self
    obtain ⟨leaf, hhead, hleft⟩ := ((repr_branch.mp hr).2 c hc).leftmost (hsep.2.2 c hc)
    refine ⟨leaf, ?_, .child ((hr.child_iff hsep).mpr ⟨c, ?_, rfl⟩) hleft⟩
    · show ((Branch.children b).flatMap Tree.leafLabels).head? = some leaf
      rw [hcs, List.flatMap_cons, List.head?_append, hhead]
      rfl
    · rw [hcs]
      rfl

/-- Every leaf of a tree is reached. -/
theorem Repr.leafAt {t : BPTree ρ} {q : NodeRef} : {n : ℕ} → {tree : Tree ℤ (Option ρ) n} →
    {parent : Option NodeRef} → Repr t tree parent → tree.Separated → {depth : ℕ} →
    t.Reaches tree.label depth → q ∈ tree.leafLabels → ∃ depth, t.LeafAt q depth
  | 0, l, parent, hr, _, depth, hreach, hq => by
    obtain ⟨node, hl, hnode⟩ := repr_leaf.mp hr
    obtain rfl : q = Leaf.label l := List.mem_singleton.mp hq
    exact ⟨depth, hreach, node, hl, hnode.isLeaf⟩
  | n + 1, b, parent, hr, hsep, depth, hreach, hq => by
    obtain ⟨c, hc, hq⟩ := List.mem_flatMap.mp hq
    obtain ⟨i, hi⟩ := List.getElem?_of_mem hc
    exact ((repr_branch.mp hr).2 c hc).leafAt (hsep.2.2 c hc)
      (hreach.child ((hr.child_iff hsep).mpr ⟨c, hi, rfl⟩)) hq

theorem BPTree.Chained.chainOk {t : BPTree ρ} {tree : AnyTree ℤ (Option ρ)} (h : t.Chained tree) :
    t.ChainOk tree.2.leafLabels.head? tree.2.leafLabels tree.2.toList where
  leftmost := by
    intro root hroot
    rw [h.lays.root] at hroot
    cases hroot
    exact h.lays.repr.leftmost h.lays.wf.separated
  leftmost_of_empty := by
    intro hroot
    rw [h.lays.root] at hroot
    cases hroot
  next := h.path.nextChain
  nodup := h.lays.nodup.sublist (Tree.leafLabels_sublist _)
  mem_iff := by
    intro p
    refine ⟨fun hp => h.lays.repr.leafAt h.lays.wf.separated (.root h.lays.root) hp, ?_⟩
    rintro ⟨depth, hp⟩
    exact (h.lays.leafAt hp).2
  entries_eq := h.lays.repr.entriesAlong
  ascending := h.lays.wf.sorted
  search := by
    intro key value hmem
    rw [bptreeSearch_eq (.tree h.lays), h.lays.wf.sorted.lookup_eq_some_iff.mpr hmem]
    rfl
  mem_of_search := by
    intro key r hs
    rw [bptreeSearch_eq (.tree h.lays), Option.some.injEq, Option.join_eq_some_iff] at hs
    exact h.lays.wf.sorted.lookup_eq_some_iff.mp hs

/-- The chain of an empty index. -/
theorem BPTree.chainOk_of_empty {t : BPTree ρ} (hroot : t.root = none) : t.ChainOk none [] [] where
  leftmost := by
    intro root h
    rw [hroot] at h
    cases h
  leftmost_of_empty := fun _ => rfl
  next := .nil
  nodup := List.nodup_nil
  mem_iff := by
    intro p
    refine ⟨fun h => absurd h List.not_mem_nil, ?_⟩
    rintro ⟨depth, hreach, -⟩
    exact absurd hreach (not_reaches_of_empty hroot)
  entries_eq := rfl
  ascending := List.Pairwise.nil
  search := fun _ _ h => absurd h List.not_mem_nil
  mem_of_search := by
    intro key r hs
    rw [bptreeSearch_eq (.empty hroot)] at hs
    cases hs

/-- **The leaf chain**: after any sequence of insertions into an empty index, with memory for every
node, following `next` from the leftmost leaf visits every leaf once and ends in `NULL`; the entries
met along it ascend, and are the pairs that a search finds. -/
theorem bptree_chain (xs : List (ℤ × Option ρ)) :
    ∃ h oks, bptreeInsertAll (bptreeStart ρ []) xs = some (h, oks) ∧
      ∃ first chain entries, h.toBPTree.ChainOk first chain entries := by
  obtain ⟨h, oks, hrun, ht⟩ :=
    BPTree.Tidy.insertAll xs (h := bptreeStart ρ []) (.empty rfl) rfl
  refine ⟨h, oks, hrun, ?_⟩
  cases ht with
  | empty hroot => exact ⟨none, [], [], BPTree.chainOk_of_empty hroot⟩
  | tree hch => exact ⟨_, _, _, hch.chainOk⟩

end MiniDbms
