import MiniDbms.Table.Equiv.Failures

/-!
# The programs compute the operations

A program of `MiniDbms.Table.Locking`, run alone with the locks of `TableMemory`, computes the
operation of `MiniDbms.Table.Basic` that it stands for.
-/

namespace MiniDbms

open Locks CArray TableMemory

/-! ### The programs compute the operations -/

section Computes

variable {α β : Type}

/-- Run alone, with the locks of the memory, `p` computes `f`. -/
def Computes (p : TableProg α) (f : TableMemory → Option (TableMemory × α)) : Prop :=
  ∀ s, (p.eval (fun s l => ((s.lock l).1, ⟨(s.lock l).2, s.taken⟩))
      (fun s l => (s.unlock l).map fun m => ⟨m, s.taken⟩) s).map
    (fun sa => (sa.1.toTableMemory, sa.2)) = f s.toTableMemory

theorem computes_ret (a : α) : Computes (.ret a) fun m => some (m, a) := fun _ => rfl

theorem computes_lock {l : TableLock} {mode : Mode} {next : Bool → TableProg α}
    {f : Bool → TableMemory → Option (TableMemory × α)} (h : ∀ ok, Computes (next ok) (f ok)) :
    Computes (.lock l mode next) fun m => f (m.lock l).1 (m.lock l).2 := fun _ => h _ _

theorem computes_unlock {l : TableLock} {next : TableProg α}
    {f : TableMemory → Option (TableMemory × α)} (h : Computes next f) :
    Computes (.unlock l next) fun m => (m.unlock l).bind f := by
  intro s
  change _ = (s.unlock l).bind f
  rw [Prog.eval]
  cases s.unlock l with
  | none => rfl
  | some m => exact h ⟨m, s.taken⟩

theorem computes_act {g : TableMemory → Option (TableMemory × β)} {next : β → TableProg α}
    {f : β → TableMemory → Option (TableMemory × α)} (h : ∀ b, Computes (next b) (f b)) :
    Computes (.act (onMemory g) next) fun m => (g m).bind fun mb => f mb.2 mb.1 := by
  intro s
  change _ = (g s.toTableMemory).bind fun mb => f mb.2 mb.1
  rw [Prog.eval, onMemory]
  cases g s.toTableMemory with
  | none => rfl
  | some mb => exact h mb.2 ⟨mb.1, s.taken⟩

theorem computes_takeId {next : ℤ → TableProg α} {f : ℤ → TableMemory → Option (TableMemory × α)}
    (h : ∀ id, Computes (next id) (f id)) :
    Computes (.act tableTakeId next) fun m =>
      f m.nextId { m with nextId := intWrap (m.nextId + 1) } := fun _ => h _ _

theorem Computes.bind {p : TableProg β} {g : TableMemory → Option (TableMemory × β)}
    (hp : Computes p g) {k : β → TableProg α} {f : β → TableMemory → Option (TableMemory × α)}
    (hk : ∀ b, Computes (k b) (f b)) :
    Computes (p.bind k) fun m => (g m).bind fun mb => f mb.2 mb.1 := by
  intro s
  change _ = (g s.toTableMemory).bind fun mb => f mb.2 mb.1
  rw [Prog.eval_bind, ← hp s]
  cases p.eval _ _ s with
  | none => rfl
  | some sb => exact hk sb.2 sb.1

theorem Computes.congr {p : TableProg α} {f g : TableMemory → Option (TableMemory × α)}
    (h : Computes p f) (heq : ∀ m, f m = g m) : Computes p g := fun s => (h s).trans (heq _)

end Computes

theorem tableInsertProg_computes (name : CBytes) (age : ℤ) :
    Computes (tableInsertProg name age) (tableInsert · name age) := by
  unfold tableInsertProg
  refine (computes_lock (f := fun ok m => if ok = false then some (m, none) else
    ({ m with nextId := intWrap (m.nextId + 1) }.unlock .nextId).bind
      (tableStoreRow · m.nextId name age)) fun ok => ?_).congr fun m => ?_
  · cases ok with
    | false => exact computes_ret none
    | true =>
      refine computes_takeId (f := fun recordId m =>
        (m.unlock .nextId).bind (tableStoreRow · recordId name age)) fun recordId =>
          computes_unlock ?_
      refine (computes_lock (f := fun ok m => if ok = false then some (m, none) else
        (tableStoreRowLocked (tableBucketIndexForId recordId) recordId name age m).bind fun me =>
          (me.1.unlock (.bucket (tableBucketIndexForId recordId))).bind fun m =>
            some (m, me.2.record)) fun ok => ?_).congr fun m => (tableStoreRow_eq ..).symm
      cases ok with
      | false => exact computes_ret none
      | true =>
        refine computes_act (f := fun (e : StoreEnd) m =>
          (m.unlock (.bucket (tableBucketIndexForId recordId))).bind fun m => some (m, e.record))
          fun e => ?_
        cases e <;> exact computes_unlock (computes_ret _)
  · unfold tableInsert tableIssueId
    rcases m.lock _ with ⟨_ | _, m₁⟩
    · rfl
    · dsimp only
      rw [if_neg (by simp)]
      cases { m₁ with nextId := intWrap (m₁.nextId + 1) }.unlock .nextId with
      | none => rfl
      | some m₂ => rfl

theorem tableFindByIdProg_computes (id : ℤ) :
    Computes (tableFindByIdProg id) (tableFindById · id) := by
  unfold tableFindByIdProg
  refine (computes_lock (f := fun ok m => if ok = false then some (m, none) else
    ((bptreeSearch (m.buckets (tableBucketIndexForId id)).pkIndex id).map (m, ·)).bind fun mb =>
      (mb.1.unlock (.bucket (tableBucketIndexForId id))).bind fun m => some (m, mb.2))
    fun ok => ?_).congr fun m => ?_
  · cases ok with
    | false => exact computes_ret none
    | true => exact computes_act fun record => computes_unlock (computes_ret record)
  · unfold tableFindById
    dsimp only
    rcases m.lock _ with ⟨_ | _, m₁⟩
    · rfl
    · dsimp only
      rw [if_neg (by simp)]
      cases bptreeSearch (m₁.buckets (tableBucketIndexForId id)).pkIndex id with
      | none => rfl
      | some record => rfl

theorem tableScanBucketsProg_computes (id : ℤ) (bs : List (Fin tableBucketCount)) :
    Computes (tableScanBucketsProg id bs) (tableScanBuckets · id bs) := by
  induction bs with
  | nil => exact computes_ret none
  | cons b bs ih =>
    unfold tableScanBucketsProg
    refine (computes_lock (f := fun ok m => if ok = false then some (m, none) else
      ((tableScanRows m id (m.buckets b).rows).map (m, ·)).bind fun mb =>
        mb.2.elim ((mb.1.unlock (.bucket b)).bind (tableScanBuckets · id bs))
          fun record => (mb.1.unlock (.bucket b)).bind fun m => some (m, some record))
      fun ok => ?_).congr fun m => ?_
    · cases ok with
      | false => exact computes_ret none
      | true =>
        refine computes_act (f := fun found m =>
          Option.elim found ((m.unlock (.bucket b)).bind (tableScanBuckets · id bs))
            fun record => (m.unlock (.bucket b)).bind fun m => some (m, some record))
          fun found => ?_
        cases found with
        | none => exact computes_unlock ih
        | some record => exact computes_unlock (computes_ret _)
    · rw [tableScanBuckets]
      rcases m.lock _ with ⟨_ | _, m₁⟩
      · rfl
      · dsimp only
        rw [if_neg (by simp)]
        rcases tableScanRows m₁ id (m₁.buckets b).rows with _ | _ | record
        · rfl
        · rfl
        · rfl

theorem tableScanByIdProg_computes (id : ℤ) :
    Computes (tableScanByIdProg id) (tableScanById · id) := tableScanBucketsProg_computes id _

/-- The results of the lookups, in the order of the programs. -/
def asResult (r : Bool × TableMemory × RecordArray) : TableMemory × Bool × RecordArray :=
  (r.2.1, r.1, r.2.2)

theorem tableGiveUpProg_computes (records : RecordArray) :
    Computes (tableGiveUpProg records) fun m =>
      some (tableFreeArray m records, false, RecordArray.empty) :=
  computes_act (f := fun (_ : Unit) m => some (m, false, RecordArray.empty)) fun _ => computes_ret _

theorem tableCollectBucketsProg_computes (bs : List (Fin tableBucketCount))
    (records : RecordArray) :
    Computes (tableCollectBucketsProg bs records) fun m =>
      (tableCollectBuckets m records bs).map asResult := by
  induction bs generalizing records with
  | nil => exact computes_ret _
  | cons b bs ih =>
    unfold tableCollectBucketsProg
    refine (computes_lock (f := fun ok m =>
      if ok = false then some (tableFreeArray m records, false, RecordArray.empty) else
      (some (asResult (tableCollectRows m records (m.buckets b).rows))).bind fun mb =>
        bif mb.2.1 then
          (mb.1.unlock (.bucket b)).bind fun m => (tableCollectBuckets m mb.2.2 bs).map asResult
        else (mb.1.unlock (.bucket b)).bind fun m =>
          some (tableFreeArray m mb.2.2, false, RecordArray.empty)) fun ok => ?_).congr fun m => ?_
    · cases ok with
      | false => exact tableGiveUpProg_computes records
      | true =>
        refine computes_act (f := fun (r : Bool × RecordArray) m => bif r.1 then
            (m.unlock (.bucket b)).bind fun m => (tableCollectBuckets m r.2 bs).map asResult
          else (m.unlock (.bucket b)).bind fun m =>
            some (tableFreeArray m r.2, false, RecordArray.empty)) fun r => ?_
        rcases r with ⟨_ | _, records'⟩
        · exact computes_unlock (tableGiveUpProg_computes records')
        · exact computes_unlock (ih records')
    · rw [tableCollectBuckets, tableCollectSection]
      rcases m.lock _ with ⟨_ | _, m₁⟩
      · rfl
      · dsimp only
        rw [if_neg (by simp)]
        rcases tableCollectRows m₁ records (m₁.buckets b).rows with ⟨_ | _, m₂, records'⟩
        · dsimp only [asResult, Option.bind_some]
          cases m₂.unlock (.bucket b) <;> rfl
        · dsimp only [asResult, Option.bind_some]
          cases m₂.unlock (.bucket b) <;> rfl

theorem tableCollectAllProg_computes :
    Computes tableCollectAllProg fun m => (tableCollectAll m).map asResult := by
  refine ((tableCollectBucketsProg_computes _ _).bind (f := fun r m => bif r.1 then
      (tableSortRecordsById m r.2).bind fun records => some (m, true, records)
    else some (m, false, r.2)) fun r => ?_).congr fun m => ?_
  · rcases r with ⟨_ | _, records⟩
    · exact computes_ret _
    · refine (computes_act (f := fun records m => some (m, true, records))
        fun records => computes_ret _).congr fun m => ?_
      dsimp only
      cases tableSortRecordsById m records <;> rfl
  · rw [tableCollectAll, tableCollectAllSorted]
    rcases tableCollectBuckets m .empty (List.finRange tableBucketCount) with
      _ | ⟨_ | _, m₁, records⟩
    · rfl
    · rfl
    · dsimp only [asResult, Option.map_some, Option.bind_some, bind]
      cases tableSortRecordsById m₁ records <;> rfl

theorem tableFindMatchesProg_computes (test : Record → Bool) :
    Computes (tableFindMatchesProg test) fun m => (tableFindMatches m test).map asResult := by
  refine (tableCollectAllProg_computes.bind (f := fun r m => bif r.1 then
      (tableFilterRecords m test r.2).map asResult
    else some (m, false, .empty)) fun r => ?_).congr fun m => ?_
  · rcases r with ⟨_ | _, all⟩
    · exact computes_ret _
    · refine (computes_act (f := fun r m => some (m, r)) fun r => computes_ret r).congr fun m => ?_
      dsimp only
      cases tableFilterRecords m test all <;> rfl
  · rw [tableFindMatches, tableCollectAll]
    rcases tableCollectAllSorted m with _ | ⟨_ | _, m₁, all⟩ <;> rfl

theorem tableFindByNameMatchesProg_computes (name : CBytes) :
    Computes (tableFindByNameMatchesProg name) fun m =>
      (tableFindByNameMatches m name).map asResult := tableFindMatchesProg_computes _

theorem tableFindByAgeConditionProg_computes (comparison : TableComparison) (age : ℤ) :
    Computes (tableFindByAgeConditionProg comparison age) fun m =>
      (tableFindByAgeCondition m comparison age).map asResult := tableFindMatchesProg_computes _

theorem tableFindByIdConditionProg_computes (comparison : TableComparison) (id : ℤ) :
    Computes (tableFindByIdConditionProg comparison id) fun m =>
      (tableFindByIdCondition m comparison id).map asResult := by
  unfold tableFindByIdConditionProg tableFindByIdCondition
  split_ifs
  · refine ((tableFindByIdProg_computes id).bind (f := fun found m =>
      Option.elim found (some (m, true, .empty))
        fun record => some (asResult (tableAppendRecord m .empty record)))
      fun found => ?_).congr fun m => ?_
    · cases found with
      | none => exact computes_ret _
      | some record => exact computes_act (f := fun r m => some (m, r)) computes_ret
    · rcases tableFindById m id with _ | ⟨m₁, _ | record⟩ <;> rfl
  · exact tableFindMatchesProg_computes _

end MiniDbms
