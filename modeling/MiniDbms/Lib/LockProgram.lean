import Mathlib.Logic.Function.Basic
import Mathlib.Data.List.Nodup

/-!
# Programs that take locks

A `Prog Λ σ α` is what a thread does in a call: it locks and unlocks the locks `Λ`, works on a
shared state `σ`, and returns an `α`.  What it does between two calls of the locks is one step
(`act`), `none` when that is undefined.  A `System` is a set of threads, each with the calls that it
has still to make.

* `Prog.Disciplined` says that a program takes a lock only when it holds none, releases only the
  lock that it holds, and holds none when it returns.  Threads with disciplined programs never all
  wait for each other (`System.LockOk.exists_free`).
* `Prog.Safe` is a rule for the state: what a program does is defined in every state that satisfies
  an invariant, whatever the other threads did since its last step, and keeps the invariant.
* `Prog.eval` runs a program alone.
-/

namespace Locks

/-- How a lock is taken.  A mutex is taken for writing. -/
inductive Mode
  | read | write
  deriving DecidableEq

/-- What a thread does.  `lock` goes on with whether the call of the lock succeeded. -/
inductive Prog (Λ σ α : Type) : Type 1
  | ret (a : α)
  | lock (l : Λ) (mode : Mode) (next : Bool → Prog Λ σ α)
  | unlock (l : Λ) (next : Prog Λ σ α)
  | act {β : Type} (f : σ → Option (σ × β)) (next : β → Prog Λ σ α)

namespace Prog

variable {Λ σ α β : Type}

/-- One program behind the other. -/
def bind : Prog Λ σ α → (α → Prog Λ σ β) → Prog Λ σ β
  | ret a, k => k a
  | lock l mode next, k => lock l mode fun ok => (next ok).bind k
  | unlock l next, k => unlock l (next.bind k)
  | act f next, k => act f fun b => (next b).bind k

/-- The program alone, with locks that are part of the state. -/
def eval (take : σ → Λ → Bool × σ) (release : σ → Λ → Option σ) :
    Prog Λ σ α → σ → Option (σ × α)
  | ret a, s => some (s, a)
  | lock l _ next, s => (next (take s l).1).eval take release (take s l).2
  | unlock l next, s => (release s l).bind (next.eval take release)
  | act f next, s => (f s).bind fun sb => (next sb.2).eval take release sb.1

theorem eval_bind (take : σ → Λ → Bool × σ) (release : σ → Λ → Option σ) (p : Prog Λ σ α)
    (k : α → Prog Λ σ β) (s : σ) :
    (p.bind k).eval take release s =
      (p.eval take release s).bind fun sa => (k sa.2).eval take release sa.1 := by
  induction p generalizing s with
  | ret a => rfl
  | lock l mode next ih => exact ih _ _
  | unlock l next ih =>
    simp only [bind, eval, Option.bind_assoc]
    congr 1
    exact funext ih
  | act f next ih =>
    simp only [bind, eval, Option.bind_assoc]
    congr 1
    exact funext fun sb => ih sb.2 sb.1

/-! ### Discipline -/

/-- One lock at a time: `held` is the lock that the thread holds. -/
def Disciplined : Prog Λ σ α → Option Λ → Prop
  | ret _, held => held = none
  | lock l _ next, held =>
    held = none ∧ (next false).Disciplined none ∧ (next true).Disciplined (some l)
  | unlock l next, held => held = some l ∧ next.Disciplined none
  | act _ next, held => ∀ b, (next b).Disciplined held

theorem Disciplined.bind {p : Prog Λ σ α} {held : Option Λ} (hp : p.Disciplined held)
    {k : α → Prog Λ σ β} (hk : ∀ a, (k a).Disciplined none) : (p.bind k).Disciplined held := by
  induction p generalizing held with
  | ret a =>
    obtain rfl : held = none := hp
    exact hk a
  | lock l mode next ih => exact ⟨hp.1, ih false hp.2.1, ih true hp.2.2⟩
  | unlock l next ih => exact ⟨hp.1, ih hp.2⟩
  | act f next ih => exact fun b => ih b (hp b)

/-! ### Safety -/

section Safe

variable (I : σ → Prop) (R : σ → σ → Prop)

/-- What the program does is defined and keeps `I`, in every state that the others can have made of
`s`; every thread changes the state by `R` only, and `Q` holds of what the program returns. -/
def Safe (Q : σ → α → Prop) : Prog Λ σ α → σ → Prop
  | ret a, s => Q s a
  | lock _ _ next, s => ∀ ok, (next ok).Safe Q s
  | unlock _ next, s => next.Safe Q s
  | act f next, s => ∀ s₁, I s₁ → R s s₁ →
      ∃ s₂ b, f s₁ = some (s₂, b) ∧ I s₂ ∧ R s₁ s₂ ∧ (next b).Safe Q s₂

variable {I R}

/-- The steps of the others do not matter. -/
theorem Safe.mono [IsTrans σ R] {Q : σ → α → Prop} (hQ : ∀ s s' a, R s s' → Q s a → Q s' a)
    {p : Prog Λ σ α} {s s' : σ} (hp : p.Safe I R Q s) (hR : R s s') : p.Safe I R Q s' := by
  induction p with
  | ret a => exact hQ s s' a hR hp
  | lock l mode next ih => exact fun ok => ih ok (hp ok)
  | unlock l next ih => exact ih hp
  | act f next ih => exact fun s₁ hI hR₁ => hp s₁ hI (Trans.trans hR hR₁)

theorem Safe.bind {Q : σ → α → Prop} {Q' : σ → β → Prop} {p : Prog Λ σ α} {s : σ}
    (hp : p.Safe I R Q s) {k : α → Prog Λ σ β}
    (hk : ∀ s' a, Q s' a → (k a).Safe I R Q' s') : (p.bind k).Safe I R Q' s := by
  induction p generalizing s with
  | ret a => exact hk s a hp
  | lock l mode next ih => exact fun ok => ih ok (hp ok)
  | unlock l next ih => exact ih hp
  | act f next ih =>
    intro s₁ hI hR
    obtain ⟨s₂, b, hf, hI₂, hR₂, hnext⟩ := hp s₁ hI hR
    exact ⟨s₂, b, hf, hI₂, hR₂, ih b hnext⟩

end Safe

end Prog

/-! ### Locks -/

/-- A readers-writer lock, with the threads that hold it. -/
inductive Lock (ι : Type)
  | reading (readers : List ι)
  | writing (writer : ι)

namespace Lock

variable {ι : Type}

def free : Lock ι := reading []

def HeldBy (t : ι) : Lock ι → Prop
  | reading readers => t ∈ readers
  | writing writer => t = writer

/-- Whether a thread that asks for the lock can get it now. -/
def available : Mode → Lock ι → Bool
  | .read, reading _ => true
  | .write, reading readers => readers.isEmpty
  | _, writing _ => false

/-- The lock is given to `t`. -/
def take (t : ι) : Mode → Lock ι → Lock ι
  | .read, reading readers => reading (t :: readers)
  | _, _ => writing t

/-- `t` gives the lock back; undefined when it does not hold it. -/
def release [DecidableEq ι] (t : ι) : Lock ι → Option (Lock ι)
  | reading readers => if t ∈ readers then some (reading (readers.erase t)) else none
  | writing writer => if t = writer then some free else none

/-- No thread holds the lock twice. -/
def Once : Lock ι → Prop
  | reading readers => readers.Nodup
  | writing _ => True

theorem once_free : (free : Lock ι).Once := List.nodup_nil

theorem not_heldBy_free (t : ι) : ¬ (free : Lock ι).HeldBy t := List.not_mem_nil

variable {l l' : Lock ι} {t u : ι} {mode : Mode}

theorem heldBy_take (h : l.available mode = true) :
    (l.take t mode).HeldBy u ↔ u = t ∨ l.HeldBy u := by
  cases mode <;> cases l <;> simp_all [available, take, HeldBy]

theorem Once.take (hl : l.Once) (ht : ¬ l.HeldBy t) : (l.take t mode).Once := by
  cases mode <;> cases l <;> simp_all [Lock.take, Once, HeldBy]

theorem heldBy_release [DecidableEq ι] (hl : l.Once) (h : l.release t = some l') :
    l'.HeldBy u ↔ u ≠ t ∧ l.HeldBy u := by
  cases l with
  | reading readers =>
    rw [release] at h
    split_ifs at h
    cases h
    exact List.Nodup.mem_erase_iff hl
  | writing writer =>
    rw [release] at h
    split_ifs at h with ht
    cases h
    subst ht
    simp [HeldBy, free]

theorem Once.release [DecidableEq ι] (hl : l.Once) (h : l.release t = some l') : l'.Once := by
  cases l with
  | reading readers =>
    rw [Lock.release] at h
    split_ifs at h
    cases h
    exact List.Nodup.erase t hl
  | writing writer =>
    rw [Lock.release] at h
    split_ifs at h
    cases h
    exact once_free

/-- A thread that holds the lock can release it. -/
theorem HeldBy.release [DecidableEq ι] (h : l.HeldBy t) : ∃ l', l.release t = some l' := by
  cases l with
  | reading readers => exact ⟨_, if_pos h⟩
  | writing writer => exact ⟨_, if_pos h⟩

/-- A lock that is not free is held by a thread. -/
theorem exists_heldBy (h : l.available .write = false) : ∃ t, l.HeldBy t := by
  cases l with
  | reading readers =>
    cases readers with
    | nil => cases h
    | cons t readers => exact ⟨t, List.mem_cons_self⟩
  | writing writer => exact ⟨writer, rfl⟩

/-- A lock that no thread can read is not free. -/
theorem not_available_write (h : l.available .read = false) : l.available .write = false := by
  cases l with
  | reading readers => cases h
  | writing writer => rfl

end Lock

/-! ### Threads -/

/-- The threads `ι`, each with the call that it is in and the calls that it still makes. -/
structure System (ι Λ σ : Type) : Type 1 where
  state : σ
  locks : Λ → Lock ι
  calls : ι → List (Prog Λ σ Unit)

namespace System

variable {ι Λ σ : Type}

/-- No lock is held, and no thread has begun. -/
def start (state : σ) (calls : ι → List (Prog Λ σ Unit)) : System ι Λ σ :=
  ⟨state, fun _ => .free, calls⟩

/-- Thread `t` may have to wait: it asks for a lock that it cannot get, or that another thread
waits to write. -/
def Waits (s : System ι Λ σ) (t : ι) : Prop :=
  ∃ l mode next rest, s.calls t = .lock l mode next :: rest ∧
    ((s.locks l).available mode = false ∨
      mode = .read ∧ ∃ u next' rest', s.calls u = .lock l .write next' :: rest')

/-- The calls of a thread that holds `held`. -/
def CallsOk (held : Option Λ) : List (Prog Λ σ Unit) → Prop
  | [] => held = none
  | p :: rest => p.Disciplined held ∧ ∀ q ∈ rest, q.Disciplined none

/-- Thread `t` holds the lock `held t`, and no other. -/
structure LockOk (s : System ι Λ σ) (held : ι → Option Λ) : Prop where
  calls : ∀ t, CallsOk (held t) (s.calls t)
  heldBy : ∀ l t, (s.locks l).HeldBy t ↔ held t = some l
  once : ∀ l, (s.locks l).Once

/-- All threads are safe in the state. -/
structure SafeOk (I : σ → Prop) (R : σ → σ → Prop) (s : System ι Λ σ) : Prop where
  inv : I s.state
  calls : ∀ t, ∀ p ∈ s.calls t, p.Safe I R (fun _ _ => True) s.state

theorem callsOk_of_disciplined {calls : List (Prog Λ σ Unit)}
    (h : ∀ p ∈ calls, p.Disciplined none) : CallsOk none calls := by
  cases calls with
  | nil => rfl
  | cons p rest => exact ⟨h p List.mem_cons_self, fun q hq => h q (List.mem_cons_of_mem _ hq)⟩

theorem lockOk_start (state : σ) {calls : ι → List (Prog Λ σ Unit)}
    (h : ∀ t, ∀ p ∈ calls t, p.Disciplined none) :
    (start state calls).LockOk fun _ => none where
  calls t := callsOk_of_disciplined (h t)
  heldBy _ t := ⟨fun h => absurd h (Lock.not_heldBy_free t), nofun⟩
  once _ := Lock.once_free

variable {s s' : System ι Λ σ} {held : ι → Option Λ} {t : ι}

/-- A thread that asks for a lock holds none. -/
theorem LockOk.not_heldBy (hs : s.LockOk held) {l : Λ} {mode : Mode} {next : Bool → Prog Λ σ Unit}
    {rest : List (Prog Λ σ Unit)} (hcalls : s.calls t = .lock l mode next :: rest) (l' : Λ) :
    ¬ (s.locks l').HeldBy t := by
  have h := hs.calls t
  rw [hcalls] at h
  rw [hs.heldBy, h.1.1]
  exact nofun

/-- Whoever holds a lock is at work, and does not wait. -/
theorem LockOk.not_waits (hs : s.LockOk held) {l : Λ} (hl : (s.locks l).HeldBy t) :
    s.calls t ≠ [] ∧ ¬ s.Waits t := by
  constructor
  · intro hnil
    have h := hs.calls t
    rw [hnil] at h
    rw [hs.heldBy, show held t = none from h] at hl
    cases hl
  · rintro ⟨l', mode, next, rest, hcalls, -⟩
    exact hs.not_heldBy hcalls l hl

/-- **No deadlock**: some thread that is not finished need not wait. -/
theorem LockOk.exists_free (hs : s.LockOk held) (ht : s.calls t ≠ []) :
    ∃ u, s.calls u ≠ [] ∧ ¬ s.Waits u := by
  by_contra hall
  push Not at hall
  -- a lock that cannot be written has a holder, who does not wait
  have hfree : ∀ l, (s.locks l).available .write = true := by
    intro l
    by_contra hnot
    obtain ⟨u, hu⟩ := Lock.exists_heldBy (eq_false_of_ne_true hnot)
    obtain ⟨hne, hfree⟩ := hs.not_waits hu
    exact hfree (hall u hne)
  -- so nobody waits to write
  have hwrite : ∀ u l next rest, s.calls u ≠ .lock l .write next :: rest := by
    intro u l next rest hcalls
    obtain ⟨l', mode', next', rest', hcalls', hwait⟩ := hall u (by rw [hcalls]; exact nofun)
    rw [hcalls] at hcalls'
    cases hcalls'
    rcases hwait with hwait | ⟨hmode, -⟩
    · rw [hfree] at hwait
      cases hwait
    · cases hmode
  obtain ⟨l, mode, next, rest, -, hwait | ⟨-, u, next', rest', hu⟩⟩ := hall t ht
  · cases mode with
    | read =>
      have := Lock.not_available_write hwait
      rw [hfree] at this
      cases this
    | write =>
      rw [hfree] at hwait
      cases hwait
  · exact hwrite u l next' rest' hu

/-! ### Steps -/

/-- Another state of lock `l`. -/
def setLock [DecidableEq Λ] (s : System ι Λ σ) (l : Λ) (lock : Lock ι) : System ι Λ σ :=
  { s with locks := Function.update s.locks l lock }

theorem setLock_locks_self [DecidableEq Λ] (s : System ι Λ σ) (l : Λ) (lock : Lock ι) :
    (s.setLock l lock).locks l = lock := Function.update_self ..

theorem setLock_locks_of_ne [DecidableEq Λ] (s : System ι Λ σ) {l l' : Λ} (h : l' ≠ l)
    (lock : Lock ι) : (s.setLock l lock).locks l' = s.locks l' := Function.update_of_ne h ..

variable [DecidableEq ι]

/-- Thread `t` goes on with `rest`. -/
def goOn (s : System ι Λ σ) (t : ι) (rest : List (Prog Λ σ Unit)) : System ι Λ σ :=
  { s with calls := Function.update s.calls t rest }

/-- A step of `t` that takes and releases nothing. -/
theorem LockOk.goOn (hs : s.LockOk held) {rest : List (Prog Λ σ Unit)}
    (hrest : CallsOk (held t) rest) : (s.goOn t rest).LockOk held where
  calls := (Function.forall_update_iff s.calls fun u calls => CallsOk (held u) calls).mpr
    ⟨hrest, fun u _ => hs.calls u⟩
  heldBy := hs.heldBy
  once := hs.once

/-- A step of `t` that leaves the state. -/
theorem SafeOk.goOn {I : σ → Prop} {R : σ → σ → Prop} (hs : s.SafeOk I R)
    {rest : List (Prog Λ σ Unit)}
    (hrest : ∀ p ∈ rest, p.Safe I R (fun _ _ => True) s.state) : (s.goOn t rest).SafeOk I R where
  inv := hs.inv
  calls := (Function.forall_update_iff s.calls fun _ calls =>
    ∀ p ∈ calls, p.Safe I R (fun _ _ => True) s.state).mpr ⟨hrest, fun u _ => hs.calls u⟩

variable [DecidableEq Λ]

/-- The next step of thread `t`.  A call of a lock fails when `ok` is false; `none` when the thread
has to wait, has nothing to do, or does something undefined. -/
def step (s : System ι Λ σ) (t : ι) (ok : Bool) : Option (System ι Λ σ) :=
  match s.calls t with
  | [] => none
  | .ret _ :: rest => some (s.goOn t rest)
  | .lock l mode next :: rest =>
    if ok = false then some (s.goOn t (next false :: rest))
    else if (s.locks l).available mode then
      some ((s.goOn t (next true :: rest)).setLock l ((s.locks l).take t mode))
    else none
  | .unlock l next :: rest =>
    ((s.locks l).release t).map fun lock => (s.goOn t (next :: rest)).setLock l lock
  | .act f next :: rest =>
    (f s.state).map fun sb => { s.goOn t (next sb.2 :: rest) with state := sb.1 }

/-- A run. -/
def run (s : System ι Λ σ) : List (ι × Bool) → Option (System ι Λ σ)
  | [] => some s
  | (t, ok) :: steps => (s.step t ok).bind fun s => s.run steps

/-- A step of thread `t`, by what it is at. -/
inductive Step (s : System ι Λ σ) (t : ι) : System ι Λ σ → Prop
  | ret {rest : List (Prog Λ σ Unit)} (calls : s.calls t = .ret () :: rest) :
    Step s t (s.goOn t rest)
  | fails {l : Λ} {mode : Mode} {next : Bool → Prog Λ σ Unit} {rest : List (Prog Λ σ Unit)}
    (calls : s.calls t = .lock l mode next :: rest) : Step s t (s.goOn t (next false :: rest))
  | takes {l : Λ} {mode : Mode} {next : Bool → Prog Λ σ Unit} {rest : List (Prog Λ σ Unit)}
    (calls : s.calls t = .lock l mode next :: rest)
    (available : (s.locks l).available mode = true) :
    Step s t ((s.goOn t (next true :: rest)).setLock l ((s.locks l).take t mode))
  | releases {l : Λ} {next : Prog Λ σ Unit} {rest : List (Prog Λ σ Unit)} {lock : Lock ι}
    (calls : s.calls t = .unlock l next :: rest) (release : (s.locks l).release t = some lock) :
    Step s t ((s.goOn t (next :: rest)).setLock l lock)
  | acts {β : Type} {f : σ → Option (σ × β)} {next : β → Prog Λ σ Unit}
    {rest : List (Prog Λ σ Unit)} {state : σ} {b : β} (calls : s.calls t = .act f next :: rest)
    (act : f s.state = some (state, b)) :
    Step s t { s.goOn t (next b :: rest) with state := state }

theorem step_cases {ok : Bool} (h : s.step t ok = some s') : s.Step t s' := by
  unfold step at h
  split at h
  · cases h
  · rename_i heq
    cases h
    exact .ret heq
  · rename_i heq
    split_ifs at h with hok havailable
    · cases h
      exact .fails heq
    · cases h
      exact .takes heq havailable
  · rename_i heq
    obtain ⟨lock, hrelease, rfl⟩ := Option.map_eq_some_iff.mp h
    exact .releases heq hrelease
  · rename_i heq
    obtain ⟨⟨state, b⟩, hact, rfl⟩ := Option.map_eq_some_iff.mp h
    exact .acts heq hact

/-- A step of `t` behind which it holds `held'`. -/
theorem LockOk.setLock (hs : s.LockOk held) {rest : List (Prog Λ σ Unit)} {held' : Option Λ}
    (hrest : CallsOk held' rest) {l : Λ} {lock : Lock ι} (honce : lock.Once)
    (hself : ∀ l', held' = some l' → l' = l) (hbefore : ∀ l', held t = some l' → l' = l)
    (hheld : ∀ u, lock.HeldBy u ↔ if u = t then held' = some l else held u = some l) :
    ((s.goOn t rest).setLock l lock).LockOk (Function.update held t held') where
  calls u := by
    change CallsOk (Function.update held t held' u) (Function.update s.calls t rest u)
    by_cases hu : u = t
    · subst hu
      rwa [Function.update_self, Function.update_self]
    · rw [Function.update_of_ne hu, Function.update_of_ne hu]
      exact hs.calls u
  heldBy l' u := by
    by_cases hl : l' = l
    · subst hl
      rw [setLock_locks_self, hheld]
      by_cases hu : u = t
      · rw [if_pos hu, hu, Function.update_self]
      · rw [if_neg hu, Function.update_of_ne hu]
    · rw [setLock_locks_of_ne _ hl]
      change (s.locks l').HeldBy u ↔ _
      by_cases hu : u = t
      · subst hu
        rw [Function.update_self]
        -- `t` holds the other locks neither before nor behind the step
        exact ⟨fun h => absurd (hbefore l' ((hs.heldBy l' u).mp h)) hl,
          fun h => absurd (hself l' h) hl⟩
      · rw [Function.update_of_ne hu]
        exact hs.heldBy l' u
  once l' := by
    by_cases hl : l' = l
    · subst hl
      rwa [setLock_locks_self]
    · rw [setLock_locks_of_ne _ hl]
      exact hs.once l'

/-- Every step leaves the threads with at most one lock each. -/
theorem LockOk.step (hs : s.LockOk held) {ok : Bool} (h : s.step t ok = some s') :
    ∃ held', s'.LockOk held' := by
  have hcalls := hs.calls t
  cases step_cases h with
  | ret calls =>
    rw [calls] at hcalls
    obtain ⟨hheld, hrest⟩ := hcalls
    refine ⟨held, hs.goOn ?_⟩
    rw [show held t = none from hheld]
    exact callsOk_of_disciplined hrest
  | fails calls =>
    rw [calls] at hcalls
    obtain ⟨⟨hheld, hfails, -⟩, hrest⟩ := hcalls
    refine ⟨held, hs.goOn ?_⟩
    rw [hheld]
    exact ⟨hfails, hrest⟩
  | @takes l mode next rest calls available =>
    rw [calls] at hcalls
    obtain ⟨⟨hheld, -, htakes⟩, hrest⟩ := hcalls
    -- the thread holds no lock when it asks for one
    have hnot : ¬ (s.locks l).HeldBy t := by
      rw [hs.heldBy, hheld]
      exact nofun
    have hgo : CallsOk (some l) (next true :: rest) := ⟨htakes, hrest⟩
    refine ⟨_, hs.setLock hgo ((hs.once l).take hnot)
      (fun l' h => (Option.some.inj h).symm) (fun l' h => ?_) fun u => ?_⟩
    · rw [hheld] at h
      cases h
    · rw [Lock.heldBy_take available, hs.heldBy]
      by_cases hu : u = t
      · simp [hu]
      · simp [hu]
  | @releases l next rest lock calls release =>
    rw [calls] at hcalls
    obtain ⟨⟨hheld, hnext⟩, hrest⟩ := hcalls
    have hgo : CallsOk none (next :: rest) := ⟨hnext, hrest⟩
    refine ⟨_, hs.setLock hgo ((hs.once l).release release) nofun (fun l' h => ?_) fun u => ?_⟩
    · rw [hheld] at h
      exact (Option.some.inj h).symm
    · rw [Lock.heldBy_release (hs.once l) release, hs.heldBy]
      by_cases hu : u = t
      · simp [hu]
      · simp [hu]
  | @acts β f next rest state b calls act =>
    rw [calls] at hcalls
    obtain ⟨hnext, hrest⟩ := hcalls
    have hgo : (s.goOn t (next b :: rest)).LockOk held := hs.goOn ⟨hnext b, hrest⟩
    exact ⟨held, hgo.calls, hgo.heldBy, hgo.once⟩

/-- What every step keeps holds behind a run. -/
theorem run_keeps {P : System ι Λ σ → Prop}
    (hstep : ∀ {s s' t ok}, s.step t ok = some s' → P s → P s') {steps : List (ι × Bool)}
    {s s' : System ι Λ σ} (h : s.run steps = some s') (hs : P s) : P s' := by
  induction steps generalizing s with
  | nil =>
    cases h
    exact hs
  | cons step steps ih =>
    obtain ⟨s₁, h₁, hrun⟩ := Option.bind_eq_some_iff.mp h
    exact ih hrun (hstep h₁ hs)

theorem LockOk.run (hs : s.LockOk held) {steps : List (ι × Bool)} (h : s.run steps = some s') :
    ∃ held', s'.LockOk held' :=
  run_keeps (P := fun s => ∃ held, s.LockOk held) (fun h ⟨_, hs⟩ => hs.step h) h ⟨held, hs⟩

/-! ### What the threads do with the state -/

section Safe

variable {I : σ → Prop} {R : σ → σ → Prop}

/-- Every step is safe for all threads: the one that takes it goes on from where it is safe, and
what it does to the state is a change that the others bear. -/
theorem SafeOk.step [IsTrans σ R] (hs : s.SafeOk I R) (hrefl : ∀ s, R s s) {ok : Bool}
    (h : s.step t ok = some s') : s'.SafeOk I R := by
  have hcalls := hs.calls t
  cases step_cases h with
  | ret calls =>
    rw [calls] at hcalls
    exact hs.goOn (List.forall_mem_cons.mp hcalls).2
  | fails calls =>
    rw [calls] at hcalls
    obtain ⟨hsafe, hrest⟩ := List.forall_mem_cons.mp hcalls
    exact hs.goOn (List.forall_mem_cons.mpr ⟨hsafe false, hrest⟩)
  | takes calls =>
    rw [calls] at hcalls
    obtain ⟨hsafe, hrest⟩ := List.forall_mem_cons.mp hcalls
    have hgo := hs.goOn (t := t) (List.forall_mem_cons.mpr ⟨hsafe true, hrest⟩)
    exact ⟨hgo.inv, hgo.calls⟩
  | @releases l next rest lock calls =>
    rw [calls] at hcalls
    obtain ⟨hsafe, hrest⟩ := List.forall_mem_cons.mp hcalls
    have hnext : next.Safe I R (fun _ _ => True) s.state := hsafe
    have hgo := hs.goOn (t := t) (List.forall_mem_cons.mpr ⟨hnext, hrest⟩)
    exact ⟨hgo.inv, hgo.calls⟩
  | @acts β f next rest s₂ b calls act =>
    rw [calls] at hcalls
    obtain ⟨hsafe, hrest⟩ := List.forall_mem_cons.mp hcalls
    obtain ⟨s₂', b', hf', hI, hR, hnext⟩ := hsafe s.state hs.inv (hrefl _)
    rw [act] at hf'
    cases hf'
    -- the calls that are not begun, and those of the others, are safe in the new state too
    have hmono : ∀ p : Prog Λ σ Unit, p.Safe I R (fun _ _ => True) s.state →
        p.Safe I R (fun _ _ => True) s₂ := fun p hp => hp.mono (fun _ _ _ _ h => h) hR
    have hself : ∀ p ∈ next b :: rest, p.Safe I R (fun _ _ => True) s₂ :=
      List.forall_mem_cons.mpr ⟨hnext, fun p hp => hmono p (hrest p hp)⟩
    exact ⟨hI, (Function.forall_update_iff s.calls fun _ calls =>
      ∀ p ∈ calls, p.Safe I R (fun _ _ => True) s₂).mpr
        ⟨hself, fun u _ p hp => hmono p (hs.calls u p hp)⟩⟩

theorem SafeOk.run [IsTrans σ R] (hs : s.SafeOk I R) (hrefl : ∀ s, R s s)
    {steps : List (ι × Bool)} (h : s.run steps = some s') : s'.SafeOk I R :=
  run_keeps (P := fun s => s.SafeOk I R) (fun h hs => hs.step hrefl h) h hs

/-- A thread that has something to do and need not wait takes its step. -/
theorem SafeOk.exists_step (hs : s.SafeOk I R) (hrefl : ∀ s, R s s) (hl : s.LockOk held)
    (ht : s.calls t ≠ []) (hwaits : ¬ s.Waits t) : ∃ s', s.step t true = some s' := by
  have hcalls := hs.calls t
  have hdisciplined := hl.calls t
  unfold System.step
  split
  · rename_i heq
    exact absurd heq ht
  · exact ⟨_, rfl⟩
  · rename_i l mode next rest heq
    have havailable : (s.locks l).available mode = true := by
      by_contra hnot
      exact hwaits ⟨l, mode, next, rest, heq, .inl (eq_false_of_ne_true hnot)⟩
    exact ⟨_, by rw [if_neg (by simp), if_pos havailable]⟩
  · rename_i l next rest heq
    rw [heq] at hdisciplined
    obtain ⟨lock, hrelease⟩ := ((hl.heldBy l t).mpr hdisciplined.1.1).release
    exact ⟨_, by rw [hrelease]; rfl⟩
  · rename_i f next rest heq
    rw [heq] at hcalls
    obtain ⟨s₂, b, hf, -⟩ := hcalls _ List.mem_cons_self s.state hs.inv (hrefl _)
    exact ⟨_, by rw [hf]; rfl⟩

end Safe

end System

end Locks
