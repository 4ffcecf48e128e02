import Mathlib.Data.List.Nodup
import Mathlib.Logic.Function.Basic
import Mathlib.Order.Nat

/-!
# Linearizable objects

An object is used by calls, one after the other (`Object`).  Processes that share it call at any
time, and an answer comes later than its call.  The history is *linearizable* when one can put its
operations in an order in which the object could have given their answers one after the other, such
that an operation that was over when another one began stands before it (`Linearizable`).  Calls
that are still open may have taken effect, or not.

To show it one names the step in which a call takes effect.  `Linearized` is the invariant: the
operations that took effect, in the order in which they did, are a run of the object.  An operation
takes effect (`Linearized.takes_effect`), it is answered later (`Linearized.answers`), and a history
with the invariant is linearizable (`Linearized.linearizable`).
-/

namespace Linearizability

variable {σ ι ρ κ : Type*}

/-- An object that one call after the other uses: its first state, and what a call may answer in a
state, with the state that it leaves. -/
structure Object (σ ι ρ : Type*) where
  first : σ
  Step : σ → ι → ρ → σ → Prop

/-- The object answers calls one after the other. -/
inductive Object.Runs (o : Object σ ι ρ) : List (ι × ρ) → σ → Prop
  | nil : o.Runs [] o.first
  | concat {events : List (ι × ρ)} {s s' : σ} {call : ι} {answer : ρ} (runs : o.Runs events s)
    (step : o.Step s call answer s') : o.Runs (events ++ [(call, answer)]) s'

/-- A call, its answer, and their times.  An operation that took effect but did not answer has no
end yet. -/
structure Operation (ι ρ : Type*) where
  call : ι
  answer : ρ
  began : ℕ
  ended : Option ℕ

namespace Operation

/-- What the object sees of an operation. -/
def event (e : Operation ι ρ) : ι × ρ := (e.call, e.answer)

/-- `e` was over when `e'` began. -/
def Precedes (e e' : Operation ι ρ) : Prop := ∃ time, e.ended = some time ∧ time < e'.began

/-- The answer comes. -/
def finish (e : Operation ι ρ) (time : ℕ) : Operation ι ρ := { e with ended := some time }

end Operation

/-- **Linearizable**: `order` lists the answered operations and some that took effect for open calls
(`done`), every process at most once; it is a run of the object, to the state `s`; and no operation
stands before one that was over when it began. -/
def Linearizable (o : Object σ ι ρ) (answered : List (Operation ι ρ)) (opened : κ → Option (ι × ℕ))
    (s : σ) : Prop :=
  ∃ (done : List (κ × Operation ι ρ)) (order : List (Operation ι ρ)),
    (done.map Prod.fst).Nodup ∧
    (∀ p ∈ done, p.2.ended = none ∧ opened p.1 = some (p.2.call, p.2.began)) ∧
    order.Perm (answered ++ done.map Prod.snd) ∧
    order.Pairwise (fun e e' => ¬ e'.Precedes e) ∧
    o.Runs (order.map Operation.event) s

/-! ### The order in which operations take effect -/

/-- `order` lists the operations that took effect before the time `now`, each with the time at which
it did.  They are answered, or in the hands of a process (`done`). -/
structure TookEffect (o : Object σ ι ρ) (now : ℕ) (answered : List (Operation ι ρ))
    (hands : κ → Option (Operation ι ρ)) (s : σ) (done : List (κ × Operation ι ρ))
    (order : List (Operation ι ρ × ℕ)) : Prop where
  nodup : (done.map Prod.fst).Nodup
  taken : ∀ t e, (t, e) ∈ done ↔ hands t = some e
  unanswered : ∀ p ∈ done, p.2.ended = none
  perm : (order.map Prod.fst).Perm (answered ++ done.map Prod.snd)
  times : order.Pairwise fun p p' => p.2 < p'.2
  began : ∀ p ∈ order, p.1.began < p.2
  past : ∀ p ∈ order, p.2 < now
  ended : ∀ p ∈ order, ∀ time, p.1.ended = some time → p.2 < time
  runs : o.Runs (order.map fun p => p.1.event) s

/-- Some order of the operations that took effect explains the history. -/
def Linearized (o : Object σ ι ρ) (now : ℕ) (answered : List (Operation ι ρ))
    (hands : κ → Option (Operation ι ρ)) (s : σ) : Prop :=
  ∃ done order, TookEffect o now answered hands s done order

variable {o : Object σ ι ρ} {now : ℕ} {answered : List (Operation ι ρ)}
  {hands : κ → Option (Operation ι ρ)} {s : σ}

/-- Nothing has happened. -/
theorem linearized_first (o : Object σ ι ρ) {hands : κ → Option (Operation ι ρ)}
    (hhands : ∀ t, hands t = none) : Linearized o now [] hands o.first := by
  refine ⟨[], [], List.nodup_nil, fun t e => ?_, nofun, List.Perm.refl _, List.Pairwise.nil, nofun,
    nofun, nofun, .nil⟩
  rw [hhands t]
  exact ⟨nofun, nofun⟩

/-- Time passes. -/
theorem Linearized.wait (h : Linearized o now answered hands s) {now' : ℕ} (hnow : now ≤ now') :
    Linearized o now' answered hands s := by
  obtain ⟨done, order, h⟩ := h
  exact ⟨done, order, h.nodup, h.taken, h.unanswered, h.perm, h.times, h.began,
    fun p hp => (h.past p hp).trans_le hnow, h.ended, h.runs⟩

/-- The order in which the answers are listed does not matter. -/
theorem Linearized.perm (h : Linearized o now answered hands s) {answered' : List (Operation ι ρ)}
    (hperm : answered'.Perm answered) : Linearized o now answered' hands s := by
  obtain ⟨done, order, h⟩ := h
  exact ⟨done, order, h.nodup, h.taken, h.unanswered, h.perm.trans (hperm.symm.append_right _),
    h.times, h.began, h.past, h.ended, h.runs⟩

section Hands

variable [DecidableEq κ]

/-- The call of process `t` takes effect now. -/
theorem Linearized.takes_effect (h : Linearized o now answered hands s) {t : κ}
    (ht : hands t = none) {e : Operation ι ρ} (hended : e.ended = none) (hbegan : e.began < now)
    {s' : σ} (hstep : o.Step s e.call e.answer s') :
    Linearized o (now + 1) answered (Function.update hands t (some e)) s' := by
  obtain ⟨done, order, h⟩ := h
  have hnew : t ∉ done.map Prod.fst := by
    intro hmem
    obtain ⟨p, hp, rfl⟩ := List.mem_map.mp hmem
    have hhand := (h.taken p.1 p.2).mp hp
    rw [ht] at hhand
    cases hhand
  refine ⟨done ++ [(t, e)], order ++ [(e, now)], ?_, fun t' e' => ?_, ?_, ?_, ?_, ?_, ?_, ?_, ?_⟩
  · rw [List.map_append, List.nodup_append]
    refine ⟨h.nodup, List.nodup_singleton _, fun t₁ h₁ t₂ h₂ heq => ?_⟩
    rw [heq, List.mem_singleton.mp h₂] at h₁
    exact hnew h₁
  · rw [List.mem_append, List.mem_singleton, Prod.mk.injEq]
    by_cases htt : t' = t
    · subst htt
      rw [Function.update_self, h.taken, ht, Option.some_inj]
      exact ⟨fun hor => hor.elim nofun fun heq => heq.2.symm, fun heq => Or.inr ⟨rfl, heq.symm⟩⟩
    · rw [Function.update_of_ne htt, h.taken]
      exact ⟨fun hor => hor.elim id fun heq => absurd heq.1 htt, Or.inl⟩
  · intro p hp
    rcases List.mem_append.mp hp with hp | hp
    · exact h.unanswered p hp
    · rw [List.mem_singleton.mp hp]
      exact hended
  · rw [List.map_append, List.map_append, ← List.append_assoc]
    exact h.perm.append_right _
  · rw [List.pairwise_append]
    refine ⟨h.times, List.pairwise_singleton _ _, fun p hp p' hp' => ?_⟩
    rw [List.mem_singleton.mp hp']
    exact h.past p hp
  · intro p hp
    rcases List.mem_append.mp hp with hp | hp
    · exact h.began p hp
    · rw [List.mem_singleton.mp hp]
      exact hbegan
  · intro p hp
    rcases List.mem_append.mp hp with hp | hp
    · exact (h.past p hp).trans (Nat.lt_succ_self _)
    · rw [List.mem_singleton.mp hp]
      exact Nat.lt_succ_self _
  · intro p hp time htime
    rcases List.mem_append.mp hp with hp | hp
    · exact h.ended p hp time htime
    · rw [List.mem_singleton.mp hp, hended] at htime
      cases htime
  · rw [List.map_append]
    exact .concat h.runs hstep

/-- Process `t` answers now. -/
theorem Linearized.answers (h : Linearized o now answered hands s) {t : κ} {e : Operation ι ρ}
    (ht : hands t = some e) :
    Linearized o (now + 1) (answered ++ [e.finish now]) (Function.update hands t none) s := by
  obtain ⟨done, order, h⟩ := h
  obtain ⟨done₁, done₂, rfl⟩ := List.append_of_mem ((h.taken t e).mpr ht)
  have horder : e ∈ order.map Prod.fst := by
    rw [h.perm.mem_iff, List.map_append, List.map_cons]
    simp
  obtain ⟨⟨e', time⟩, hmem, rfl⟩ := List.mem_map.mp horder
  obtain ⟨order₁, order₂, rfl⟩ := List.append_of_mem hmem
  -- the answer is written into the order at its place
  have hold : ∀ p, p ∈ order₁ ++ (e'.finish now, time) :: order₂ →
      p ∈ order₁ ++ (e', time) :: order₂ ∨ p = (e'.finish now, time) := by
    intro p hp
    simp only [List.mem_append, List.mem_cons] at hp ⊢
    tauto
  have hnodup := h.nodup
  rw [List.map_append, List.map_cons, List.nodup_middle, List.nodup_cons,
    ← List.map_append] at hnodup
  have hperm := h.perm
  simp only [List.map_append, List.map_cons] at hperm
  have hrest : (order₁.map Prod.fst ++ order₂.map Prod.fst).Perm
      (answered ++ (done₁.map Prod.snd ++ done₂.map Prod.snd)) := by
    have hmiddle := (List.perm_middle.symm.trans hperm).trans
      (List.perm_middle.append_left answered)
    exact (hmiddle.trans List.perm_middle).cons_inv
  refine ⟨done₁ ++ done₂, order₁ ++ (e'.finish now, time) :: order₂, hnodup.2, fun t' e₁ => ?_,
    ?_, ?_, ?_, ?_, ?_, ?_, ?_⟩
  · by_cases htt : t' = t
    · subst htt
      rw [Function.update_self]
      exact ⟨fun hp => absurd (List.mem_map.mpr ⟨_, hp, rfl⟩) hnodup.1, nofun⟩
    · rw [Function.update_of_ne htt, ← h.taken]
      simp [htt]
  · intro p hp
    refine h.unanswered p ?_
    simp only [List.mem_append, List.mem_cons] at hp ⊢
    tauto
  · simp only [List.map_append, List.map_cons]
    have hcons := (hrest.cons (e'.finish now)).trans List.perm_middle.symm
    rw [List.append_assoc]
    exact List.perm_middle.trans hcons
  · have htimes := h.times
    simp only [List.pairwise_append, List.pairwise_cons, List.forall_mem_cons] at htimes ⊢
    exact htimes
  · intro p hp
    rcases hold p hp with hp | rfl
    · exact h.began p hp
    · exact h.began (e', time) hmem
  · intro p hp
    rcases hold p hp with hp | rfl
    · exact (h.past p hp).trans (Nat.lt_succ_self _)
    · exact (h.past _ hmem).trans (Nat.lt_succ_self _)
  · intro p hp time' htime'
    rcases hold p hp with hp | rfl
    · exact h.ended p hp time' htime'
    · cases htime'
      exact h.past (e', time) hmem
  · have hruns := h.runs
    simp only [List.map_append, List.map_cons] at hruns ⊢
    exact hruns

end Hands

/-- **A history in which every operation takes effect at one time is linearizable.** -/
theorem Linearized.linearizable (h : Linearized o now answered hands s)
    {opened : κ → Option (ι × ℕ)}
    (hopened : ∀ t e, hands t = some e → opened t = some (e.call, e.began)) :
    Linearizable o answered opened s := by
  obtain ⟨done, order, h⟩ := h
  refine ⟨done, order.map Prod.fst, h.nodup, fun p hp => ?_, h.perm, ?_, ?_⟩
  · exact ⟨h.unanswered p hp, hopened p.1 p.2 ((h.taken p.1 p.2).mp hp)⟩
  · rw [List.pairwise_map]
    -- the later operation ended behind its time, the earlier one began before its own
    refine h.times.imp_of_mem fun {p p'} hp hp' hlt => ?_
    rintro ⟨time, hended, hbefore⟩
    have hbegan := h.began p hp
    have hlate := h.ended p' hp' time hended
    omega
  · rw [List.map_map]
    exact h.runs

end Linearizability
