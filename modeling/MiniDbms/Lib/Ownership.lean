import Mathlib.Algebra.Order.Group.Multiset
import Mathlib.Data.Multiset.Range
import Mathlib.Tactic.Abel

/-!
# Resources that are acquired and released

A program acquires resources, which may fail, and releases them.  `World` keeps the account: what is
held, what was released, and the outcomes of the coming attempts.  To release something that is not
held is an error, and the program has no result.

`Owns pre p post` says of a program: when it owns the resources `pre`, it runs without an error and
owns `post a` when it ends with the result `a`; what others own (the frame) is left alone.  The
frame is in the definition, so every such program can be used with more resources around it
(`Owns.frame`).

A program that starts with nothing and owns nothing in the end has released everything that it
acquired, each once (`Owns.closed`).
-/

namespace Ownership

/-- A resource: its kind, and the number of its acquisition. -/
structure Handle (κ : Type) where
  kind : κ
  number : ℕ
  deriving DecidableEq

/-- The account of the resources, and the outcomes of the coming attempts; past the end of the list
they succeed. -/
structure World (κ : Type) where
  outcomes : List Bool
  acquired : ℕ
  held : Multiset (Handle κ)
  released : Multiset (Handle κ)

/-- A program; `none` is a release of something that is not held. -/
abbrev Prog (κ α : Type) := StateT (World κ) Option α

section Programs

variable {κ : Type}

/-- The world before a program. -/
def World.start (outcomes : List Bool) : World κ := ⟨outcomes, 0, 0, 0⟩

/-- A call that can fail, and acquires nothing. -/
def attempt : Prog κ Bool := fun w =>
  some (w.outcomes.headD true, { w with outcomes := w.outcomes.tail })

/-- A call that acquires a resource unless it fails. -/
def acquire (kind : κ) : Prog κ (Option (Handle κ)) := fun w =>
  if w.outcomes.headD true then
    some (some ⟨kind, w.acquired⟩, { w with
      outcomes := w.outcomes.tail
      acquired := w.acquired + 1
      held := {⟨kind, w.acquired⟩} + w.held })
  else some (none, { w with outcomes := w.outcomes.tail })

variable [DecidableEq κ]

/-- The call that releases a resource. -/
def release (h : Handle κ) : Prog κ Unit := fun w =>
  if h ∈ w.held then
    some ((), { w with held := w.held.erase h, released := {h} + w.released })
  else none

/-- `free`: nothing is released when there is nothing. -/
def free : Option (Handle κ) → Prog κ Unit
  | none => pure ()
  | some h => release h

/-- One after the other. -/
def releaseAll : List (Handle κ) → Prog κ Unit
  | [] => pure ()
  | h :: hs => do
    release h
    releaseAll hs

end Programs

/-! ### The rules -/

section Rules

variable {κ α β : Type}

/-- Every resource that was acquired is held, or was released, once. -/
def World.Ok (w : World κ) : Prop :=
  (w.held + w.released).map Handle.number = Multiset.range w.acquired

theorem ok_start (outcomes : List Bool) : (World.start outcomes : World κ).Ok := rfl

/-- A program that owns `pre` runs without an error, and owns `post a` behind its result `a`. -/
def Owns (pre : Multiset (Handle κ)) (p : Prog κ α) (post : α → Multiset (Handle κ)) : Prop :=
  ∀ (w : World κ) (frame : Multiset (Handle κ)), w.Ok → w.held = pre + frame →
    ∃ a w', p w = some (a, w') ∧ w'.Ok ∧ w'.held = post a + frame

variable {pre : Multiset (Handle κ)} {p : Prog κ α} {f : α → Prog κ β}
  {mid post : α → Multiset (Handle κ)} {post' : β → Multiset (Handle κ)}

theorem Owns.pure {a : α} (h : pre = post a) : Owns pre (Pure.pure a : Prog κ α) post := by
  rw [h]
  exact fun w _ hok hheld => ⟨a, w, rfl, hok, hheld⟩

theorem Owns.bind (hp : Owns pre p mid) (hf : ∀ a, Owns (mid a) (f a) post') :
    Owns pre (p >>= f) post' := by
  intro w frame hok hheld
  obtain ⟨a, w₁, hrun, hok₁, hheld₁⟩ := hp w frame hok hheld
  obtain ⟨b, w₂, hrun₂, hok₂, hheld₂⟩ := hf a w₁ frame hok₁ hheld₁
  refine ⟨b, w₂, ?_, hok₂, hheld₂⟩
  show (p w).bind _ = _
  rw [hrun]
  exact hrun₂

/-- **The frame rule.** -/
theorem Owns.frame (hp : Owns pre p post) (rest : Multiset (Handle κ)) :
    Owns (pre + rest) p fun a => post a + rest := by
  intro w frame hok hheld
  obtain ⟨a, w', hrun, hok', hheld'⟩ := hp w (rest + frame) hok (by rw [hheld, add_assoc])
  exact ⟨a, w', hrun, hok', by rw [hheld', add_assoc]⟩

theorem Owns.congr (hp : Owns pre p post) {pre' : Multiset (Handle κ)}
    {post' : α → Multiset (Handle κ)} (hpre : pre' = pre) (hpost : ∀ a, post a = post' a) :
    Owns pre' p post' := by
  rw [hpre]
  intro w frame hok hheld
  obtain ⟨a, w', hrun, hok', hheld'⟩ := hp w frame hok hheld
  exact ⟨a, w', hrun, hok', by rw [hheld', hpost]⟩

/-- A step that owns a part of what there is. -/
theorem Owns.step (hp : Owns pre p mid) (rest : Multiset (Handle κ)) {all : Multiset (Handle κ)}
    (hall : all = pre + rest) (hf : ∀ a, Owns (mid a + rest) (f a) post') :
    Owns all (p >>= f) post' :=
  ((hp.frame rest).congr hall fun _ => rfl).bind hf

/-- The way out of an error: everything is released, and something else is returned. -/
theorem Owns.thenReturn (hp : Owns pre p fun _ => 0) {all : Multiset (Handle κ)} (hall : all = pre)
    {b : β} (hb : post' b = 0) : Owns all (p >>= fun _ => Pure.pure b) post' := by
  rw [hall]
  exact hp.bind fun _ => Owns.pure hb.symm

/-- A value that is worked out on the way. -/
theorem Owns.lift {x : Option α} {a : α} (hx : x = some a) (hf : Owns pre (f a) post') :
    Owns pre ((liftM x : Prog κ α) >>= f) post' := by
  rw [hx]
  exact hf

theorem owns_attempt : Owns (κ := κ) 0 attempt fun _ => 0 :=
  fun _ _ hok hheld => ⟨_, _, rfl, hok, hheld⟩

/-- What an acquisition gives. -/
def given (h : Option (Handle κ)) : Multiset (Handle κ) := h.elim 0 fun h => {h}

@[simp] theorem given_none : given (none : Option (Handle κ)) = 0 := rfl

@[simp] theorem given_some (h : Handle κ) : given (some h) = {h} := rfl

theorem owns_acquire (kind : κ) : Owns 0 (acquire kind) given := by
  intro w frame hok hheld
  unfold acquire
  by_cases houtcome : w.outcomes.headD true = true
  · refine ⟨_, _, if_pos houtcome, ?_, by rw [given_some, hheld, zero_add]⟩
    unfold World.Ok at hok ⊢
    dsimp only
    rw [add_assoc, Multiset.map_add, hok, Multiset.map_singleton, Multiset.range_succ,
      Multiset.singleton_add]
  · exact ⟨_, _, if_neg houtcome, hok, hheld⟩

section Release

variable [DecidableEq κ]

theorem owns_release (h : Handle κ) : Owns {h} (release h) fun _ => 0 := by
  intro w frame hok hheld
  have hmem : h ∈ w.held := by
    rw [hheld]
    exact Multiset.mem_add.mpr (Or.inl (Multiset.mem_singleton_self h))
  have hrest : w.held.erase h = frame := by
    rw [hheld, Multiset.singleton_add, Multiset.erase_cons_head]
  refine ⟨(), _, if_pos hmem, ?_, by rw [zero_add]; exact hrest⟩
  unfold World.Ok at hok ⊢
  dsimp only
  rw [← hok, hrest, hheld]
  congr 1
  abel

theorem owns_free (h : Option (Handle κ)) : Owns (given h) (free h) fun _ => 0 := by
  cases h with
  | none => exact Owns.pure rfl
  | some h => exact owns_release h

theorem owns_releaseAll (hs : List (Handle κ)) : Owns ↑hs (releaseAll hs) fun _ => 0 := by
  induction hs with
  | nil => exact Owns.pure rfl
  | cons h hs ih =>
    refine (owns_release h).step ↑hs ?_ fun _ => ?_
    · rw [Multiset.singleton_add, Multiset.cons_coe]
    · rw [zero_add]
      exact ih

end Release

/-- Nothing is held, and everything that was acquired was released once. -/
def World.Clean (w : World κ) : Prop :=
  w.held = 0 ∧ w.released.map Handle.number = Multiset.range w.acquired

theorem World.Ok.clean {w : World κ} (hok : w.Ok) (hheld : w.held = 0) : w.Clean := by
  refine ⟨hheld, ?_⟩
  unfold World.Ok at hok
  rwa [hheld, zero_add] at hok

/-- **A program that owns nothing in the end** has released everything that it acquired, each
once. -/
theorem Owns.closed (hp : Owns pre p post) {w : World κ} (hok : w.Ok) (hheld : w.held = pre) :
    ∃ a w', p w = some (a, w') ∧ w'.held = post a ∧ (post a = 0 → w'.Clean) := by
  obtain ⟨a, w', hrun, hok', hheld'⟩ := hp w 0 hok (by rw [hheld, add_zero])
  rw [add_zero] at hheld'
  exact ⟨a, w', hrun, hheld', fun hnone => hok'.clean (by rw [hheld', hnone])⟩

end Rules

/-! ### What the programs return -/

section Results

variable {κ α β : Type}

/-- When a program that starts in a world as `pre` says has a result, that is as `post` says. -/
def Yields (pre : World κ → Prop) (p : Prog κ α) (post : α → World κ → Prop) : Prop :=
  ∀ w a w', pre w → p w = some (a, w') → post a w'

variable {pre : World κ → Prop} {p : Prog κ α} {f : α → Prog κ β} {mid post : α → World κ → Prop}
  {post' : β → World κ → Prop}

theorem Yields.pure {a : α} (h : ∀ w, pre w → post a w) :
    Yields pre (Pure.pure a : Prog κ α) post := by
  intro w b w' hpre hrun
  cases hrun
  exact h w hpre

theorem Yields.bind (hp : Yields pre p mid) (hf : ∀ a, Yields (mid a) (f a) post') :
    Yields pre (p >>= f) post' := by
  intro w b w' hpre hrun
  obtain ⟨⟨a, w₁⟩, hfirst, hsecond⟩ := Option.bind_eq_some_iff.mp hrun
  exact hf a w₁ b w' (hp w a w₁ hpre hfirst) hsecond

/-- Nothing is asked of the first of two programs. -/
theorem Yields.skip (hf : ∀ a, Yields (fun _ => True) (f a) post') :
    Yields (fun _ => True) (p >>= f) post' := by
  have hp : Yields (fun _ => True) p fun _ _ => True := fun _ _ _ _ _ => True.intro
  exact hp.bind hf

/-- What is known of the result of a step helps with the rest. -/
theorem Owns.stepOf {pre' : Multiset (Handle κ)} {owned : α → Multiset (Handle κ)}
    {owned' : β → Multiset (Handle κ)} {good : α → Prop} (hp : Owns pre' p owned)
    (hgood : Yields (fun _ => True) p fun a _ => good a) (rest : Multiset (Handle κ))
    {all : Multiset (Handle κ)} (hall : all = pre' + rest)
    (hf : ∀ a, good a → Owns (owned a + rest) (f a) owned') : Owns all (p >>= f) owned' := by
  rw [hall]
  intro w frame hok hheld
  obtain ⟨a, w₁, hrun, hok₁, hheld₁⟩ := hp.frame rest w frame hok hheld
  obtain ⟨b, w₂, hrun₂, hok₂, hheld₂⟩ :=
    hf a (hgood w a w₁ True.intro hrun) w₁ frame hok₁ hheld₁
  refine ⟨b, w₂, ?_, hok₂, hheld₂⟩
  show (p w).bind _ = _
  rw [hrun]
  exact hrun₂

/-- A fact that has nothing to do with the world. -/
theorem Yields.of_fact_and {fact : Prop} (h : fact → Yields pre p post) :
    Yields (fun w => fact ∧ pre w) p post :=
  fun w a w' hfact hrun => h hfact.1 w a w' hfact.2 hrun

theorem Yields.of_fact {fact : Prop} (h : fact → Yields (fun _ => True) p post) :
    Yields (fun _ => fact) p post :=
  fun w a w' hfact hrun => h hfact w a w' True.intro hrun

theorem Yields.and {post₂ : α → World κ → Prop} (hp : Yields pre p post)
    (hp₂ : Yields (fun _ => True) p post₂) : Yields pre p fun a w => post a w ∧ post₂ a w :=
  fun w a w' hpre hrun => ⟨hp w a w' hpre hrun, hp₂ w a w' True.intro hrun⟩

variable {good : α → Prop}

theorem Yields.none :
    Yields pre (Pure.pure (none : Option α)) fun result _ => ∀ a ∈ result, good a :=
  Yields.pure fun _ _ a ha => absurd ha (Option.not_mem_none a)

theorem Yields.some {a : α} (h : good a) :
    Yields pre (Pure.pure (some a)) fun result _ => ∀ b ∈ result, good b := by
  refine Yields.pure fun _ _ b hb => ?_
  cases hb
  exact h

/-! ### When nothing fails -/

/-- No attempt fails any more. -/
def World.Lucky (w : World κ) : Prop := w.outcomes = []

/-- The program does not fail when no attempt does. -/
def Succeeds (p : Prog κ (Option α)) : Prop :=
  Yields World.Lucky p fun result w => result.isSome = true ∧ w.Lucky

theorem Succeeds.pure (a : α) : Succeeds (Pure.pure (some a) : Prog κ (Option α)) :=
  Yields.pure fun _ hlucky => ⟨rfl, hlucky⟩

theorem Succeeds.bind {p : Prog κ (Option α)} {f : Option α → Prog κ β} (hp : Succeeds p)
    (hf : ∀ a, Yields World.Lucky (f (some a)) post') : Yields World.Lucky (p >>= f) post' := by
  refine Yields.bind hp fun result => ?_
  cases result with
  | none => exact fun _ _ _ h _ => absurd h.1 Bool.false_ne_true
  | some a => exact fun w b w' h hrun => hf a w b w' h.2 hrun

theorem succeeds_acquire (kind : κ) : Succeeds (acquire kind) := by
  intro w h w' hlucky hrun
  have hlucky : w.outcomes = [] := hlucky
  unfold acquire at hrun
  rw [hlucky] at hrun
  cases hrun
  exact ⟨rfl, rfl⟩

theorem Succeeds.attempt {f : Bool → Prog κ β} (hf : Yields World.Lucky (f true) post') :
    Yields World.Lucky (Ownership.attempt >>= f) post' := by
  intro w b w' hlucky hrun
  have hlucky : w.outcomes = [] := hlucky
  have hok : w.outcomes.headD true = true := by rw [hlucky]; rfl
  have hrest : f (w.outcomes.headD true) { w with outcomes := w.outcomes.tail } = some (b, w') :=
    hrun
  rw [hok] at hrest
  refine hf _ b w' ?_ hrest
  show w.outcomes.tail = []
  rw [hlucky]
  rfl

end Results

end Ownership
