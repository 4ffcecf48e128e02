import MiniDbms.Lib.CArray
import MiniDbms.Lib.CString

/-!
# Checked pointers, loops and string functions

A `CPointer` is an offset into an array of bytes.  What it points to is read as `CArray.read` reads
it, so that a read behind the array, or of a byte that was never written, yields `none`.  `loop` is
a C loop whose number of turns is bounded; a run that needs more turns yields `none`, too.  A
program over both that yields `some` has ended, and has not left its arrays.

`CPointer.StringAt` is a pointer to a string: the bytes of the string and its `NUL` are there, and
nothing is known of what is behind.  `CPointer.Walk` is a string with a number of turns that is
enough to go through it, `Walk.At` a pointer into it together with the rest of the string.  With
these, each function of the C library is the one of `CString`: `Walk.At.skipWhile`,
`strcasecmpEq_eq`, `Walk.At.strtol`.
-/

namespace Checked

universe u

variable {α β σ ρ : Type u}

/-- A checked computation succeeds, with a result in `Q`. -/
def Yields (o : Option α) (Q : α → Prop) : Prop := ∃ a, o = some a ∧ Q a

theorem yields_some {a : α} {Q : α → Prop} (h : Q a) : Yields (some a) Q := ⟨a, rfl, h⟩

theorem Yields.mono {o : Option α} {Q R : α → Prop} (h : Yields o Q) (hQR : ∀ a, Q a → R a) :
    Yields o R := by
  obtain ⟨a, ho, ha⟩ := h
  exact ⟨a, ho, hQR a ha⟩

/-- A computation after another one. -/
theorem Yields.bind {o : Option α} {f : α → Option β} {Q : α → Prop} {R : β → Prop}
    (h : Yields o Q) (hf : ∀ a, Q a → Yields (f a) R) : Yields (o >>= f) R := by
  obtain ⟨a, rfl, ha⟩ := h
  exact hf a ha

/-- A computation after one whose result is known. -/
theorem Yields.bind_eq {o : Option α} {a : α} {f : α → Option β} {R : β → Prop} (ho : o = some a)
    (hf : Yields (f a) R) : Yields (o >>= f) R := by
  subst ho
  exact hf

/-! ### Loops -/

/-- How the body of a loop ends: it goes on with a state, or leaves the loop with a result. -/
inductive Turn (σ ρ : Type u)
  | again (s : σ)
  | leave (r : ρ)

/-- A loop of at most so many turns. -/
def loop (body : σ → Option (Turn σ ρ)) : ℕ → σ → Option ρ
  | 0, _ => none
  | turns + 1, s => body s >>= fun
    | .again s => loop body turns s
    | .leave r => some r

/-- **Total correctness of a loop.**  `P` is the invariant, for an index that each turn makes
smaller; what the result has to satisfy for the next index, it satisfies for this one. -/
theorem loop_spec {ι : Type*} {body : σ → Option (Turn σ ρ)} (measure : ι → ℕ)
    {P : ι → σ → Prop} {Q : ι → ρ → Prop}
    (hbody : ∀ i s, P i s → (∃ r, body s = some (.leave r) ∧ Q i r) ∨
      ∃ s' j, body s = some (.again s') ∧ P j s' ∧ measure j < measure i ∧ ∀ r, Q j r → Q i r)
    {i : ι} {s : σ} (h : P i s) {turns : ℕ} (hturns : measure i < turns) :
    Yields (loop body turns s) (Q i) := by
  induction turns generalizing i s with
  | zero => omega
  | succ turns ih =>
    rcases hbody i s h with ⟨r, hr, hQ⟩ | ⟨s', j, hs', hP, hlt, hQ⟩
    · exact ⟨r, by rw [loop, hr]; rfl, hQ⟩
    · obtain ⟨r, hrun, hr⟩ := ih hP (by omega)
      exact ⟨r, by rw [loop, hs']; exact hrun, hQ r hr⟩

end Checked

/-- A pointer to a byte of an array. -/
structure CPointer where
  {size : ℕ}
  object : CArray UInt8 size
  offset : ℕ

namespace CPointer

open Checked CString

/-! ### Reading -/

/-- `*p` -/
def read (p : CPointer) : Option UInt8 := p.object.read p.offset

/-- `p + k` -/
def add (p : CPointer) (k : ℕ) : CPointer := { p with offset := p.offset + k }

@[simp] theorem add_zero (p : CPointer) : p.add 0 = p := rfl

theorem add_add (p : CPointer) (j k : ℕ) : (p.add j).add k = p.add (j + k) := by
  rw [add, add, add, Nat.add_assoc]

/-- The first byte of an array. -/
def ofArray {n : ℕ} (a : CArray UInt8 n) : CPointer := ⟨a, 0⟩

/-- A string in an array of its own. -/
def ofString (s : List UInt8) : CPointer := ⟨⟨(s ++ [0]).map some, List.length_map _⟩, 0⟩

/-- The pointer points to a string. -/
structure StringAt (p : CPointer) (s : List UInt8) : Prop where
  no_nul : 0 ∉ s
  read_add : ∀ j c, (s ++ [0])[j]? = some c → (p.add j).read = some c

theorem StringAt.read {p : CPointer} {s : List UInt8} (h : p.StringAt s) :
    p.read = some (peek s) := by
  cases s with
  | nil => exact h.read_add 0 0 rfl
  | cons c s => exact h.read_add 0 c rfl

theorem StringAt.ne_zero {p : CPointer} {c : UInt8} {s : List UInt8} (h : p.StringAt (c :: s)) :
    c ≠ 0 := by
  rintro rfl
  exact h.no_nul List.mem_cons_self

/-- Every position up to that of the `NUL` points to a string. -/
theorem StringAt.add {p : CPointer} {s : List UInt8} (h : p.StringAt s) {k : ℕ}
    (hk : k ≤ s.length) : (p.add k).StringAt (s.drop k) where
  no_nul hmem := h.no_nul (List.mem_of_mem_drop hmem)
  read_add := by
    intro j c hc
    rw [add_add]
    apply h.read_add
    rwa [← List.drop_append_of_le_length hk, List.getElem?_drop] at hc

/-- The next byte. -/
theorem StringAt.next {p : CPointer} {c : UInt8} {s : List UInt8} (h : p.StringAt (c :: s)) :
    (p.add 1).StringAt s :=
  h.add (k := 1) (by rw [List.length_cons]; omega)

theorem stringAt_ofString {s : List UInt8} (h : 0 ∉ s) : (ofString s).StringAt s where
  no_nul := h
  read_add := by
    intro j c hc
    show ((s ++ [0]).map some)[0 + j]?.join = some c
    rw [Nat.zero_add, List.getElem?_map, hc]
    rfl

theorem stringAt_ofArray {n : ℕ} {a : CArray UInt8 n} {s : List UInt8} (h : a.Holds (s ++ [0]))
    (h0 : 0 ∉ s) : (ofArray a).StringAt s where
  no_nul := h0
  read_add := by
    intro j c hc
    rw [CPointer.add, ofArray, CPointer.read, Nat.zero_add]
    exact h j c hc

theorem StringAt.holds {n : ℕ} {a : CArray UInt8 n} {s : List UInt8}
    (h : (ofArray a).StringAt s) : a.Holds (s ++ [0]) := by
  intro i c hc
  have hread := h.read_add i c hc
  rwa [CPointer.add, ofArray, CPointer.read, Nat.zero_add] at hread

/-- The `NUL` of a string is in the array, too. -/
theorem StringAt.length_lt {n : ℕ} {a : CArray UInt8 n} {s : List UInt8}
    (h : (ofArray a).StringAt s) : s.length < n := by
  have hle := h.holds.length_le
  rw [List.length_append, List.length_singleton] at hle
  omega

/-! ### Walking through a string -/

/-- A string, and a number of turns that is enough to go through it. -/
structure Walk (turns : ℕ) where
  start : CPointer
  text : List UInt8
  stringAt : start.StringAt text
  length_lt : text.length < turns

namespace Walk

variable {turns : ℕ} {w : Walk turns} {p : CPointer} {s : List UInt8}

/-- A pointer into the string, and the rest of the string there. -/
def At (w : Walk turns) (p : CPointer) (s : List UInt8) : Prop :=
  ∃ k ≤ w.text.length, p = w.start.add k ∧ s = w.text.drop k

theorem at_start (w : Walk turns) : w.At w.start w.text := ⟨0, Nat.zero_le _, rfl, rfl⟩

theorem At.stringAt (h : w.At p s) : p.StringAt s := by
  obtain ⟨k, hk, rfl, rfl⟩ := h
  exact w.stringAt.add hk

theorem At.length_lt (h : w.At p s) : s.length < turns := by
  obtain ⟨k, -, -, rfl⟩ := h
  have := w.length_lt
  rw [List.length_drop]
  omega

theorem At.suffix (h : w.At p s) : s <:+ w.text := by
  obtain ⟨k, -, -, rfl⟩ := h
  exact List.drop_suffix k w.text

theorem At.read (h : w.At p s) : p.read = some (peek s) := h.stringAt.read

theorem At.add (h : w.At p s) {k : ℕ} (hk : k ≤ s.length) : w.At (p.add k) (s.drop k) := by
  obtain ⟨j, hj, rfl, rfl⟩ := h
  rw [List.length_drop] at hk
  exact ⟨j + k, by omega, add_add .., List.drop_drop ..⟩

/-- The next byte. -/
theorem At.next {c : UInt8} (h : w.At p (c :: s)) : w.At (p.add 1) s :=
  h.add (k := 1) (by rw [List.length_cons]; omega)

/-- Two pointers into a string are the same when the rests are. -/
theorem At.offset_eq_iff {q : CPointer} {t : List UInt8} (h : w.At p s) (h' : w.At q t) :
    q.offset = p.offset ↔ t = s := by
  obtain ⟨j, hj, rfl, rfl⟩ := h
  obtain ⟨k, hk, rfl, rfl⟩ := h'
  constructor
  · intro hoff
    rw [show k = j from Nat.add_left_cancel hoff]
  · intro hdrop
    have hlen := congrArg List.length hdrop
    rw [List.length_drop, List.length_drop] at hlen
    rw [show k = j by omega]

/-- A string in an array that is not too long. -/
def ofArray {n : ℕ} {a : CArray UInt8 n} (h : (CPointer.ofArray a).StringAt s) (hn : n ≤ turns) :
    Walk turns :=
  ⟨CPointer.ofArray a, s, h, h.length_lt.trans_le hn⟩

end Walk

/-! ### The functions of the C library -/

/-- `while (*p != '\0' && class(*p)) p++;` -/
def skipWhile (isSkipped : UInt8 → Bool) (turns : ℕ) (p : CPointer) : Option CPointer :=
  loop (fun p => do
    let c ← p.read
    return if c ≠ 0 && isSkipped c then .again (p.add 1) else .leave p) turns p

/-- The string at `p`. -/
def readString (turns : ℕ) (p : CPointer) : Option (List UInt8) :=
  p.object.readString p.offset turns

/-- `strcasecmp(p, q) == 0` -/
def strcasecmpEq (turns : ℕ) (p q : CPointer) : Option Bool :=
  loop (fun (p, q) => do
    let c ← p.read
    let d ← q.read
    return if tolower c ≠ tolower d then .leave false
      else if c = 0 then .leave true
      else .again (p.add 1, q.add 1)) turns (p, q)

/-- The loop of `strtol` over the digits, with the value of those already read. -/
def digitLoop (turns : ℕ) (value : ℕ) (p : CPointer) : Option (ℕ × CPointer) :=
  loop (fun (value, p) => do
    let c ← p.read
    return if isdigit c then .again (10 * value + (c.toNat - 48), p.add 1)
      else .leave (value, p)) turns (value, p)

/-- `strtol(p, &end, 10)`: the value, and `end`. -/
def strtol (turns : ℕ) (p : CPointer) : Option (ℤ × CPointer) := do
  let q ← p.skipWhile isspace turns
  let sign ← q.read
  let q := if sign = 45 ∨ sign = 43 then q.add 1 else q
  let c ← q.read
  if isdigit c then
    let (value, endPtr) ← digitLoop turns 0 q
    let value : ℤ := value
    return (max longMin (min longMax (if sign = 45 then -value else value)), endPtr)
  else return (0, p)

namespace Walk

variable {turns : ℕ} {w : Walk turns} {p : CPointer} {s : List UInt8}

/-- Skipping a class of bytes. -/
theorem At.skipWhile (isSkipped : UInt8 → Bool) (h : w.At p s) :
    Yields (p.skipWhile isSkipped turns) fun q => w.At q (s.dropWhile isSkipped) := by
  refine loop_spec (P := fun s p => w.At p s) (Q := fun s q => w.At q (s.dropWhile isSkipped))
    List.length (fun s p hp => ?_) h h.length_lt
  cases s with
  | nil => exact Or.inl ⟨p, by rw [hp.read]; rfl, hp⟩
  | cons c s =>
    have hne := hp.stringAt.ne_zero
    by_cases hc : isSkipped c = true
    · refine Or.inr ⟨p.add 1, s, ?_, hp.next, by simp, fun q hq => ?_⟩
      · rw [hp.read]
        simp [peek, hne, hc]
      · rwa [List.dropWhile_cons_of_pos hc]
    · refine Or.inl ⟨p, ?_, ?_⟩
      · rw [hp.read]
        simp [peek, hc]
      · rwa [List.dropWhile_cons_of_neg hc]

theorem At.readString (h : w.At p s) : p.readString turns = some s := by
  have hs := h.stringAt
  rw [CPointer.readString, CArray.readString_eq s hs.read_add h.length_lt]
  congr 1
  rw [List.takeWhile_eq_self_iff]
  intro c hc
  simpa using fun h0 : c = 0 => hs.no_nul (h0 ▸ hc)

/-- Reading digits. -/
theorem At.digitLoop {value : ℕ} (h : w.At p s) :
    Yields (digitLoop turns value p) fun r =>
      r.1 = (s.takeWhile isdigit).foldl (fun n c => 10 * n + (c.toNat - 48)) value ∧
        w.At r.2 (s.dropWhile isdigit) := by
  refine loop_spec (P := fun (i : ℕ × List UInt8) (r : ℕ × CPointer) => r.1 = i.1 ∧ w.At r.2 i.2)
    (Q := fun (i : ℕ × List UInt8) (r : ℕ × CPointer) =>
      r.1 = (i.2.takeWhile isdigit).foldl (fun n c => 10 * n + (c.toNat - 48)) i.1 ∧
        w.At r.2 (i.2.dropWhile isdigit))
    (fun i => i.2.length) ?_ (i := (value, s)) ⟨rfl, h⟩ h.length_lt
  rintro ⟨_, s⟩ ⟨value, p⟩ ⟨rfl, hp⟩
  dsimp only at hp ⊢
  cases s with
  | nil => exact Or.inl ⟨_, by rw [hp.read]; rfl, rfl, hp⟩
  | cons c s =>
    by_cases hc : isdigit c = true
    · refine Or.inr ⟨(10 * value + (c.toNat - 48), p.add 1), (10 * value + (c.toNat - 48), s), ?_,
        ⟨rfl, hp.next⟩, by simp, fun r hr => ?_⟩
      · rw [hp.read]
        simp [peek, hc]
      · rwa [List.takeWhile_cons_of_pos hc, List.dropWhile_cons_of_pos hc]
    · refine Or.inl ⟨(value, p), ?_, ?_⟩
      · rw [hp.read]
        simp [peek, hc]
      · rw [List.takeWhile_cons_of_neg hc, List.dropWhile_cons_of_neg hc]
        exact ⟨rfl, hp⟩

end Walk

/-- Reading a number. -/
theorem Walk.At.strtol {turns : ℕ} {w : Walk turns} {p : CPointer} {s : List UInt8} (h : w.At p s) :
    Yields (p.strtol turns) fun r =>
      r.1 = (CString.strtol s).1 ∧ w.At r.2 (CString.strtol s).2 := by
  refine (h.skipWhile isspace).bind fun q hq => ?_
  obtain ⟨t, ht⟩ : ∃ t, s.dropWhile isspace = t := ⟨_, rfl⟩
  rw [ht] at hq
  -- the position behind the sign
  have hsigned : w.At (if peek t = 45 ∨ peek t = 43 then q.add 1 else q)
      (if peek t = 45 ∨ peek t = 43 then t.tail else t) := by
    split_ifs with hsign
    · cases t with
      | nil => exact absurd hsign (by decide)
      | cons c t => exact hq.next
    · exact hq
  generalize hu : (if peek t = 45 ∨ peek t = 43 then t.tail else t) = u at hsigned
  rw [strtol_eq_ite ht hu]
  refine Yields.bind_eq hq.read ?_
  refine Yields.bind_eq hsigned.read ?_
  by_cases hc : isdigit (peek u) = true
  · have hne : u.takeWhile isdigit ≠ [] := by
      cases u with
      | nil => exact absurd hc (by decide)
      | cons c u =>
        rw [List.takeWhile_cons_of_pos (show isdigit c = true from hc)]
        exact List.cons_ne_nil _ _
    rw [if_neg hne, if_pos hc]
    refine hsigned.digitLoop.bind fun r hr => ?_
    obtain ⟨value, endPtr⟩ := r
    obtain ⟨rfl, hend⟩ := hr
    exact yields_some ⟨rfl, hend⟩
  · have hnil : u.takeWhile isdigit = [] := by
      cases u with
      | nil => rfl
      | cons c u => exact List.takeWhile_cons_of_neg hc
    rw [if_pos hnil, if_neg hc]
    exact yields_some ⟨rfl, h⟩

theorem tolower_eq_zero_iff {c : UInt8} : tolower c = 0 ↔ c = 0 := by
  constructor
  · intro h
    unfold tolower at h
    split_ifs at h with hc
    · simp only [Bool.and_eq_true, decide_eq_true_eq, UInt8.le_iff_toNat_le] at hc
      have h32 := congrArg UInt8.toNat h
      have h65 : (65 : UInt8).toNat = 65 := rfl
      have h90 : (90 : UInt8).toNat = 90 := rfl
      rw [UInt8.toNat_add, show (32 : UInt8).toNat = 32 from rfl,
        show (0 : UInt8).toNat = 0 from rfl] at h32
      omega
    · exact h
  · rintro rfl
    rfl

/-- Comparing two strings without case. -/
theorem strcasecmpEq_eq {turns : ℕ} {p q : CPointer} {s t : List UInt8} (hp : p.StringAt s)
    (hq : q.StringAt t) (hturns : s.length < turns) :
    p.strcasecmpEq turns q = some (casecmpEq s t) := by
  obtain ⟨r, hrun, rfl⟩ : Yields (p.strcasecmpEq turns q) fun r => r = casecmpEq s t := by
    refine loop_spec
      (P := fun (i : List UInt8 × List UInt8) (r : CPointer × CPointer) =>
        r.1.StringAt i.1 ∧ r.2.StringAt i.2)
      (Q := fun (i : List UInt8 × List UInt8) r => r = casecmpEq i.1 i.2)
      (fun i => i.1.length) ?_ (i := (s, t)) ⟨hp, hq⟩ hturns
    rintro ⟨s, t⟩ ⟨p, q⟩ ⟨hp, hq⟩
    dsimp only at hp hq ⊢
    rw [hp.read, hq.read]
    -- the `NUL` of the shorter one differs from the byte of the other
    cases s with
    | nil =>
      cases t with
      | nil => exact Or.inl ⟨true, rfl, rfl⟩
      | cons d t =>
        have hd : tolower 0 ≠ tolower d := fun h => hq.ne_zero (tolower_eq_zero_iff.mp h.symm)
        exact Or.inl ⟨false, by simp [peek, hd], by simp [casecmpEq]⟩
    | cons c s =>
      have hc : tolower c ≠ tolower 0 := fun h => hp.ne_zero (tolower_eq_zero_iff.mp h)
      cases t with
      | nil => exact Or.inl ⟨false, by simp [peek, hc], by simp [casecmpEq]⟩
      | cons d t =>
        by_cases hcd : tolower c = tolower d
        · refine Or.inr ⟨(p.add 1, q.add 1), (s, t), by simp [peek, hcd, hp.ne_zero],
            ⟨hp.next, hq.next⟩, by simp, fun r hr => ?_⟩
          rw [hr, casecmpEq, casecmpEq, List.map_cons, List.map_cons, hcd, List.cons_beq_cons,
            beq_self_eq_true, Bool.true_and]
        · exact Or.inl ⟨false, by simp [peek, hcd], by simp [casecmpEq, hcd]⟩
  exact hrun

end CPointer
