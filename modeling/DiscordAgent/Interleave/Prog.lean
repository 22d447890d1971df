import Mathlib.Data.Nat.Notation
import Mathlib.Tactic.SplitIfs

/-!
# Programs over atomic operations

A thread is a program that performs one atomic operation at a time. Between
two operations any other thread may run, so a program is a tree: an operation
`o` and, for every result `r : Res o`, the rest of the program. A program ends
by returning a value or by raising an exception.

* `Prog`: the programs, with `bind`, `tryCatch` and loops over lists.
* `Prog.Emits P`: every operation the program can perform satisfies `P`,
  whatever results it gets.
* `Prog.EmitsUntil P P'`: first the operations satisfy `P`, then `P'`.
* `Prog.Performs P`: the program does not end before it has performed an
  operation with `P`.
* `Prog.NoRaise`: no exception leaves the program.
* `Prog.eval`: the program run alone, with no other thread in between.
-/

namespace Interleave

/-- A program over the operations `Op`, where `o` answers with a value of
    `Res o`. It returns an `α` or raises an `ε`. -/
inductive Prog (Op : Type) (Res : Op → Type) (ε α : Type) where
  | ret (a : α)
  | raise (e : ε)
  | call (o : Op) (k : Res o → Prog Op Res ε α)

namespace Prog

variable {Op : Type} {Res : Op → Type} {ε α β γ : Type}

/-- Sequencing. An exception skips the rest. -/
def bind : Prog Op Res ε α → (α → Prog Op Res ε β) → Prog Op Res ε β
  | ret a, f => f a
  | raise e, _ => raise e
  | call o k, f => call o fun r => (k r).bind f

/-- `try p except: h`. -/
def tryCatch : Prog Op Res ε α → (ε → Prog Op Res ε α) → Prog Op Res ε α
  | ret a, _ => ret a
  | raise e, h => h e
  | call o k, h => call o fun r => (k r).tryCatch h

/-- One operation. -/
def perform (o : Op) : Prog Op Res ε (Res o) := call o ret

instance : Monad (Prog Op Res ε) where
  pure := ret
  bind := bind

@[simp] theorem bind_eq (p : Prog Op Res ε α) (f : α → Prog Op Res ε β) :
    p >>= f = p.bind f := rfl

@[simp] theorem ret_bind (a : α) (f : α → Prog Op Res ε β) : (ret a).bind f = f a := rfl

@[simp] theorem raise_bind (e : ε) (f : α → Prog Op Res ε β) :
    (raise e : Prog Op Res ε α).bind f = raise e := rfl

@[simp] theorem call_bind (o : Op) (k : Res o → Prog Op Res ε α) (f : α → Prog Op Res ε β) :
    (call o k).bind f = call o fun r => (k r).bind f := rfl

@[simp] theorem perform_bind (o : Op) (f : Res o → Prog Op Res ε β) :
    (perform o).bind f = call o f := rfl

theorem bind_ret (p : Prog Op Res ε α) : p.bind ret = p := by
  induction p with
  | ret a => rfl
  | raise e => rfl
  | call o k ih =>
    rw [call_bind]
    congr 1
    funext r
    exact ih r

/-- `if b: p`. -/
def runIf (b : Bool) (p : Prog Op Res ε Unit) : Prog Op Res ε Unit := if b then p else ret ()

/-- `for x in xs: f x`. -/
def forEach {ι : Type} : List ι → (ι → Prog Op Res ε Unit) → Prog Op Res ε Unit
  | [], _ => ret ()
  | x :: xs, f => (f x).bind fun _ => forEach xs f

/-- `for x in xs: y = f x; if y: out.append(y)`, returning `out`. -/
def collect {ι : Type} : List ι → List β → (ι → Prog Op Res ε (Option β)) → Prog Op Res ε (List β)
  | [], out, _ => ret out
  | x :: xs, out, f => (f x).bind fun y => collect xs (out ++ y.toList) f

/-! ## Which operations a program performs -/

/-- Every operation of the program satisfies `P`, whatever the results are. -/
def Emits (P : Op → Prop) : Prog Op Res ε α → Prop
  | ret _ => True
  | raise _ => True
  | call o k => P o ∧ ∀ r, (k r).Emits P

section Emits

variable {P P' : Op → Prop}

theorem emits_perform {o : Op} (h : P o) : (perform o : Prog Op Res ε (Res o)).Emits P :=
  ⟨h, fun _ => trivial⟩

theorem Emits.bind {p : Prog Op Res ε α} {f : α → Prog Op Res ε β} (hp : p.Emits P)
    (hf : ∀ a, (f a).Emits P) : (p.bind f).Emits P := by
  induction p with
  | ret a => exact hf a
  | raise e => trivial
  | call o k ih =>
    refine ⟨hp.1, ?_⟩
    intro r
    exact ih r (hp.2 r)

theorem Emits.tryCatch {p : Prog Op Res ε α} {h : ε → Prog Op Res ε α} (hp : p.Emits P)
    (hh : ∀ e, (h e).Emits P) : (p.tryCatch h).Emits P := by
  induction p with
  | ret a => trivial
  | raise e => exact hh e
  | call o k ih =>
    refine ⟨hp.1, ?_⟩
    intro r
    exact ih r (hp.2 r)

theorem Emits.mono {p : Prog Op Res ε α} (hp : p.Emits P) (h : ∀ o, P o → P' o) :
    p.Emits P' := by
  induction p with
  | ret a => trivial
  | raise e => trivial
  | call o k ih =>
    refine ⟨h o hp.1, ?_⟩
    intro r
    exact ih r (hp.2 r)

theorem Emits.and {p : Prog Op Res ε α} (hp : p.Emits P) (hp' : p.Emits P') :
    p.Emits fun o => P o ∧ P' o := by
  induction p with
  | ret a => trivial
  | raise e => trivial
  | call o k ih =>
    refine ⟨⟨hp.1, hp'.1⟩, ?_⟩
    intro r
    exact ih r (hp.2 r) (hp'.2 r)

theorem emits_runIf {b : Bool} {p : Prog Op Res ε Unit} (h : b = true → p.Emits P) :
    (runIf b p).Emits P := by
  unfold runIf
  split_ifs with hb
  · exact h hb
  · trivial

theorem emits_forEach {ι : Type} {xs : List ι} {f : ι → Prog Op Res ε Unit}
    (h : ∀ x ∈ xs, (f x).Emits P) : (forEach xs f).Emits P := by
  induction xs with
  | nil => trivial
  | cons x xs ih =>
    apply (h x List.mem_cons_self).bind
    intro _
    apply ih
    intro y hy
    exact h y (List.mem_cons_of_mem x hy)

theorem emits_collect {ι : Type} {xs : List ι} {out : List β}
    {f : ι → Prog Op Res ε (Option β)} (h : ∀ x ∈ xs, (f x).Emits P) :
    (collect xs out f).Emits P := by
  induction xs generalizing out with
  | nil => trivial
  | cons x xs ih =>
    apply (h x List.mem_cons_self).bind
    intro y
    apply ih
    intro z hz
    exact h z (List.mem_cons_of_mem x hz)

/-- Up to some point of the program its operations satisfy `P`, from there on
    `P'`. -/
def EmitsUntil (P P' : Op → Prop) : Prog Op Res ε α → Prop
  | ret _ => True
  | raise _ => True
  | call o k => (P o ∧ ∀ r, (k r).EmitsUntil P P') ∨ (call o k).Emits P'

theorem Emits.emitsUntil {p : Prog Op Res ε α} (hp : p.Emits P') : p.EmitsUntil P P' := by
  cases p with
  | ret a => trivial
  | raise e => trivial
  | call o k => exact .inr hp

theorem Emits.bind_emitsUntil {p : Prog Op Res ε α} {f : α → Prog Op Res ε β} (hp : p.Emits P)
    (hf : ∀ a, (f a).EmitsUntil P P') : (p.bind f).EmitsUntil P P' := by
  induction p with
  | ret a => exact hf a
  | raise e => trivial
  | call o k ih =>
    refine .inl ⟨hp.1, ?_⟩
    intro r
    exact ih r (hp.2 r)

theorem Emits.emitsUntil_left {p : Prog Op Res ε α} (hp : p.Emits P) : p.EmitsUntil P P' := by
  induction p with
  | ret a => trivial
  | raise e => trivial
  | call o k ih =>
    refine .inl ⟨hp.1, ?_⟩
    intro r
    exact ih r (hp.2 r)

end Emits

/-- Whatever the results are, some operation of the program satisfies `P`. -/
def Performs (P : Op → Prop) : Prog Op Res ε α → Prop
  | ret _ => False
  | raise _ => False
  | call o k => P o ∨ ∀ r, (k r).Performs P

/-- No exception leaves the program. -/
def NoRaise : Prog Op Res ε α → Prop
  | ret _ => True
  | raise _ => False
  | call _ k => ∀ r, (k r).NoRaise

theorem NoRaise.bind {p : Prog Op Res ε α} {f : α → Prog Op Res ε β} (hp : p.NoRaise)
    (hf : ∀ a, (f a).NoRaise) : (p.bind f).NoRaise := by
  induction p with
  | ret a => exact hf a
  | raise e => exact hp.elim
  | call o k ih =>
    intro r
    exact ih r (hp r)

theorem noRaise_tryCatch (p : Prog Op Res ε α) {h : ε → Prog Op Res ε α}
    (hh : ∀ e, (h e).NoRaise) : (p.tryCatch h).NoRaise := by
  induction p with
  | ret a => trivial
  | raise e => exact hh e
  | call o k ih =>
    intro r
    exact ih r

theorem noRaise_perform (o : Op) : (perform o : Prog Op Res ε (Res o)).NoRaise := fun _ => trivial

theorem noRaise_runIf {b : Bool} {p : Prog Op Res ε Unit} (h : p.NoRaise) :
    (runIf b p).NoRaise := by
  unfold runIf
  split_ifs
  · exact h
  · trivial

theorem noRaise_forEach {ι : Type} {f : ι → Prog Op Res ε Unit} (h : ∀ x, (f x).NoRaise) :
    ∀ xs, (forEach xs f).NoRaise
  | [] => trivial
  | x :: xs => (h x).bind fun _ => noRaise_forEach h xs

theorem noRaise_collect {ι : Type} {f : ι → Prog Op Res ε (Option β)} (h : ∀ x, (f x).NoRaise) :
    ∀ xs out, (collect xs out f).NoRaise
  | [], _ => trivial
  | x :: xs, _ => (h x).bind fun _ => noRaise_collect h xs _

/-! ## Running a program alone -/

section Eval

variable {Ω σ : Type} (exec : (o : Op) → Ω → σ → Res o × σ)

/-- Run a program from state `s` with no other thread in between. The `n`-th
    operation gets the external inputs `ω n`. -/
def eval : Prog Op Res ε α → (ℕ → Ω) → σ → Except ε α × σ
  | ret a, _, s => (.ok a, s)
  | raise e, _, s => (.error e, s)
  | call o k, ω, s =>
    let r := exec o (ω 0) s
    (k r.1).eval (fun n => ω (n + 1)) r.2

/-- What the operations of a program leave alone, the program leaves alone. -/
theorem eval_frame {P : Op → Prop} {γ : Type} (g : σ → γ)
    (hP : ∀ o w s, P o → g (exec o w s).2 = g s) {p : Prog Op Res ε α} (hp : p.Emits P)
    (ω : ℕ → Ω) (s : σ) : g (p.eval exec ω s).2 = g s := by
  induction p generalizing ω s with
  | ret a => rfl
  | raise e => rfl
  | call o k ih =>
    simp only [eval]
    rw [ih _ (hp.2 _), hP o _ _ hp.1]

variable {exec}

/-- Sequencing, with the same inputs at every operation. -/
theorem eval_bind (p : Prog Op Res ε α) (f : α → Prog Op Res ε β) (w : Ω) (s : σ) :
    (p.bind f).eval exec (fun _ => w) s =
      match p.eval exec (fun _ => w) s with
      | (.ok a, t) => (f a).eval exec (fun _ => w) t
      | (.error e, t) => (.error e, t) := by
  induction p generalizing s with
  | ret a => rfl
  | raise e => rfl
  | call o k ih => exact ih _ _

variable (exec) in
/-- Sequencing. The rest of the program starts at a later input. -/
theorem eval_bind_shift (p : Prog Op Res ε α) (f : α → Prog Op Res ε β) (ω : ℕ → Ω) (s : σ) :
    ∃ k, (p.bind f).eval exec ω s =
      match p.eval exec ω s with
      | (.ok a, t) => (f a).eval exec (fun n => ω (n + k)) t
      | (.error e, t) => (.error e, t) := by
  induction p generalizing ω s with
  | ret a => exact ⟨0, rfl⟩
  | raise e => exact ⟨0, rfl⟩
  | call o k ih =>
    obtain ⟨m, hm⟩ := ih _ (fun n => ω (n + 1)) (exec o (ω 0) s).2
    refine ⟨m + 1, ?_⟩
    simp only [call_bind, eval]
    rw [hm]
    rfl

/-- A sequence that returns has run both its parts. -/
theorem exists_of_eval_bind {p : Prog Op Res ε α} {f : α → Prog Op Res ε β} {ω : ℕ → Ω}
    {s t : σ} {b : β} (h : (p.bind f).eval exec ω s = (.ok b, t)) :
    ∃ a s' k, p.eval exec ω s = (.ok a, s') ∧
      (f a).eval exec (fun n => ω (n + k)) s' = (.ok b, t) := by
  obtain ⟨k, hk⟩ := eval_bind_shift exec p f ω s
  rw [h] at hk
  cases hp : p.eval exec ω s with
  | mk r s' =>
    rw [hp] at hk
    cases r with
    | ok a => exact ⟨a, s', k, rfl, hk.symm⟩
    | error e => cases hk

variable (exec) in
/-- What follows performs nothing. -/
theorem eval_bind_ret (p : Prog Op Res ε α) (b : β) (ω : ℕ → Ω) (s : σ) :
    ((p.bind fun _ => ret b).eval exec ω s).2 = (p.eval exec ω s).2 := by
  induction p generalizing ω s with
  | ret a => rfl
  | raise e => rfl
  | call o k ih => exact ih _ _ _

/-- A loop that collects, over a body that leaves the state alone. -/
theorem eval_collect {ι : Type} {f : ι → Prog Op Res ε (Option β)} {g : ι → Option β} {w : Ω}
    {s : σ} (hf : ∀ x, (f x).eval exec (fun _ => w) s = (.ok (g x), s)) (xs : List ι)
    (out : List β) :
    (collect xs out f).eval exec (fun _ => w) s = (.ok (out ++ xs.filterMap g), s) := by
  induction xs generalizing out with
  | nil => simp [collect, eval]
  | cons x xs ih =>
    simp only [collect, eval_bind, hf, ih, List.filterMap_cons]
    cases g x <;> simp

variable (exec) in
/-- Programs run alone in lockstep: if every operation of the program answers
    the same on related states and keeps them related, so does the program. -/
theorem eval_related {P : Op → Prop} (R : σ → σ → Prop)
    (hR : ∀ o w s t, P o → R s t →
      (exec o w s).1 = (exec o w t).1 ∧ R (exec o w s).2 (exec o w t).2)
    {p : Prog Op Res ε α} (hp : p.Emits P) (ω : ℕ → Ω) {s t : σ} (h : R s t) :
    (p.eval exec ω s).1 = (p.eval exec ω t).1 ∧ R (p.eval exec ω s).2 (p.eval exec ω t).2 := by
  induction p generalizing ω s t with
  | ret a => exact ⟨rfl, h⟩
  | raise e => exact ⟨rfl, h⟩
  | call o k ih =>
    obtain ⟨hr, hs⟩ := hR o (ω 0) s t hp.1 h
    simp only [eval]
    rw [hr]
    exact ih _ (hp.2 _) _ hs

end Eval

end Prog

end Interleave
