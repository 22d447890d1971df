import Mathlib.Logic.Function.Basic
import DiscordAgent.Interleave.Triple

/-!
# Pools of threads

A pool is a shared state and one program per thread. A step of the pool lets
one thread perform its next operation.

* `Pool.step_cases`: what a step does.
* `Pool.emits_step`: a step keeps what every thread is limited to.
* `Pool.noRaise_step`: a step keeps a thread free of exceptions.
* `Pool.performs_step`: a step keeps what a thread still has to perform.
* `Pool.wp_self` and `Pool.wp_other`: a step keeps the precondition of a thread,
  and its own steps meet its guarantee.
-/

namespace Interleave

/-- The shared state and the rest of every thread's program. -/
structure Pool (τ σ Op : Type) (Res : Op → Type) (ε : Type) (α : τ → Type) where
  shared : σ
  prog : (t : τ) → Prog Op Res ε (α t)

namespace Pool

variable {τ σ Op ε Ω : Type} {Res : Op → Type} {α : τ → Type} [DecidableEq τ]
variable (exec : (o : Op) → Ω → σ → Res o × σ)

/-- Load a program into thread `t`. -/
def load (c : Pool τ σ Op Res ε α) (t : τ) (p : Prog Op Res ε (α t)) : Pool τ σ Op Res ε α :=
  { c with prog := Function.update c.prog t p }

/-- The operation that thread `t` performs next. -/
def next? (c : Pool τ σ Op Res ε α) (t : τ) : Option Op :=
  match c.prog t with
  | .call o _ => some o
  | _ => none

/-- Thread `t` performs its next operation with the external inputs `w`. -/
def step (c : Pool τ σ Op Res ε α) (t : τ) (w : Ω) : Option (Pool τ σ Op Res ε α) :=
  match c.prog t with
  | .call o k =>
    let r := exec o w c.shared
    some { shared := r.2, prog := Function.update c.prog t (k r.1) }
  | _ => none

variable {exec} {c c' : Pool τ σ Op Res ε α} {t : τ} {w : Ω}

/-- What one step does: the operation changes the shared state, the thread
    goes on with the result, the other threads stay where they are. -/
theorem step_cases (h : c.step exec t w = some c') :
    ∃ o k, c.prog t = .call o k ∧ c.next? t = some o ∧
      c'.shared = (exec o w c.shared).2 ∧ c'.prog t = k (exec o w c.shared).1 ∧
      ∀ u, u ≠ t → c'.prog u = c.prog u := by
  unfold step at h
  split at h
  · next o k hp =>
    cases h
    refine ⟨o, k, hp, by rw [next?, hp], rfl, by simp, ?_⟩
    intro u hu
    simp [Function.update_of_ne hu]
  · cases h

/-- The same, for the operation that the thread performs next. -/
theorem step_of_next? {o : Op} (h : c.step exec t w = some c') (hn : c.next? t = some o) :
    ∃ k, c.prog t = .call o k ∧ c'.shared = (exec o w c.shared).2 ∧
      c'.prog t = k (exec o w c.shared).1 ∧ ∀ u, u ≠ t → c'.prog u = c.prog u := by
  obtain ⟨o', k, hc, hn', hrest⟩ := step_cases h
  rw [hn] at hn'
  cases hn'
  exact ⟨k, hc, hrest⟩

theorem shared_step {o : Op} (h : c.step exec t w = some c') (hn : c.next? t = some o) :
    c'.shared = (exec o w c.shared).2 := by
  obtain ⟨-, -, hshared, -⟩ := step_of_next? h hn
  exact hshared

omit [DecidableEq τ] in
theorem exists_of_next? {o : Op} (h : c.next? t = some o) : ∃ k, c.prog t = .call o k := by
  unfold next? at h
  split at h
  · next o' k hp =>
    cases h
    exact ⟨k, hp⟩
  · cases h

/-- A thread that has a next operation can perform it. -/
theorem exists_step {o : Op} (h : c.next? t = some o) (w : Ω) :
    ∃ c', c.step exec t w = some c' := by
  obtain ⟨k, hp⟩ := exists_of_next? h
  unfold step
  rw [hp]
  exact ⟨_, rfl⟩

omit [DecidableEq τ] in
theorem of_next? {P : Op → Prop} {o : Op} (he : (c.prog t).Emits P) (h : c.next? t = some o) :
    P o := by
  obtain ⟨k, hp⟩ := exists_of_next? h
  rw [hp] at he
  exact he.1

/-- A step keeps what every thread is limited to. -/
theorem emits_step {P : Op → Prop} {u : τ} (h : c.step exec t w = some c')
    (he : (c.prog u).Emits P) : (c'.prog u).Emits P := by
  obtain ⟨o, k, hp, -, -, hk, hother⟩ := step_cases h
  by_cases hu : u = t
  · subst hu
    rw [hp] at he
    rw [hk]
    exact he.2 _
  · rw [hother u hu]
    exact he

theorem noRaise_step {u : τ} (h : c.step exec t w = some c') (he : (c.prog u).NoRaise) :
    (c'.prog u).NoRaise := by
  obtain ⟨o, k, hp, -, -, hk, hother⟩ := step_cases h
  by_cases hu : u = t
  · subst hu
    rw [hp] at he
    rw [hk]
    exact he _
  · rw [hother u hu]
    exact he

/-- A step of a thread that is to perform `P` is such an operation, or leaves it
    to be performed. -/
theorem performs_step {P : Op → Prop} {o : Op} (h : c.step exec t w = some c')
    (hn : c.next? t = some o) (hp : (c.prog t).Performs P) : P o ∨ (c'.prog t).Performs P := by
  obtain ⟨k, hc, -, hk, -⟩ := step_of_next? h hn
  rw [hc] at hp
  rw [hk]
  exact hp.imp_right fun hp => hp _

section Contract

variable {K : Contract Op σ} {Q : Except ε (α t) → σ → Prop}

/-- A step of another thread that `K` allows. -/
theorem wp_other {u : τ} (hu : u ≠ t) (h : c.step exec u w = some c')
    (hr : K.rely c.shared c'.shared) (hp : (c.prog t).wp exec K Q c.shared) :
    (c'.prog t).wp exec K Q c'.shared := by
  obtain ⟨o, k, -, -, -, -, hother⟩ := step_cases h
  rw [hother t (Ne.symm hu)]
  exact Prog.wp_rely hp hr

/-- An own step, from a state that `K` lets the thread assume. -/
theorem wp_self (h : c.step exec t w = some c')
    (ha : ∀ o, c.next? t = some o → K.assume o c.shared) (hp : (c.prog t).wp exec K Q c.shared) :
    (c'.prog t).wp exec K Q c'.shared ∧
      ∀ o, c.next? t = some o → K.guar o c.shared c'.shared := by
  obtain ⟨o, k, hc, hn, hs, hk, -⟩ := step_cases h
  rw [hc] at hp
  obtain ⟨hg, hp'⟩ := hp c.shared (K.refl _) (ha o hn) w
  rw [← hs] at hg hp'
  constructor
  · rw [hk]
    exact hp'
  · intro o' ho'
    rw [hn] at ho'
    cases ho'
    exact hg

end Contract

@[simp] theorem load_prog_self (c : Pool τ σ Op Res ε α) (t : τ) (p : Prog Op Res ε (α t)) :
    (c.load t p).prog t = p := by simp [load]

theorem load_prog_of_ne (c : Pool τ σ Op Res ε α) {t u : τ} (p : Prog Op Res ε (α t))
    (h : u ≠ t) : (c.load t p).prog u = c.prog u := by simp [load, Function.update_of_ne h]

@[simp] theorem load_shared (c : Pool τ σ Op Res ε α) (t : τ) (p : Prog Op Res ε (α t)) :
    (c.load t p).shared = c.shared := rfl

end Pool

end Interleave
