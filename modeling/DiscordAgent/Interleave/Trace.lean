import DiscordAgent.Interleave.Pool

/-!
# Traces of a program

A trace lists the operations that a program has performed, each with its
answer. The answers are arbitrary, so the traces of a program are its runs
against every environment and every interference.

* `Prog.Reaches o`: after the trace the program performs `o`.
* `Prog.Ends x`: after the trace the program has ended with `x`.
* `Prog.reaches_bind`: where an operation of a composed program comes from.
* `Pool.ends_step`: a step of a thread is the first entry of its trace.
-/

namespace Interleave

namespace Prog

variable {Op : Type} {Res : Op → Type} {ε α β : Type}

/-- After the trace `es` the next operation is `o`. -/
def Reaches (o : Op) : Prog Op Res ε α → List ((o : Op) × Res o) → Prop
  | ret _, _ => False
  | raise _, _ => False
  | call o' _, [] => o = o'
  | call o' k, e :: es => ∃ r, e = ⟨o', r⟩ ∧ (k r).Reaches o es

/-- After the trace `es` the program has ended with `x`. -/
def Ends (x : Except ε α) : Prog Op Res ε α → List ((o : Op) × Res o) → Prop
  | ret a, es => es = [] ∧ x = .ok a
  | raise e, es => es = [] ∧ x = .error e
  | call _ _, [] => False
  | call o k, e :: es => ∃ r, e = ⟨o, r⟩ ∧ (k r).Ends x es

variable {o o' : Op} {es : List ((o : Op) × Res o)} {p : Prog Op Res ε α}

theorem Reaches.of_emits {P : Op → Prop} (h : p.Reaches o es) (hp : p.Emits P) : P o := by
  induction p generalizing es with
  | ret a => exact h.elim
  | raise e => exact h.elim
  | call o' k ih =>
    cases es with
    | nil =>
      have ho : o = o' := h
      rw [ho]
      exact hp.1
    | cons e es =>
      obtain ⟨r, -, hr⟩ := h
      exact ih r hr (hp.2 r)

theorem ends_perform {r : Res o} (h : (perform o : Prog Op Res ε (Res o)).Ends (.ok r) es) :
    es = [⟨o, r⟩] := by
  cases es with
  | nil => exact h.elim
  | cons e es =>
    obtain ⟨r', rfl, rfl, hr⟩ := h
    cases hr
    rfl

theorem reaches_perform (h : (perform o' : Prog Op Res ε (Res o')).Reaches o es) :
    o = o' ∧ es = [] := by
  cases es with
  | nil => exact ⟨h, rfl⟩
  | cons e es =>
    obtain ⟨r, -, hr⟩ := h
    exact hr.elim

/-- An operation of `p; f` is one of `p`, or one of `f` after the end of `p`. -/
theorem reaches_bind {f : α → Prog Op Res ε β} (h : (p.bind f).Reaches o es) :
    p.Reaches o es ∨
      ∃ a es₁ es₂, es = es₁ ++ es₂ ∧ p.Ends (.ok a) es₁ ∧ (f a).Reaches o es₂ := by
  induction p generalizing es with
  | ret a => exact .inr ⟨a, [], es, rfl, ⟨rfl, rfl⟩, h⟩
  | raise e => exact h.elim
  | call o' k ih =>
    cases es with
    | nil => exact .inl h
    | cons e es =>
      obtain ⟨r, rfl, hr⟩ := h
      rcases ih r hr with hp | ⟨a, es₁, es₂, rfl, hp, hf⟩
      · exact .inl ⟨r, rfl, hp⟩
      · exact .inr ⟨a, ⟨o', r⟩ :: es₁, es₂, rfl, ⟨r, rfl, hp⟩, hf⟩

/-- The end of `p; f`. -/
theorem ends_bind {f : α → Prog Op Res ε β} {b : β} (h : (p.bind f).Ends (.ok b) es) :
    ∃ a es₁ es₂, es = es₁ ++ es₂ ∧ p.Ends (.ok a) es₁ ∧ (f a).Ends (.ok b) es₂ := by
  induction p generalizing es with
  | ret a => exact ⟨a, [], es, rfl, ⟨rfl, rfl⟩, h⟩
  | raise e => cases h.2
  | call o' k ih =>
    cases es with
    | nil => exact h.elim
    | cons e es =>
      obtain ⟨r, rfl, hr⟩ := h
      obtain ⟨a, es₁, es₂, rfl, hp, hf⟩ := ih r hr
      exact ⟨a, ⟨o', r⟩ :: es₁, es₂, rfl, ⟨r, rfl, hp⟩, hf⟩

/-- The end of `try p except: f`. -/
theorem ends_tryCatch {f : ε → Prog Op Res ε α} {a : α} (h : (p.tryCatch f).Ends (.ok a) es) :
    p.Ends (.ok a) es ∨
      ∃ e es₁ es₂, es = es₁ ++ es₂ ∧ p.Ends (.error e) es₁ ∧ (f e).Ends (.ok a) es₂ := by
  induction p generalizing es with
  | ret b => exact .inl h
  | raise e => exact .inr ⟨e, [], es, rfl, ⟨rfl, rfl⟩, h⟩
  | call o' k ih =>
    cases es with
    | nil => exact h.elim
    | cons e es =>
      obtain ⟨r, rfl, hr⟩ := h
      rcases ih r hr with hp | ⟨x, es₁, es₂, rfl, hp, hf⟩
      · exact .inl ⟨r, rfl, hp⟩
      · exact .inr ⟨x, ⟨o', r⟩ :: es₁, es₂, rfl, ⟨r, rfl, hp⟩, hf⟩

end Prog

namespace Pool

variable {τ σ Op ε Ω : Type} {Res : Op → Type} {α : τ → Type} [DecidableEq τ]
  {exec : (o : Op) → Ω → σ → Res o × σ} {c c' : Pool τ σ Op Res ε α} {t : τ} {w : Ω} {o : Op}

/-- A trace of the thread after its step, with the step before it. -/
theorem ends_step (h : c.step exec t w = some c') (hn : c.next? t = some o)
    {x : Except ε (α t)} {es : List ((o : Op) × Res o)} (he : (c'.prog t).Ends x es) :
    (c.prog t).Ends x (⟨o, (exec o w c.shared).1⟩ :: es) := by
  obtain ⟨k, hc, -, hk, -⟩ := step_of_next? h hn
  rw [hc]
  rw [hk] at he
  exact ⟨_, rfl, he⟩

end Pool

end Interleave
