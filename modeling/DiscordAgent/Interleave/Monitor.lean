import DiscordAgent.Interleave.Pool

/-!
# Monitors

A monitor reads the operations of one thread together with their answers. What
it allows next and where it goes depends on its own state only, so following a
monitor is a fact about the text of a program; what the monitor state says about
the shared state is left to an invariant over steps.

* `Prog.Follows M Q E`: whatever the answers are, within what `M.answers` says
  of them, the monitor allows every operation, and the program ends in a monitor
  state with `Q` or raises in one with `E`.
* the rules `Follows.bind`, `Follows.tryCatch`, `Follows.returns`, `follows_forEach`,
  `follows_collect` and `follows_of_emits`.
* `Prog.Returns`: what a program returns.
* `Pool.follows_step`: a step of the thread moves the monitor.
* `Pool.follows_of_ended`: a thread that has ended needs no monitor.
-/

namespace Interleave

/-- An observer of the operations of a program. -/
structure Monitor (Op : Type) (Res : Op → Type) (μ : Type) where
  /-- What is known of every answer. -/
  answers : (o : Op) → Res o → Prop
  ok : μ → Op → Prop
  next : μ → (o : Op) → Res o → μ

variable {Op : Type} {Res : Op → Type} {ε α β μ : Type} {M : Monitor Op Res μ}

namespace Prog

/-- The monitor allows every operation of the program. -/
def Follows (M : Monitor Op Res μ) (Q : α → μ → Prop) (E : ε → μ → Prop) :
    Prog Op Res ε α → μ → Prop
  | ret a, m => Q a m
  | raise e, m => E e m
  | call o k, m => M.ok m o ∧ ∀ r, M.answers o r → (k r).Follows M Q E (M.next m o r)

variable {Q Q' : α → μ → Prop} {E E' : ε → μ → Prop} {p : Prog Op Res ε α} {m : μ}

theorem Follows.mono (h : p.Follows M Q E m) (hQ : ∀ a m, Q a m → Q' a m)
    (hE : ∀ e m, E e m → E' e m) : p.Follows M Q' E' m := by
  induction p generalizing m with
  | ret a => exact hQ a m h
  | raise e => exact hE e m h
  | call o k ih =>
    refine ⟨h.1, ?_⟩
    intro r hr
    exact ih r (h.2 r hr)

theorem follows_perform {o : Op} {Q : Res o → μ → Prop} (ho : M.ok m o)
    (hQ : ∀ r, M.answers o r → Q r (M.next m o r)) :
    (perform o : Prog Op Res ε (Res o)).Follows M Q E m := ⟨ho, hQ⟩

theorem Follows.bind {f : α → Prog Op Res ε β} {R : α → μ → Prop} {Q : β → μ → Prop}
    (h : p.Follows M R E m) (hf : ∀ a m, R a m → (f a).Follows M Q E m) :
    (p.bind f).Follows M Q E m := by
  induction p generalizing m with
  | ret a => exact hf a m h
  | raise e => exact h
  | call o k ih =>
    refine ⟨h.1, ?_⟩
    intro r hr
    exact ih r (h.2 r hr)

theorem Follows.tryCatch {f : ε → Prog Op Res ε α} {R : ε → μ → Prop}
    (h : p.Follows M Q R m) (hf : ∀ e m, R e m → (f e).Follows M Q E m) :
    (p.tryCatch f).Follows M Q E m := by
  induction p generalizing m with
  | ret a => exact h
  | raise e => exact hf e m h
  | call o k ih =>
    refine ⟨h.1, ?_⟩
    intro r hr
    exact ih r (h.2 r hr)

/-- The loop rule: `J` relates the elements still to come to the monitor. -/
theorem follows_forEach {ι : Type} {f : ι → Prog Op Res ε Unit} {J : List ι → μ → Prop}
    (h : ∀ x xs m, J (x :: xs) m → (f x).Follows M (fun _ => J xs) E m) :
    ∀ xs m, J xs m → (forEach xs f).Follows M (fun _ => J []) E m
  | [], _, hJ => hJ
  | x :: xs, m, hJ => (h x xs m hJ).bind fun _ m hm => follows_forEach h xs m hm

/-- The loop rule for `collect`: `J` speaks of the elements still to come and of those
    collected so far. -/
theorem follows_collect_out {ι : Type} {f : ι → Prog Op Res ε (Option β)}
    {J : List ι → List β → μ → Prop}
    (h : ∀ x xs out m, J (x :: xs) out m →
      (f x).Follows M (fun y => J xs (out ++ y.toList)) E m) :
    ∀ xs out m, J xs out m → (collect xs out f).Follows M (J []) E m
  | [], _, _, hJ => hJ
  | x :: xs, out, m, hJ =>
    (h x xs out m hJ).bind fun y m hm => follows_collect_out h xs (out ++ y.toList) m hm

/-- The loop rule for `collect`. -/
theorem follows_collect {ι : Type} {f : ι → Prog Op Res ε (Option β)} {J : List ι → μ → Prop}
    (h : ∀ x xs m, J (x :: xs) m → (f x).Follows M (fun _ => J xs) E m) (xs : List ι)
    (out : List β) (m : μ) (hJ : J xs m) : (collect xs out f).Follows M (fun _ => J []) E m :=
  follows_collect_out (J := fun xs _ => J xs) (fun x xs _ m hJ => h x xs m hJ) xs out m hJ

theorem follows_runIf {b : Bool} {p : Prog Op Res ε Unit} {Q : Unit → μ → Prop}
    (h : b = true → p.Follows M Q E m) (hn : Q () m) : (runIf b p).Follows M Q E m := by
  unfold runIf
  cases b with
  | true => exact h rfl
  | false => exact hn

/-- Every value that the program returns satisfies `P`. -/
def Returns (P : α → Prop) : Prog Op Res ε α → Prop
  | ret a => P a
  | raise _ => True
  | call _ k => ∀ r, (k r).Returns P

theorem returns_of {P : α → Prop} (p : Prog Op Res ε α) (h : ∀ a, P a) : p.Returns P := by
  induction p with
  | ret a => exact h a
  | raise e => trivial
  | call o k ih =>
    intro r
    exact ih r

theorem returns_bind {P : β → Prop} {f : α → Prog Op Res ε β} (p : Prog Op Res ε α)
    (hf : ∀ a, (f a).Returns P) : (p.bind f).Returns P := by
  induction p with
  | ret a => exact hf a
  | raise e => trivial
  | call o k ih =>
    intro r
    exact ih r

theorem Follows.returns {P : α → Prop} (h : p.Follows M Q E m) (hp : p.Returns P) :
    p.Follows M (fun a m => Q a m ∧ P a) E m := by
  induction p generalizing m with
  | ret a => exact ⟨h, hp⟩
  | raise e => exact h
  | call o k ih =>
    refine ⟨h.1, ?_⟩
    intro r hr
    exact ih r (h.2 r hr) (hp r)

/-- Operations that keep the monitor within `I`. -/
theorem follows_of_emits {P : Op → Prop} {I : μ → Prop} (hp : p.Emits P)
    (h : ∀ o m, P o → I m → M.ok m o ∧ ∀ r, M.answers o r → I (M.next m o r)) (hm : I m) :
    p.Follows M (fun _ => I) (fun _ => I) m := by
  induction p generalizing m with
  | ret a => exact hm
  | raise e => exact hm
  | call o k ih =>
    obtain ⟨hok, hnext⟩ := h o m hp.1 hm
    refine ⟨hok, ?_⟩
    intro r hr
    exact ih r (hp.2 r) (hnext r hr)

end Prog

namespace Pool

variable {τ σ Ω : Type} {α : τ → Type} [DecidableEq τ] {exec : (o : Op) → Ω → σ → Res o × σ}
  {c c' : Pool τ σ Op Res ε α} {t : τ} {w : Ω} {o : Op} {Q : α t → μ → Prop} {E : ε → μ → Prop}
  {m : μ}

/-- The operation is allowed, and the rest of the thread follows the monitor
    from its next state. -/
theorem follows_step (h : c.step exec t w = some c') (hn : c.next? t = some o)
    (ha : M.answers o (exec o w c.shared).1) (hp : (c.prog t).Follows M Q E m) :
    M.ok m o ∧ (c'.prog t).Follows M Q E (M.next m o (exec o w c.shared).1) := by
  obtain ⟨k, hc, -, hk, -⟩ := step_of_next? h hn
  rw [hc] at hp
  rw [hk]
  exact ⟨hp.1, hp.2 _ ha⟩

theorem returns_step {P : α t → Prop} {u : τ} (h : c.step exec u w = some c')
    (hp : (c.prog t).Returns P) : (c'.prog t).Returns P := by
  obtain ⟨o, k, hc, -, -, hk, hother⟩ := step_cases h
  by_cases hu : t = u
  · subst hu
    rw [hc] at hp
    rw [hk]
    exact hp _
  · rw [hother t hu]
    exact hp

omit [DecidableEq τ] in
/-- A thread that has ended follows every monitor. -/
theorem follows_of_ended (h : c.next? t = none) (M : Monitor Op Res μ) (m : μ) :
    (c.prog t).Follows M (fun _ _ => True) (fun _ _ => True) m := by
  unfold next? at h
  cases hc : c.prog t with
  | call o k =>
    rw [hc] at h
    cases h
  | _ => trivial

end Pool

end Interleave
