import DiscordAgent.Interleave.Pool

/-!
# Operations that a program performs at most once

* `Prog.Once P`: at most one operation of the program satisfies `P`.
* `Prog.Granted G yes P`: an operation in `P` waits for one in `G` that is
  answered with `yes`; there is at most one of each.
* `Pool.once_step`, `Pool.granted_step`: what a step leaves of a thread.
-/

namespace Interleave

namespace Prog

variable {Op : Type} {Res : Op → Type} {ε α β : Type}

/-- At most one operation of the program satisfies `P`, whatever the results
    are. -/
def Once (P : Op → Prop) : Prog Op Res ε α → Prop
  | ret _ => True
  | raise _ => True
  | call o k => (P o → ∀ r, (k r).Emits fun o => ¬ P o) ∧ ∀ r, (k r).Once P

/-- The program performs at most one operation in `G`, and before it none in
    `P`. After the answer it performs at most one operation in `P`, and none if
    the answer is not `yes`. -/
def Granted (G : Op → Prop) (yes : (o : Op) → Res o → Prop) (P : Op → Prop) :
    Prog Op Res ε α → Prop
  | ret _ => True
  | raise _ => True
  | call o k => ¬ P o ∧ (¬ G o → ∀ r, (k r).Granted G yes P) ∧
      (G o → ∀ r, ((k r).Emits fun o => ¬ G o) ∧ (k r).Once P ∧
        (¬ yes o r → (k r).Emits fun o => ¬ P o))

variable {G P : Op → Prop} {yes : (o : Op) → Res o → Prop}

theorem Emits.once {p : Prog Op Res ε α} (hp : p.Emits fun o => ¬ P o) : p.Once P := by
  induction p with
  | ret a => trivial
  | raise e => trivial
  | call o k ih =>
    refine ⟨fun ho => absurd ho hp.1, ?_⟩
    intro r
    exact ih r (hp.2 r)

theorem once_call {o : Op} {k : Res o → Prog Op Res ε α}
    (hk : ∀ r, (k r).Emits fun o => ¬ P o) : (call o k).Once P := by
  constructor
  · intro _
    exact hk
  · intro r
    exact (hk r).once

theorem Emits.bind_once {p : Prog Op Res ε α} {f : α → Prog Op Res ε β}
    (hp : p.Emits fun o => ¬ P o) (hf : ∀ a, (f a).Once P) : (p.bind f).Once P := by
  induction p with
  | ret a => exact hf a
  | raise e => trivial
  | call o k ih =>
    refine ⟨fun ho => absurd ho hp.1, ?_⟩
    intro r
    exact ih r (hp.2 r)

theorem Emits.granted {p : Prog Op Res ε α} (hp : p.Emits fun o => ¬ G o ∧ ¬ P o) :
    p.Granted G yes P := by
  induction p with
  | ret a => trivial
  | raise e => trivial
  | call o k ih =>
    obtain ⟨⟨hg, hno⟩, hk⟩ := hp
    refine ⟨hno, ?_, fun ho => absurd ho hg⟩
    intro _ r
    exact ih r (hk r)

theorem Emits.bind_granted {p : Prog Op Res ε α} {f : α → Prog Op Res ε β}
    (hp : p.Emits fun o => ¬ G o ∧ ¬ P o) (hf : ∀ a, (f a).Granted G yes P) :
    (p.bind f).Granted G yes P := by
  induction p with
  | ret a => exact hf a
  | raise e => trivial
  | call o k ih =>
    obtain ⟨⟨hg, hno⟩, hk⟩ := hp
    refine ⟨hno, ?_, fun ho => absurd ho hg⟩
    intro _ r
    exact ih r (hk r)

/-- The operation that grants. -/
theorem granted_call {o : Op} {k : Res o → Prog Op Res ε α} (hno : ¬ P o) (hg : G o)
    (hk : ∀ r, (k r).Emits fun o => ¬ G o) (honce : ∀ r, (k r).Once P)
    (hyes : ∀ r, ¬ yes o r → (k r).Emits fun o => ¬ P o) : (call o k).Granted G yes P := by
  refine ⟨hno, fun ho => absurd hg ho, ?_⟩
  intro _ r
  exact ⟨hk r, honce r, hyes r⟩

end Prog

namespace Pool

variable {τ σ Op ε Ω : Type} {Res : Op → Type} {α : τ → Type} [DecidableEq τ]
variable {exec : (o : Op) → Ω → σ → Res o × σ} {c c' : Pool τ σ Op Res ε α} {t : τ} {w : Ω} {o : Op}
variable {G P : Op → Prop} {yes : (o : Op) → Res o → Prop}

theorem once_step (h : c.step exec t w = some c') (hn : c.next? t = some o)
    (hp : (c.prog t).Once P) :
    (c'.prog t).Once P ∧ (P o → (c'.prog t).Emits fun o => ¬ P o) := by
  obtain ⟨k, hc, -, hk, -⟩ := step_of_next? h hn
  rw [hc] at hp
  rw [hk]
  exact ⟨hp.2 _, fun ho => hp.1 ho _⟩

theorem granted_step (h : c.step exec t w = some c') (hn : c.next? t = some o)
    (hp : (c.prog t).Granted G yes P) :
    ¬ P o ∧ (¬ G o → (c'.prog t).Granted G yes P) ∧
      (G o → ((c'.prog t).Emits fun o => ¬ G o) ∧ (c'.prog t).Once P ∧
        (¬ yes o (exec o w c.shared).1 → (c'.prog t).Emits fun o => ¬ P o)) := by
  obtain ⟨k, hc, -, hk, -⟩ := step_of_next? h hn
  rw [hc] at hp
  rw [hk]
  exact ⟨hp.1, fun ho => hp.2.1 ho _, fun ho => hp.2.2 ho _⟩

end Pool

end Interleave
