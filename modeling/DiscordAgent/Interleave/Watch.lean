import DiscordAgent.Interleave.Run

/-!
# History variables

A property about a whole run often speaks of what has happened so far, which no
state of the machine holds. `watch` adds a variable that records it: a step of
the watched machine is a step of the machine, and the variable is updated from
the state before the step and the event.

* `watch_step`: a watched step is a step.
* `Run.watch_invariant`: the invariant rule.
* `Run.watched`: the variable restricts no run.
* `Run.forget`: a watched run is a run.
-/

namespace Interleave

variable {σ η γ : Type} {step : σ → η → Option σ} {f : σ → η → γ → γ}

/-- The machine with a variable that `f` updates at every step. -/
def watch (step : σ → η → Option σ) (f : σ → η → γ → γ) (s : σ × γ) (e : η) : Option (σ × γ) :=
  (step s.1 e).map fun t => (t, f s.1 e s.2)

theorem watch_step {s s' : σ × γ} {e : η} (h : watch step f s e = some s') :
    step s.1 e = some s'.1 ∧ s'.2 = f s.1 e s.2 := by
  unfold watch at h
  obtain ⟨t, ht, hs⟩ := Option.map_eq_some_iff.mp h
  rw [← hs]
  exact ⟨ht, rfl⟩

namespace Run

/-- The invariant rule of a watched machine. -/
theorem watch_invariant {I : σ → γ → Prop} {ok : σ × γ → η → Prop} {s t : σ × γ}
    (h : Run (watch step f) ok s t)
    (hstep : ∀ s g e t, I s g → ok (s, g) e → step s e = some t → I t (f s e g))
    (hs : I s.1 s.2) : I t.1 t.2 := by
  refine h.invariant (I := fun s => I s.1 s.2) ?_ hs
  intro s e t hi hok he
  obtain ⟨ht, hg⟩ := watch_step he
  rw [hg]
  exact hstep s.1 s.2 e t.1 hi hok ht

/-- Every run can be watched. -/
theorem watched {ok : σ → η → Prop} {s t : σ} (h : Run step ok s t) (g : γ) :
    ∃ g', Run (watch step f) (fun s e => ok s.1 e) (s, g) (t, g') := by
  induction h with
  | refl => exact ⟨g, refl _⟩
  | @tail u v _ he ih =>
    obtain ⟨e, ho, he⟩ := he
    obtain ⟨g', hg⟩ := ih
    refine ⟨f u e g', hg.tail (u := (v, f u e g')) (e := e) ho ?_⟩
    unfold watch
    rw [he]
    rfl

/-- The run without its history. -/
theorem forget {ok : σ × γ → η → Prop} {ok' : σ → η → Prop} {s t : σ × γ}
    (h : Run (watch step f) ok s t) (hok : ∀ s e, ok s e → ok' s.1 e) :
    Run step ok' s.1 t.1 := by
  induction h with
  | refl => exact refl _
  | tail _ he ih =>
    obtain ⟨e, ho, he⟩ := he
    exact ih.tail (hok _ e ho) (watch_step he).1

end Run

end Interleave
