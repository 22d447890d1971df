import Mathlib.Logic.Relation
import Mathlib.Tactic.SplitIfs

/-!
# Runs

A machine is a partial step function on states and events. A run is a chain of
steps each of which meets a condition `ok` on the state it starts from and its
event.

* `Run.invariant`: what holds at the start and is kept by every step holds at
  the end of every run.
* `Run.of_runList`: executing a list of events with `runList` is a run.
-/

namespace Interleave

variable {σ η : Type} {step : σ → η → Option σ} {ok ok' : σ → η → Prop} {s t u : σ}

/-- `t` is reached from `s` by steps that meet `ok`. -/
def Run (step : σ → η → Option σ) (ok : σ → η → Prop) : σ → σ → Prop :=
  Relation.ReflTransGen fun s t => ∃ e, ok s e ∧ step s e = some t

namespace Run

theorem refl (s : σ) : Run step ok s s := Relation.ReflTransGen.refl

theorem tail {e : η} (h : Run step ok s t) (ho : ok t e) (he : step t e = some u) :
    Run step ok s u := Relation.ReflTransGen.tail h ⟨e, ho, he⟩

theorem mono (h : Run step ok s t) (hok : ∀ s e, ok s e → ok' s e) : Run step ok' s t := by
  induction h with
  | refl => exact refl s
  | tail _ he ih =>
    obtain ⟨e, ho, he⟩ := he
    exact ih.tail (hok _ e ho) he

/-- The invariant rule. -/
theorem invariant {I : σ → Prop} (hstep : ∀ s e t, I s → ok s e → step s e = some t → I t)
    (h : Run step ok s t) (hs : I s) : I t := by
  induction h with
  | refl => exact hs
  | tail _ he ih =>
    obtain ⟨e, ho, he⟩ := he
    exact hstep _ e _ ih ho he

end Run

/-- Execute a list of events, checking `ok` before each. -/
def runList (step : σ → η → Option σ) (ok : σ → η → Bool) (s : σ) : List η → Option σ
  | [] => some s
  | e :: es => if ok s e then (step s e).bind fun t => runList step ok t es else none

theorem Run.of_runList {b : σ → η → Bool} {es : List η} (h : runList step b s es = some t) :
    Run step (fun s e => b s e = true) s t := by
  induction es generalizing s with
  | nil =>
    cases h
    exact Run.refl _
  | cons e es ih =>
    simp only [runList] at h
    split_ifs at h with hb
    obtain ⟨u, hu, hes⟩ := Option.bind_eq_some_iff.mp h
    exact Relation.ReflTransGen.head ⟨e, hb, hu⟩ (ih hes)

/-- A run from a list of events to a state that passes a test. -/
theorem Run.exists_of_runList {b : σ → η → Bool} {es : List η} {p : σ → Bool}
    (h : (runList step b s es).any p = true) :
    ∃ t, Run step (fun s e => b s e = true) s t ∧ p t = true := by
  cases hr : runList step b s es with
  | none =>
    rw [hr] at h
    cases h
  | some t =>
    rw [hr] at h
    exact ⟨t, Run.of_runList hr, h⟩

end Interleave
