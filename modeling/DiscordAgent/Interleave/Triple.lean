import DiscordAgent.Interleave.Prog

/-!
# Rely-guarantee triples

A thread has a `Contract`: what it relies on between two of its own operations,
what it may assume when it performs one, and what each of its operations
guarantees. `Prog.wp` is the weakest precondition of a program under a contract;
it quantifies over every interference that the contract allows. `Triple` is the
Hoare triple of `wp` with one postcondition for a result and one for an
exception.

* the rules `Triple.ret`, `Triple.skip`, `Triple.op`, `Triple.bind`, `Triple.tryCatch`,
  `Triple.forEach`, `Triple.collect` and `Triple.of_emits`.
-/

namespace Interleave

/-- The two sides of a thread: `rely` and `assume` are promised by the others,
    `guar` is what each own operation does to the shared state. -/
structure Contract (Op σ : Type) where
  rely : σ → σ → Prop
  refl : ∀ s, rely s s
  trans : ∀ {s t u}, rely s t → rely t u → rely s u
  assume : Op → σ → Prop
  guar : Op → σ → σ → Prop

variable {Op : Type} {Res : Op → Type} {ε α β Ω σ : Type}
variable (exec : (o : Op) → Ω → σ → Res o × σ) (K : Contract Op σ)

/-- From `s` the program meets the guarantee at every operation and ends in a
    result and state with `Q`, under every interference that `K` allows. -/
def Prog.wp (Q : Except ε α → σ → Prop) : Prog Op Res ε α → σ → Prop
  | .ret a, s => ∀ s', K.rely s s' → Q (.ok a) s'
  | .raise e, s => ∀ s', K.rely s s' → Q (.error e) s'
  | .call o k, s => ∀ s', K.rely s s' → K.assume o s' → ∀ w,
      K.guar o s' (exec o w s').2 ∧ (k (exec o w s').1).wp Q (exec o w s').2

/-- A condition that no interference destroys. -/
def Contract.Stable (I : σ → Prop) : Prop := ∀ s s', K.rely s s' → I s → I s'

variable {K} in
theorem Contract.Stable.and {I J : σ → Prop} (hI : K.Stable I) (hJ : K.Stable J) :
    K.Stable fun s => I s ∧ J s := by
  intro s t ht hs
  exact ⟨hI s t ht hs.1, hJ s t ht hs.2⟩

variable {K} in
theorem Contract.stable_const (p : Prop) : K.Stable fun _ => p := by
  intro s t _ hp
  exact hp

/-- The operation meets the guarantee and keeps `I`. -/
def Contract.Keeps (I : σ → Prop) (o : Op) : Prop :=
  ∀ s w, I s → K.assume o s → K.guar o s (exec o w s).2 ∧ I (exec o w s).2

variable {exec K}

/-- The precondition is itself stable. -/
theorem Prog.wp_rely {Q : Except ε α → σ → Prop} {p : Prog Op Res ε α} {s t : σ}
    (h : p.wp exec K Q s) (ht : K.rely s t) : p.wp exec K Q t := by
  cases p with
  | ret a =>
    intro u hu
    exact h u (K.trans ht hu)
  | raise e =>
    intro u hu
    exact h u (K.trans ht hu)
  | call o k =>
    intro u hu
    exact h u (K.trans ht hu)

/-- A postcondition for results and one for exceptions. -/
def ends (Q : α → σ → Prop) (E : ε → σ → Prop) : Except ε α → σ → Prop
  | .ok a => Q a
  | .error e => E e

variable (exec K) in
/-- From every state with `P` the program meets its contract and ends with `Q`
    or raises with `E`. -/
def Triple (P : σ → Prop) (p : Prog Op Res ε α) (Q : α → σ → Prop) (E : ε → σ → Prop) : Prop :=
  ∀ s, P s → p.wp exec K (ends Q E) s

namespace Triple

variable {P P' : σ → Prop} {Q Q' : α → σ → Prop} {E E' : ε → σ → Prop} {p : Prog Op Res ε α}

theorem ret {a : α} (hP : K.Stable P) (h : ∀ s, P s → Q a s) :
    Triple exec K P (.ret a : Prog Op Res ε α) Q E := by
  intro s hs t ht
  exact h t (hP s t ht hs)

/-- A program that only returns keeps a stable condition. -/
theorem skip {Q : σ → Prop} (hQ : K.Stable Q) (a : α) :
    Triple exec K Q (.ret a : Prog Op Res ε α) (fun _ => Q) E := ret hQ fun _ hs => hs

/-- The same from a condition that need not be stable itself. -/
theorem ret_of {a : α} (hQ : K.Stable (Q a)) (h : ∀ s, P s → Q a s) :
    Triple exec K P (.ret a : Prog Op Res ε α) Q E := by
  intro s hs t ht
  exact hQ s t ht (h s hs)

theorem raise {e : ε} (hP : K.Stable P) (h : ∀ s, P s → E e s) :
    Triple exec K P (.raise e : Prog Op Res ε α) Q E := by
  intro s hs t ht
  exact h t (hP s t ht hs)

theorem pre (h : Triple exec K P p Q E) (hP : ∀ s, P' s → P s) : Triple exec K P' p Q E := by
  intro s hs
  exact h s (hP s hs)

theorem post (h : Triple exec K P p Q E) (hQ : ∀ a s, Q a s → Q' a s) (hE : ∀ e s, E e s → E' e s) :
    Triple exec K P p Q' E' := by
  intro s hs
  have hwp := h s hs
  clear h hs
  induction p generalizing s with
  | ret a =>
    intro t ht
    exact hQ a t (hwp t ht)
  | raise e =>
    intro t ht
    exact hE e t (hwp t ht)
  | call o k ih =>
    intro t ht ha w
    obtain ⟨hg, hwp⟩ := hwp t ht ha w
    exact ⟨hg, ih _ _ hwp⟩

/-- Where it does not matter what holds after an exception. -/
theorem anyError (h : Triple exec K P p Q E) : Triple exec K P p Q fun _ _ => True :=
  h.post (fun _ _ hs => hs) fun _ _ _ => trivial

theorem bind {f : α → Prog Op Res ε β} {M : α → σ → Prop} {Q : β → σ → Prop}
    (hp : Triple exec K P p M E) (hf : ∀ a, Triple exec K (M a) (f a) Q E) :
    Triple exec K P (p.bind f) Q E := by
  intro s hs
  have hwp := hp s hs
  clear hp hs
  induction p generalizing s with
  | ret a => exact hf a s (hwp s (K.refl s))
  | raise e => exact hwp
  | call o k ih =>
    intro t ht ha w
    obtain ⟨hg, hwp⟩ := hwp t ht ha w
    exact ⟨hg, ih _ _ hwp⟩

theorem tryCatch {h : ε → Prog Op Res ε α} {M : ε → σ → Prop} (hp : Triple exec K P p Q M)
    (hh : ∀ e, Triple exec K (M e) (h e) Q E) : Triple exec K P (p.tryCatch h) Q E := by
  intro s hs
  have hwp := hp s hs
  clear hp hs
  induction p generalizing s with
  | ret a => exact hwp
  | raise e => exact hh e s (hwp s (K.refl s))
  | call o k ih =>
    intro t ht ha w
    obtain ⟨hg, hwp⟩ := hwp t ht ha w
    exact ⟨hg, ih _ _ hwp⟩

/-- One operation between two stable conditions. -/
theorem op {o : Op} {Q : Res o → σ → Prop} {E : ε → σ → Prop} (hP : K.Stable P)
    (hQ : ∀ r, K.Stable (Q r))
    (h : ∀ s w, P s → K.assume o s → K.guar o s (exec o w s).2 ∧ Q (exec o w s).1 (exec o w s).2) :
    Triple exec K P (Prog.perform o : Prog Op Res ε (Res o)) Q E := by
  intro s hs t ht ha w
  obtain ⟨hg, hq⟩ := h t w (hP s t ht hs) ha
  refine ⟨hg, ?_⟩
  intro u hu
  exact hQ _ _ u hu hq

theorem runIf {b : Bool} {p : Prog Op Res ε Unit} {Q : Unit → σ → Prop} (hP : K.Stable P)
    (h : b = true → Triple exec K P p Q E) (hn : b = false → ∀ s, P s → Q () s) :
    Triple exec K P (Prog.runIf b p) Q E := by
  unfold Prog.runIf
  cases b with
  | true => exact h rfl
  | false => exact ret hP (hn rfl)

/-- The loop rule: `J` relates the elements still to come to the state. -/
theorem forEach {ι : Type} {f : ι → Prog Op Res ε Unit} {J : List ι → σ → Prop}
    (hend : K.Stable (J [])) (h : ∀ x xs, Triple exec K (J (x :: xs)) (f x) (fun _ => J xs) E) :
    ∀ xs, Triple exec K (J xs) (Prog.forEach xs f) (fun _ => J []) E
  | [] => ret hend fun _ hs => hs
  | x :: xs => (h x xs).bind fun _ => forEach hend h xs

/-- The loop rule for `collect`: `J` relates the elements still to come and
    what is collected so far to the state. -/
theorem collect {ι : Type} {f : ι → Prog Op Res ε (Option β)} {J : List ι → List β → σ → Prop}
    (hend : ∀ out, K.Stable (J [] out))
    (h : ∀ x xs out, Triple exec K (J (x :: xs) out) (f x) (fun y => J xs (out ++ y.toList)) E) :
    ∀ xs out, Triple exec K (J xs out) (Prog.collect xs out f) (J []) E
  | [], out => ret (hend out) fun _ hs => hs
  | x :: xs, out => (h x xs out).bind fun _ => collect hend h xs _

/-- A program all of whose operations keep `I` keeps `I`. -/
theorem of_emits {I : σ → Prop} (hI : K.Stable I)
    (hp : p.Emits (K.Keeps exec I)) :
    Triple exec K I p (fun _ => I) (fun _ => I) := by
  intro s hs
  induction p generalizing s with
  | ret a =>
    intro t ht
    exact hI s t ht hs
  | raise e =>
    intro t ht
    exact hI s t ht hs
  | call o k ih =>
    intro t ht ha w
    obtain ⟨hg, ht'⟩ := hp.1 t w (hI s t ht hs) ha
    exact ⟨hg, ih _ (hp.2 _) _ ht'⟩

end Triple

end Interleave
