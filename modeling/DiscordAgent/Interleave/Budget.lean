import DiscordAgent.Interleave.Monitor

/-!
# How many operations a program performs

A budget is a monitor that counts down. A program that follows it from `n` performs
at most `n` operations, whatever the answers are within what is known of them.

* `Prog.Within known k`: the program performs at most `k` operations.
* the rules `Within.bind`, `Within.tryCatch` and `within_collect`.
-/

namespace Interleave

variable {Op : Type} {Res : Op → Type} {ε α β : Type}

/-- The monitor that allows as many operations as its state says. -/
def budget (known : (o : Op) → Res o → Prop) : Monitor Op Res ℕ where
  answers := known
  ok n _ := 0 < n
  next n _ _ := n - 1

namespace Prog

variable {known : (o : Op) → Res o → Prop} {k l : ℕ} {p : Prog Op Res ε α}

/-- The program performs at most `k` operations: of a budget of `m + k` it leaves `m`. -/
def Within (known : (o : Op) → Res o → Prop) (k : ℕ) (p : Prog Op Res ε α) : Prop :=
  ∀ m, p.Follows (budget known) (fun _ n => m ≤ n) (fun _ n => m ≤ n) (m + k)

theorem Within.mono (h : p.Within known k) (hkl : k ≤ l) : p.Within known l := by
  intro m
  have hm := h (m + (l - k))
  rw [show m + (l - k) + k = m + l by omega] at hm
  exact hm.mono (fun _ n hn => by omega) fun _ n hn => by omega

/-- The same with a budget that is larger than needed. -/
theorem Within.of_le (h : p.Within known k) {m n : ℕ} (hn : m + k ≤ n) :
    p.Follows (budget known) (fun _ n => m ≤ n) (fun _ n => m ≤ n) n := by
  have hm := h (n - k)
  rw [show n - k + k = n by omega] at hm
  exact hm.mono (fun _ n' hn' => by omega) fun _ n' hn' => by omega

theorem within_ret (k : ℕ) (a : α) : (ret a : Prog Op Res ε α).Within known k :=
  fun m => Nat.le_add_right m k

theorem within_raise (k : ℕ) (e : ε) : (raise e : Prog Op Res ε α).Within known k :=
  fun m => Nat.le_add_right m k

theorem within_call {o : Op} {f : Res o → Prog Op Res ε α}
    (h : ∀ r, known o r → (f r).Within known k) : (call o f).Within known (k + 1) := by
  intro m
  refine ⟨Nat.succ_pos _, ?_⟩
  intro r hr
  exact h r hr m

theorem within_perform (o : Op) : (perform o : Prog Op Res ε (Res o)).Within known 1 :=
  within_call fun r _ => within_ret 0 r

theorem Within.bind {f : α → Prog Op Res ε β} (hp : p.Within known k)
    (hf : ∀ a, (f a).Within known l) : (p.bind f).Within known (k + l) := by
  intro m
  have hm := hp (m + l)
  rw [show m + l + k = m + (k + l) by omega] at hm
  exact (hm.mono (fun _ _ h => h) fun _ n hn => by omega).bind fun a n hn => (hf a).of_le hn

theorem Within.tryCatch {f : ε → Prog Op Res ε α} (hp : p.Within known k)
    (hf : ∀ e, (f e).Within known l) : (p.tryCatch f).Within known (k + l) := by
  intro m
  have hm := hp (m + l)
  rw [show m + l + k = m + (k + l) by omega] at hm
  exact (hm.mono (fun _ n hn => by omega) fun _ _ h => h).tryCatch fun e n hn => (hf e).of_le hn

theorem within_collect {ι : Type} {f : ι → Prog Op Res ε (Option β)}
    (h : ∀ x, (f x).Within known k) :
    ∀ xs out, (collect xs out f).Within known (k * xs.length)
  | [], out => within_ret _ out
  | x :: xs, out => by
    rw [List.length_cons, Nat.mul_succ, Nat.add_comm]
    exact (h x).bind fun _ => within_collect h xs _

end Prog

end Interleave
