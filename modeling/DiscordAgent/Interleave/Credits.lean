import Mathlib.Data.Finsupp.Weight

/-!
# Credits

Amortised bounds. Every holder has a credit, only finitely many of them a positive
one, and what a machine does is paid for out of the credits. The sum of all credits
bounds what is still to come.

* `Credits.pay`: one holder gives up its credit and another one gets a new one.
* `Credits.total_pay`: what a payment does to the sum.
* `Credits.ofList`: the credits that a list hands out.
-/

namespace Interleave

/-- The credit of every holder. -/
abbrev Credits (ι : Type) := ι →₀ ℕ

namespace Credits

variable {ι : Type} {f : Credits ι} {x z : ι} {k : ℕ}

/-- The sum of all credits. -/
noncomputable def total (f : Credits ι) : ℕ := f.degree

/-- `x` gives up its credit, and `k` is added to the credit of `y`. -/
noncomputable def pay (f : Credits ι) (x y : ι) (k : ℕ) : Credits ι :=
  f.erase x + Finsupp.single y k

theorem total_pay (f : Credits ι) (x y : ι) (k : ℕ) :
    (f.pay x y k).total + f x = f.total + k := by
  have hsplit : f.total = f x + (f.erase x).degree := by
    conv_lhs => rw [← Finsupp.single_add_erase x f]
    rw [total, map_add, Finsupp.degree_single]
  rw [pay, total, map_add, Finsupp.degree_single, hsplit]
  omega

theorem le_pay_self (f : Credits ι) (x y : ι) (k : ℕ) : k ≤ f.pay x y k y := by simp [pay]

theorem le_pay_of_ne (h : z ≠ x) (y : ι) (k : ℕ) : f z ≤ f.pay x y k z := by
  simp [pay, Finsupp.erase_ne h]

/-- Every pair of the list adds to the credit of its holder. -/
noncomputable def ofList (l : List (ι × ℕ)) : Credits ι :=
  (l.map fun p => Finsupp.single p.1 p.2).sum

theorem total_ofList (l : List (ι × ℕ)) : (ofList l).total = (l.map Prod.snd).sum := by
  unfold total ofList
  induction l with
  | nil => simp
  | cons p l ih =>
    rw [List.map_cons, List.sum_cons, map_add, Finsupp.degree_single, ih, List.map_cons,
      List.sum_cons]

theorem le_ofList {l : List (ι × ℕ)} (h : (x, k) ∈ l) : k ≤ ofList l x := by
  have hle : Finsupp.single x k ≤ ofList l :=
    List.single_le_sum (fun f _ => zero_le (a := f)) _ (List.mem_map_of_mem h)
  have hx := hle x
  rwa [Finsupp.single_eq_same] at hx

end Credits

end Interleave
