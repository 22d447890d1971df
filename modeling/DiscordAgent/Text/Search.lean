import Mathlib.Data.List.Infix
import Mathlib.Tactic.SplitIfs

/-!
# Substring search

`str.find` and `str.rfind` on lists, and where a pattern can occur in a text that
is put together from pieces.

* `find`, `rfind`: the first and the last occurrence.
* `find_eq`, `rfind_eq`: a search in a text of which the place of the first or
  the last occurrence is known; `exists_first`, `exists_last`: there is one.
* `infix_sep_iff`: a pattern does not straddle an element that it lacks.
* `infix_tail_append_iff`: a pattern without borders does not overlap itself.
-/

namespace Text

variable {α : Type} {pat : List α}

/-! ## Where a pattern occurs -/

theorem infix_cons_iff {c : α} {t : List α} (hne : pat ≠ []) (hc : c ∉ pat) :
    pat <:+: c :: t ↔ pat <:+: t := by
  rw [List.infix_cons_iff]
  constructor
  · rintro (h | h)
    · cases pat with
      | nil => exact absurd rfl hne
      | cons d pat =>
        obtain ⟨rfl, -⟩ := List.cons_prefix_cons.mp h
        exact absurd List.mem_cons_self hc
    · exact h
  · exact .inr

theorem prefix_sep_iff {x : α} {a b : List α} (hx : x ∉ pat) :
    pat <+: a ++ x :: b ↔ pat <+: a := by
  constructor
  · intro h
    induction a generalizing pat with
    | nil =>
      cases pat with
      | nil => exact List.nil_prefix
      | cons d pat =>
        obtain ⟨rfl, -⟩ := List.cons_prefix_cons.mp h
        exact absurd List.mem_cons_self hx
    | cons c a ih =>
      cases pat with
      | nil => exact List.nil_prefix
      | cons d pat =>
        obtain ⟨rfl, htail⟩ := List.cons_prefix_cons.mp h
        have hx' : x ∉ pat := fun hm => hx (List.mem_cons_of_mem d hm)
        exact List.cons_prefix_cons.mpr ⟨rfl, ih hx' htail⟩
  · intro h
    exact h.trans (List.prefix_append a (x :: b))

/-- A pattern does not straddle an element that it lacks. -/
theorem infix_sep_iff {x : α} {a b : List α} (hne : pat ≠ []) (hx : x ∉ pat) :
    pat <:+: a ++ x :: b ↔ pat <:+: a ∨ pat <:+: b := by
  induction a with
  | nil =>
    have hnil : ¬ pat <:+: [] := fun h => hne (List.infix_nil.mp h)
    rw [List.nil_append, infix_cons_iff hne hx]
    exact (or_iff_right hnil).symm
  | cons c a ih =>
    rw [List.cons_append, List.infix_cons_iff, List.infix_cons_iff, ih, or_assoc,
      ← List.cons_append, prefix_sep_iff hx]

/-- An occurrence does not start within a text of which no end starts the
    pattern. -/
theorem infix_append_iff_of_unbordered {u b : List α} (hlen : u.length < pat.length)
    (hu : ∀ v ∈ u.tails, v <+: pat → v = []) : pat <:+: u ++ b ↔ pat <:+: b := by
  induction u with
  | nil => rfl
  | cons c u ih =>
    rw [List.tails_cons, List.forall_mem_cons] at hu
    rw [List.length_cons] at hlen
    have hpre : ¬ pat <+: (c :: u) ++ b := by
      intro hp
      rcases List.prefix_or_prefix_of_prefix hp (List.prefix_append (c :: u) b) with h | h
      · have hle := h.length_le
        rw [List.length_cons] at hle
        omega
      · cases hu.1 h
    rw [List.cons_append] at hpre ⊢
    rw [List.infix_cons_iff, or_iff_right hpre]
    exact ih (by omega) hu.2

/-- A pattern that has no proper end in common with its beginning does not
    overlap itself. -/
theorem infix_tail_append_iff {b : List α} (hpat : ∀ v ∈ pat.tail.tails, v <+: pat → v = []) :
    pat <:+: (pat ++ b).tail ↔ pat <:+: b := by
  cases pat with
  | nil => simp
  | cons c pat => exact infix_append_iff_of_unbordered (Nat.lt_succ_self _) hpat

theorem not_infix_dropLast (hne : pat ≠ []) : ¬ pat <:+: pat.dropLast := by
  intro h
  have hlen := h.length_le
  rw [List.length_dropLast] at hlen
  have := List.length_pos_of_ne_nil hne
  omega

theorem append_dropLast_prefix (a b : List α) : a ++ pat.dropLast <+: a ++ pat ++ b := by
  rw [List.append_assoc]
  exact (List.prefix_append_right_inj a).mpr
    ((List.dropLast_prefix pat).trans (List.prefix_append pat b))

/-- The first occurrence. -/
theorem exists_first {t : List α} (hne : pat ≠ []) (h : pat <:+: t) :
    ∃ a b, t = a ++ pat ++ b ∧ ¬ pat <:+: a ++ pat.dropLast := by
  induction t with
  | nil => exact absurd (List.infix_nil.mp h) hne
  | cons c t ih =>
    by_cases hp : pat <+: c :: t
    · obtain ⟨b, hb⟩ := hp
      exact ⟨[], b, hb.symm, not_infix_dropLast hne⟩
    · obtain ⟨a, b, rfl, hfirst⟩ := ih ((List.infix_cons_iff.mp h).resolve_left hp)
      refine ⟨c :: a, b, rfl, ?_⟩
      intro hin
      rcases List.infix_cons_iff.mp hin with hpre | hin
      · exact hp (hpre.trans (List.cons_prefix_cons.mpr ⟨rfl, append_dropLast_prefix a b⟩))
      · exact hfirst hin

/-- The last occurrence. -/
theorem exists_last {t : List α} (hne : pat ≠ []) (h : pat <:+: t) :
    ∃ a b, t = a ++ pat ++ b ∧ ¬ pat <:+: (pat ++ b).tail := by
  induction t with
  | nil => exact absurd (List.infix_nil.mp h) hne
  | cons c t ih =>
    by_cases hin : pat <:+: t
    · obtain ⟨a, b, rfl, hlast⟩ := ih hin
      exact ⟨c :: a, b, rfl, hlast⟩
    · obtain ⟨b, hb⟩ := (List.infix_cons_iff.mp h).resolve_right hin
      refine ⟨[], b, hb.symm, ?_⟩
      rw [hb]
      exact hin

/-! ## Occurrences in a text that is written character by character -/

section FlatMap

variable {f : α → List α} {M : α → Prop} (hf : ∀ c, M c → f c = [c])
  (hnot : ∀ c, ¬ M c → f c ≠ [] ∧ ∀ d ∈ f c, ¬ M d)
include hf hnot

theorem exists_of_flatMap_eq_append {cs w : List α} (hpat : ∀ c ∈ pat, M c)
    (h : cs.flatMap f = pat ++ w) : ∃ s, cs = pat ++ s ∧ w = s.flatMap f := by
  induction pat generalizing cs with
  | nil => exact ⟨cs, rfl, h.symm⟩
  | cons d pat ih =>
    cases cs with
    | nil => cases h
    | cons c cs =>
      rw [List.flatMap_cons, List.cons_append] at h
      by_cases hc : M c
      · rw [hf c hc, List.singleton_append] at h
        obtain ⟨rfl, htail⟩ := List.cons_eq_cons.mp h
        obtain ⟨s, rfl, hw⟩ := ih (fun e he => hpat e (List.mem_cons_of_mem c he)) htail
        exact ⟨s, rfl, hw⟩
      · obtain ⟨hne, hd⟩ := hnot c hc
        obtain ⟨e, es, he⟩ := List.exists_cons_of_ne_nil hne
        rw [he, List.cons_append] at h
        obtain ⟨rfl, -⟩ := List.cons_eq_cons.mp h
        exact absurd (hpat e List.mem_cons_self) (hd e (by rw [he]; exact List.mem_cons_self))

/-- A pattern of characters that are written as themselves occurs only where the
    text has it. -/
theorem exists_of_flatMap_eq {cs u w : List α} (hne : pat ≠ []) (hpat : ∀ c ∈ pat, M c)
    (h : cs.flatMap f = u ++ (pat ++ w)) :
    ∃ s₁ s₂, cs = s₁ ++ pat ++ s₂ ∧ u = s₁.flatMap f ∧ w = s₂.flatMap f := by
  induction cs generalizing u with
  | nil =>
    have hnil := List.append_eq_nil_iff.mp (List.append_eq_nil_iff.mp h.symm).2
    exact absurd hnil.1 hne
  | cons c cs ih =>
    have hcons := h
    rw [List.flatMap_cons, List.append_eq_append_iff] at h
    rcases h with ⟨u', rfl, h⟩ | ⟨v, hv, h⟩
    · obtain ⟨s₁, s₂, rfl, rfl, rfl⟩ := ih h
      exact ⟨c :: s₁, s₂, rfl, by rw [List.flatMap_cons], rfl⟩
    · cases v with
      | nil =>
        rw [List.append_nil] at hv
        obtain ⟨s₁, s₂, rfl, hs₁, rfl⟩ := ih (u := []) h.symm
        exact ⟨c :: s₁, s₂, rfl, by rw [List.flatMap_cons, hv, ← hs₁, List.append_nil], rfl⟩
      | cons d v =>
        -- the pattern starts within `f c`, so `c` stands for itself
        obtain ⟨e, pat, rfl⟩ := List.exists_cons_of_ne_nil hne
        obtain ⟨rfl, -⟩ := List.cons_eq_cons.mp h
        have he : e ∈ f c := by
          rw [hv]
          exact List.mem_append_right u List.mem_cons_self
        have hc : M c := by
          by_contra hc
          exact (hnot c hc).2 e he (hpat e List.mem_cons_self)
        obtain rfl : u = [] := by
          rw [hf c hc] at hv
          cases u with
          | nil => rfl
          | cons x u =>
            have hlen := congrArg List.length hv
            simp at hlen
        obtain ⟨s, hs, hw⟩ := exists_of_flatMap_eq_append hf hnot hpat hcons
        exact ⟨[], s, hs, rfl, hw⟩

end FlatMap

/-! ## Searching -/

variable [DecidableEq α] (pat)

/-- `s.find(pat)`, `none` for -1. -/
def find : List α → Option ℕ
  | [] => if pat = [] then some 0 else none
  | c :: cs => if pat <+: c :: cs then some 0 else (find cs).map (· + 1)

/-- `s.rfind(pat)`, `none` for -1. -/
def rfind : List α → Option ℕ
  | [] => if pat = [] then some 0 else none
  | c :: cs =>
    match rfind cs with
    | some i => some (i + 1)
    | none => if pat <+: c :: cs then some 0 else none

variable {pat}

theorem find_cons (c : α) (cs : List α) :
    find pat (c :: cs) = if pat <+: c :: cs then some 0 else (find pat cs).map (· + 1) := rfl

theorem find_append_self (b : List α) : find pat (pat ++ b) = some 0 := by
  cases pat with
  | nil =>
    cases b with
    | nil => rfl
    | cons c b => exact if_pos List.nil_prefix
  | cons d pat =>
    rw [List.cons_append, find_cons]
    exact if_pos (List.prefix_append (d :: pat) b)

theorem find_eq {a b : List α} (h : ¬ pat <:+: a ++ pat.dropLast) :
    find pat (a ++ pat ++ b) = some a.length := by
  induction a with
  | nil => exact find_append_self b
  | cons c a ih =>
    rw [List.cons_append, List.infix_cons_iff, not_or] at h
    have hnot : ¬ pat <+: c :: (a ++ pat ++ b) := by
      intro hp
      have hpre : c :: (a ++ pat.dropLast) <+: c :: (a ++ pat ++ b) :=
        List.cons_prefix_cons.mpr ⟨rfl, append_dropLast_prefix a b⟩
      apply h.1 (List.prefix_of_prefix_length_le hp hpre _)
      simp only [List.length_cons, List.length_append, List.length_dropLast]
      omega
    rw [List.cons_append, List.cons_append, find_cons, if_neg hnot, ih h.2]
    rfl

/-- The search finds an occurrence or an earlier one. -/
theorem find_le (a b : List α) : ∃ i ≤ a.length, find pat (a ++ pat ++ b) = some i := by
  induction a with
  | nil => exact ⟨0, Nat.le_refl 0, find_append_self b⟩
  | cons c a ih =>
    obtain ⟨i, hi, hfind⟩ := ih
    rw [List.cons_append, List.cons_append, find_cons, hfind]
    split_ifs
    · exact ⟨0, Nat.zero_le _, rfl⟩
    · exact ⟨i + 1, Nat.succ_le_succ hi, rfl⟩

theorem rfind_cons_of_none {c : α} {cs : List α} (h : rfind pat cs = none) :
    rfind pat (c :: cs) = if pat <+: c :: cs then some 0 else none := by
  change (match rfind pat cs with | some i => some (i + 1) | none => _) = _
  rw [h]

theorem rfind_cons_of_some {c : α} {cs : List α} {i : ℕ} (h : rfind pat cs = some i) :
    rfind pat (c :: cs) = some (i + 1) := by
  change (match rfind pat cs with | some i => some (i + 1) | none => _) = _
  rw [h]

theorem rfind_eq_none {t : List α} (h : ¬ pat <:+: t) : rfind pat t = none := by
  induction t with
  | nil =>
    refine if_neg ?_
    rintro rfl
    exact h List.nil_infix
  | cons c t ih =>
    rw [List.infix_cons_iff, not_or] at h
    rw [rfind_cons_of_none (ih h.2)]
    exact if_neg h.1

theorem rfind_eq {a b : List α} (hne : pat ≠ []) (h : ¬ pat <:+: (pat ++ b).tail) :
    rfind pat (a ++ pat ++ b) = some a.length := by
  induction a with
  | nil =>
    cases pat with
    | nil => exact absurd rfl hne
    | cons d pat =>
      have hnone : rfind (d :: pat) (pat ++ b) = none := rfind_eq_none h
      rw [List.nil_append, List.cons_append, rfind_cons_of_none hnone]
      exact if_pos (List.prefix_append (d :: pat) b)
  | cons c a ih =>
    rw [List.cons_append, List.cons_append, rfind_cons_of_some ih]
    rfl

end Text
