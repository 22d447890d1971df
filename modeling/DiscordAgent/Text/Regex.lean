import Mathlib.Data.List.Basic
import Mathlib.Tactic.SplitIfs

/-!
# Regular expressions

A backtracking matcher for patterns with greedy repetition of single elements,
and the substitution of its matches. The elements are arbitrary; which of them
make up words, for `\b`, is a parameter `w`. The matcher knows of the text before
it only whether the last element belongs to a word.

* `Regex.ends`: all ways to match, in the order in which the matcher tries them.
* `Regex.sub`, `Regex.findall`: the matches replaced or listed, from left to right
  and without overlap.
* `Regex.ends_seq_many`: a repetition before something that cannot start with
  its elements does not backtrack.
* `Regex.sub_cut`: an element that the pattern lacks cuts the text.
-/

namespace Text

/-- A pattern. -/
inductive Regex (α : Type) where
  | eps
  | one (p : α → Bool)
  /-- Greedy repetition. -/
  | many (p : α → Bool)
  | seq (a b : Regex α)
  | alt (a b : Regex α)
  /-- `\b`. -/
  | boundary

namespace Regex

variable {α : Type}

/-- Any number of elements in `p`, the longest first. -/
def manyEnds (w p : α → Bool) : Bool → List α → List (Bool × List α)
  | b, [] => [(b, [])]
  | b, c :: s => if p c then manyEnds w p (w c) s ++ [(b, c :: s)] else [(b, c :: s)]

/-- The ways to match at the beginning of the text, in the order in which the
    matcher tries them: whether the last element before the rest belongs to a
    word, and the rest. -/
def ends (w : α → Bool) : Regex α → Bool → List α → List (Bool × List α)
  | eps, b, s => [(b, s)]
  | one p, _, c :: s => if p c then [(w c, s)] else []
  | one _, _, [] => []
  | many p, b, s => manyEnds w p b s
  | seq a a', b, s => (ends w a b s).flatMap fun t => ends w a' t.1 t.2
  | alt a a', b, s => ends w a b s ++ ends w a' b s
  | boundary, b, s => if b != s.head?.any w then [(b, s)] else []

/-- The length of the match at the beginning of the text; 0 if there is none. -/
def matchLen (w : α → Bool) (r : Regex α) (b : Bool) (s : List α) : ℕ :=
  match (ends w r b s).head? with
  | some t => s.length - t.2.length
  | none => 0

/-- `sub` after the first `n` elements, which belong to a match. -/
def subAux (w : α → Bool) (r : Regex α) (repl : List α) : ℕ → Bool → List α → List α
  | _, _, [] => []
  | n + 1, _, c :: s => subAux w r repl n (w c) s
  | 0, b, c :: s =>
    match matchLen w r b (c :: s) with
    | 0 => c :: subAux w r repl 0 (w c) s
    | n + 1 => repl ++ subAux w r repl n (w c) s

/-- The text with every match replaced, for patterns without empty matches. -/
def sub (w : α → Bool) (r : Regex α) (repl : List α) (s : List α) : List α :=
  subAux w r repl 0 false s

/-- `findall` after the first `n` elements, which belong to a match. -/
def findallAux (w : α → Bool) (r : Regex α) : ℕ → Bool → List α → List (List α)
  | _, _, [] => []
  | n + 1, _, c :: s => findallAux w r n (w c) s
  | 0, b, c :: s =>
    match matchLen w r b (c :: s) with
    | 0 => findallAux w r 0 (w c) s
    | n + 1 => (c :: s).take (n + 1) :: findallAux w r n (w c) s

/-- The matches, from left to right and without overlap, for patterns without
    empty matches. -/
def findall (w : α → Bool) (r : Regex α) (s : List α) : List (List α) := findallAux w r 0 false s

/-- One or more elements. -/
def oneOrMore (p : α → Bool) : Regex α := seq (one p) (many p)

/-- A sequence of elements. -/
def word (ps : List (α → Bool)) : Regex α := ps.foldr (fun p r => seq (one p) r) eps

variable {w p : α → Bool} {r a : Regex α} {b : Bool} {c : α} {s t x y repl : List α} {n : ℕ}

/-! ## Matches -/

theorem manyEnds_cons : manyEnds w p b (c :: s) =
    if p c then manyEnds w p (w c) s ++ [(b, c :: s)] else [(b, c :: s)] := rfl

theorem ends_one_cons : ends w (one p) b (c :: s) = if p c then [(w c, s)] else [] := rfl

theorem ends_seq {a' : Regex α} :
    ends w (seq a a') b s = (ends w a b s).flatMap fun t => ends w a' t.1 t.2 := rfl

theorem ends_alt {a' : Regex α} : ends w (alt a a') b s = ends w a b s ++ ends w a' b s := rfl

theorem ends_boundary : ends w boundary b s = if b != s.head?.any w then [(b, s)] else [] := rfl

/-- A rest is a suffix of the text. -/
theorem suffix_of_mem_manyEnds {e : Bool × List α} (h : e ∈ manyEnds w p b s) : e.2 <:+ s := by
  induction s generalizing b with
  | nil =>
    obtain rfl := List.mem_singleton.mp h
    exact List.suffix_rfl
  | cons c s ih =>
    rw [manyEnds_cons] at h
    split_ifs at h
    · rcases List.mem_append.mp h with h | h
      · exact (ih h).trans (List.suffix_cons c s)
      · obtain rfl := List.mem_singleton.mp h
        exact List.suffix_rfl
    · obtain rfl := List.mem_singleton.mp h
      exact List.suffix_rfl

theorem suffix_of_mem_ends {e : Bool × List α} (h : e ∈ ends w r b s) : e.2 <:+ s := by
  induction r generalizing b s e with
  | eps =>
    obtain rfl := List.mem_singleton.mp h
    exact List.suffix_rfl
  | one p =>
    cases s with
    | nil => cases h
    | cons c s =>
      rw [ends_one_cons] at h
      split_ifs at h
      · obtain rfl := List.mem_singleton.mp h
        exact List.suffix_cons c s
      · cases h
  | many p => exact suffix_of_mem_manyEnds h
  | seq a a' iha iha' =>
    obtain ⟨t, ht, he⟩ := List.mem_flatMap.mp h
    exact (iha' he).trans (iha ht)
  | alt a a' iha iha' =>
    rcases List.mem_append.mp h with h | h
    · exact iha h
    · exact iha' h
  | boundary =>
    rw [ends_boundary] at h
    split_ifs at h
    · obtain rfl := List.mem_singleton.mp h
      exact List.suffix_rfl
    · cases h

theorem matchLen_le (w : α → Bool) (r : Regex α) (b : Bool) (s : List α) :
    matchLen w r b s ≤ s.length := by
  unfold matchLen
  split
  · exact Nat.sub_le _ _
  · exact Nat.zero_le _

theorem ends_one_of_not (hc : ∀ d ∈ s.head?, p d = false) : ends w (seq (one p) r) b s = [] := by
  cases s with
  | nil => rfl
  | cons c s => simp [ends_seq, ends_one_cons, hc c rfl]

/-! ## Patterns without `\b` -/

/-- The pattern does not look at the text before it. -/
def plain : Regex α → Bool
  | eps | one _ | many _ => true
  | seq a a' | alt a a' => plain a && plain a'
  | boundary => false

/-- The rests that a repetition can leave. -/
def manyRests (p : α → Bool) : List α → List (List α)
  | [] => [[]]
  | c :: s => if p c then manyRests p s ++ [c :: s] else [c :: s]

/-- The rests that a pattern without `\b` can leave. -/
def rests : Regex α → List α → List (List α)
  | eps, s => [s]
  | one p, c :: s => if p c then [s] else []
  | one _, [] => []
  | many p, s => manyRests p s
  | seq a a', s => (rests a s).flatMap (rests a')
  | alt a a', s => rests a s ++ rests a' s
  | boundary, s => [s]

theorem manyRests_cons :
    manyRests p (c :: s) = if p c then manyRests p s ++ [c :: s] else [c :: s] := rfl

theorem rests_one_nil : rests (one p) [] = [] := rfl

theorem rests_one : rests (one p) (c :: s) = if p c then [s] else [] := rfl

theorem rests_seq {a' : Regex α} : rests (seq a a') s = (rests a s).flatMap (rests a') := rfl

theorem rests_alt {a' : Regex α} : rests (alt a a') s = rests a s ++ rests a' s := rfl

theorem map_manyEnds : (manyEnds w p b s).map Prod.snd = manyRests p s := by
  induction s generalizing b with
  | nil => rfl
  | cons c s ih =>
    rw [manyEnds_cons, manyRests_cons]
    split_ifs
    · rw [List.map_append, ih]
      rfl
    · rfl

theorem map_ends (h : r.plain = true) : (ends w r b s).map Prod.snd = rests r s := by
  induction r generalizing b s with
  | eps => rfl
  | one p =>
    cases s with
    | nil => rfl
    | cons c s =>
      rw [ends_one_cons, rests_one]
      split_ifs <;> rfl
  | many p => exact map_manyEnds
  | seq a a' iha iha' =>
    obtain ⟨ha, ha'⟩ := (Bool.and_eq_true _ _).mp h
    rw [ends_seq, rests_seq, ← iha ha, List.map_flatMap, List.flatMap_map]
    exact congrArg (fun f => List.flatMap f (ends w a b s)) (funext fun t => iha' ha')
  | alt a a' iha iha' =>
    obtain ⟨ha, ha'⟩ := (Bool.and_eq_true _ _).mp h
    rw [ends_alt, rests_alt, List.map_append, iha ha, iha' ha']
  | boundary => cases h

theorem matchLen_plain (h : r.plain = true) :
    matchLen w r b s = match (rests r s).head? with
      | some t => s.length - t.length
      | none => 0 := by
  rw [← map_ends (w := w) (b := b) h, List.head?_map]
  unfold matchLen
  cases (ends w r b s).head? <;> rfl

theorem head?_manyRests (p : α → Bool) (s : List α) :
    (manyRests p s).head? = some (s.dropWhile p) := by
  induction s with
  | nil => rfl
  | cons c s ih =>
    rw [manyRests_cons, List.dropWhile_cons]
    split_ifs
    · rw [List.head?_append, ih]
      rfl
    · rfl

/-- A repetition before something that cannot start with its elements does not
    give any back. -/
theorem rests_seq_many (hr : ∀ c s, p c = true → rests r (c :: s) = []) :
    rests (seq (many p) r) s = rests r (s.dropWhile p) := by
  change (manyRests p s).flatMap (rests r) = _
  induction s with
  | nil => exact List.flatMap_singleton _ _
  | cons c s ih =>
    rw [manyRests_cons, List.dropWhile_cons]
    split_ifs with hc
    · rw [List.flatMap_append, ih]
      simp [hr c s hc]
    · simp

theorem rests_one_cons :
    rests (seq (one p) r) (c :: s) = if p c then rests r s else [] := by
  rw [rests_seq, rests_one]
  split_ifs
  · exact List.flatMap_singleton _ _
  · rfl

/-- A word, read through `f`. -/
theorem rests_word {β : Type} [DecidableEq β] (f : α → β) (ks : List β) (s : List α) :
    rests (word (ks.map fun k c => f c == k)) s =
      if ks <+: s.map f then [s.drop ks.length] else [] := by
  induction ks generalizing s with
  | nil => exact (if_pos List.nil_prefix).symm
  | cons k ks ih =>
    cases s with
    | nil => exact (if_neg (by simp)).symm
    | cons c s =>
      have hword : word ((k :: ks).map fun k c => f c == k) =
        seq (one fun c => f c == k) (word (ks.map fun k c => f c == k)) := rfl
      rw [hword, rests_one_cons, ih]
      by_cases hk : f c = k
      · simp [hk]
      · simp [hk, Ne.symm hk]

theorem suffix_of_mem_rests (h : t ∈ rests r s) (hr : r.plain = true) : t <:+ s := by
  rw [← map_ends (w := fun _ => false) (b := false) hr] at h
  obtain ⟨e, he, rfl⟩ := List.mem_map.mp h
  exact suffix_of_mem_ends he

/-! ## Substitution -/

theorem subAux_zero : subAux w r repl 0 b (c :: s) =
    match matchLen w r b (c :: s) with
    | 0 => c :: subAux w r repl 0 (w c) s
    | n + 1 => repl ++ subAux w r repl n (w c) s := rfl

theorem subAux_of_none (h : matchLen w r b (c :: s) = 0) :
    subAux w r repl 0 b (c :: s) = c :: subAux w r repl 0 (w c) s := by
  rw [subAux_zero, h]

theorem subAux_ne_nil (hrepl : repl ≠ []) :
    subAux w r repl 0 b (c :: s) ≠ [] := by
  rw [subAux_zero]
  split
  · exact List.cons_ne_nil _ _
  · exact fun h => hrepl (List.append_eq_nil_iff.mp h).1

/-- A text in which the pattern does not occur stays as it is. -/
theorem subAux_of_ends (h : ∀ d, d <:+ s → ∀ b, ends w r b d = []) (b : Bool) :
    subAux w r repl 0 b s = s := by
  induction s generalizing b with
  | nil => rfl
  | cons c s ih =>
    have hlen : matchLen w r b (c :: s) = 0 := by
      unfold matchLen
      rw [h (c :: s) List.suffix_rfl b]
      rfl
    rw [subAux_of_none hlen, ih fun d hd => h d (hd.trans (List.suffix_cons c s))]

/-- There is no match exactly if the pattern matches at no place of the text. -/
theorem findall_eq_nil_iff (hr : r.plain = true)
    (hshort : ∀ s t, t ∈ rests r s → t.length < s.length) :
    findall w r s = [] ↔ ∀ d, d <:+ s → rests r d = [] := by
  have hnil : rests r [] = [] := by
    apply List.eq_nil_iff_forall_not_mem.mpr
    intro t ht
    exact absurd (hshort [] t ht) (Nat.not_lt_zero _)
  have haux : ∀ b, findallAux w r 0 b s = [] ↔ ∀ d, d <:+ s → rests r d = [] := by
    induction s with
    | nil =>
      intro b
      simp [findallAux, hnil]
    | cons c s ih =>
      intro b
      have hlen : matchLen w r b (c :: s) = 0 ↔ rests r (c :: s) = [] := by
        rw [matchLen_plain hr]
        cases hrests : rests r (c :: s) with
        | nil => simp
        | cons t ts =>
          have hlt := hshort (c :: s) t (by rw [hrests]; exact List.mem_cons_self)
          constructor
          · intro h
            have hle : (c :: s).length - t.length = 0 := h
            omega
          · intro h
            cases h
      simp only [List.suffix_cons_iff, forall_eq_or_imp, ← hlen, findallAux]
      cases matchLen w r b (c :: s) with
      | zero => simp [ih]
      | succ n => simp
  exact haux false

/-- The pattern has no place for the element. -/
def lacks (c : α) : Regex α → Bool
  | eps | boundary => true
  | one p | many p => !p c
  | seq a a' | alt a a' => lacks c a && lacks c a'

theorem manyEnds_cut (hc : p c = false) :
    manyEnds w p b (x ++ c :: y) =
      (manyEnds w p b x).map fun t => (t.1, t.2 ++ c :: y) := by
  induction x generalizing b with
  | nil => exact if_neg (by simp [hc])
  | cons d x ih =>
    rw [List.cons_append, manyEnds_cons, manyEnds_cons]
    split_ifs
    · rw [ih, List.map_append]
      rfl
    · rfl

/-- Matches end before an element that the pattern lacks. -/
theorem ends_cut (hc : r.lacks c = true) (hw : w c = false) :
    ends w r b (x ++ c :: y) = (ends w r b x).map fun t => (t.1, t.2 ++ c :: y) := by
  induction r generalizing b x with
  | eps => rfl
  | one p =>
    have hp : p c = false := by simpa [lacks] using hc
    cases x with
    | nil => exact if_neg (by simp [hp])
    | cons d x =>
      rw [List.cons_append, ends_one_cons, ends_one_cons]
      split_ifs <;> rfl
  | many p => exact manyEnds_cut (by simpa [lacks] using hc)
  | seq a a' iha iha' =>
    obtain ⟨ha, ha'⟩ := (Bool.and_eq_true _ _).mp hc
    rw [ends_seq, ends_seq, iha ha, List.flatMap_map, List.map_flatMap]
    exact congrArg (fun f => List.flatMap f (ends w a b x)) (funext fun t => iha' ha')
  | alt a a' iha iha' =>
    obtain ⟨ha, ha'⟩ := (Bool.and_eq_true _ _).mp hc
    rw [ends_alt, ends_alt, iha ha, iha' ha', List.map_append]
  | boundary =>
    have hhead : (x ++ c :: y).head?.any w = x.head?.any w := by
      cases x with
      | nil => simp [hw]
      | cons d x => rfl
    rw [ends_boundary, ends_boundary, hhead]
    split_ifs <;> rfl

theorem matchLen_cut (hc : r.lacks c = true) (hw : w c = false) :
    matchLen w r b (x ++ c :: y) = matchLen w r b x := by
  unfold matchLen
  rw [ends_cut hc hw, List.head?_map]
  cases (ends w r b x).head? with
  | none => rfl
  | some t =>
    simp only [Option.map_some, List.length_append]
    omega

theorem matchLen_nil : matchLen w r b [] = 0 := Nat.le_zero.mp (matchLen_le w r b [])

theorem subAux_cut (hc : r.lacks c = true) (hw : w c = false) (hn : n ≤ x.length) :
    subAux w r repl n b (x ++ c :: y) = subAux w r repl n b x ++ c :: sub w r repl y := by
  induction x generalizing n b with
  | nil =>
    obtain rfl : n = 0 := Nat.le_zero.mp hn
    have hlen : matchLen w r b (c :: y) = 0 := (matchLen_cut (x := []) hc hw).trans matchLen_nil
    rw [List.nil_append, subAux_of_none hlen, hw]
    rfl
  | cons d x ih =>
    rw [List.cons_append]
    cases n with
    | succ n => exact ih (Nat.le_of_succ_le_succ hn)
    | zero =>
      have hlen : matchLen w r b (d :: (x ++ c :: y)) = matchLen w r b (d :: x) :=
        matchLen_cut (x := d :: x) hc hw
      have hle := matchLen_le w r b (d :: x)
      rw [subAux_zero, subAux_zero, hlen]
      split
      · rw [ih (Nat.zero_le _)]
        rfl
      · next m hm =>
        rw [hm] at hle
        rw [ih (Nat.le_of_succ_le_succ hle), List.append_assoc]

/-- An element that the pattern lacks and that belongs to no word cuts the text:
    the substitution works on both sides independently. -/
theorem sub_cut (hc : r.lacks c = true) (hw : w c = false) (x y : List α) :
    sub w r repl (x ++ c :: y) = sub w r repl x ++ c :: sub w r repl y :=
  subAux_cut hc hw (Nat.zero_le _)

/-! ## Substitution of a pattern without `\b` -/

section Plain

variable (hr : r.plain = true)
include hr

theorem subAux_plain (b b' : Bool) : subAux w r repl n b s = subAux w r repl n b' s := by
  cases s with
  | nil => cases n <;> rfl
  | cons c s =>
    cases n with
    | succ n => rfl
    | zero => rw [subAux_zero, subAux_zero, matchLen_plain hr, matchLen_plain hr]

/-- What belongs to a match is skipped. -/
theorem subAux_skip (x y : List α) (b : Bool) :
    subAux w r repl x.length b (x ++ y) = sub w r repl y := by
  induction x generalizing b with
  | nil => exact subAux_plain hr b false
  | cons c x ih => exact ih (w c)

theorem sub_of_none (h : rests r (c :: s) = []) :
    sub w r repl (c :: s) = c :: sub w r repl s := by
  have hlen : matchLen w r false (c :: s) = 0 := by rw [matchLen_plain hr, h, List.head?_nil]
  unfold sub
  rw [subAux_of_none hlen, subAux_plain hr (w c) false]

theorem sub_of_match (h : (rests r s).head? = some t) (hlt : t.length < s.length) :
    sub w r repl s = repl ++ sub w r repl t := by
  obtain ⟨x, rfl⟩ := suffix_of_mem_rests (List.mem_of_head? h) hr
  have hlen : matchLen w r false (x ++ t) = x.length := by
    rw [matchLen_plain hr, h, List.length_append]
    exact Nat.add_sub_cancel _ _
  cases x with
  | nil => exact absurd hlt (Nat.lt_irrefl _)
  | cons c x =>
    rw [List.cons_append, List.length_cons] at hlen
    unfold sub
    rw [List.cons_append, subAux_zero, hlen]
    simp only []
    rw [subAux_skip hr]
    rfl

/-- A part of the text in which no match begins stays as it is. -/
theorem sub_append_of_none (h : ∀ d, d <:+ x → d ≠ [] → rests r (d ++ y) = []) :
    sub w r repl (x ++ y) = x ++ sub w r repl y := by
  induction x with
  | nil => rfl
  | cons c x ih =>
    have hnone : rests r (c :: (x ++ y)) = [] := h (c :: x) List.suffix_rfl (List.cons_ne_nil c x)
    rw [List.cons_append, sub_of_none hr hnone, List.cons_append,
      ih fun d hd => h d (hd.trans (List.suffix_cons c x))]

end Plain

end Regex

end Text
