import Mathlib.Data.List.TakeWhile
import DiscordAgent.Model.Spec

/-!
# Rendering a spec

`Spec.render` substitutes with `string.Template` and then looks for `${…}` in the
text that comes out, in which it can no longer tell a placeholder from a value or
an escaped dollar. The substitution itself raises for every placeholder that it
cannot replace.

Specification: `Template.Parses`, the grammar of a template; `Spec.expand`, the
text that its pieces stand for; `Spec.Opaque`, `render` returns this text.

Results:
* `Template.substitute_iff`: the substitution succeeds exactly on the templates
  of the grammar whose variables have values, and returns the text.
* `render_iff`: `render` treats the values as opaque text exactly if no dollar of
  a value or of a `$$` is followed by what looks like the rest of a placeholder.
* `render_rejects`: a task that quotes shell code.
-/

namespace DiscordAgent

open Text

namespace Template

/-! ## Specification -/

/-- A piece of a template. -/
inductive Item where
  | text (c : Char)
  /-- `$$`. -/
  | dollars
  /-- `$x` or `${x}`. -/
  | var (x : List Char)

/-- An identifier. -/
def IsIdent : List Char → Prop
  | c :: x => isIdStart c = true ∧ ∀ d ∈ x, isIdChar d = true
  | [] => False

/-- The text is made of these pieces. -/
inductive Parses : List Char → List Item → Prop where
  | nil : Parses [] []
  | text {c : Char} {s : List Char} {items : List Item} (hc : c ≠ '$') (h : Parses s items) :
      Parses (c :: s) (.text c :: items)
  | dollars {s : List Char} {items : List Item} (h : Parses s items) :
      Parses ('$' :: '$' :: s) (.dollars :: items)
  | named {x s : List Char} {items : List Item} (hx : IsIdent x)
      (hs : ∀ c ∈ s.head?, isIdChar c = false) (h : Parses s items) :
      Parses ('$' :: (x ++ s)) (.var x :: items)
  | braced {x s : List Char} {items : List Item} (hx : IsIdent x) (h : Parses s items) :
      Parses ('$' :: '\x7b' :: (x ++ '\x7d' :: s)) (.var x :: items)

/-- What a piece stands for. -/
def Item.value (mapping : String → Option String) : Item → List Char
  | text c => [c]
  | dollars => ['$']
  | var x => ((mapping (String.ofList x)).getD "").toList

/-- Every variable of the pieces has a value. -/
def Known (mapping : String → Option String) (items : List Item) : Prop :=
  ∀ x, .var x ∈ items → (mapping (String.ofList x)).isSome = true

/-! ## Identifiers -/

section Ident

variable {x s t : List Char} {mapping : String → Option String} {items : List Item}

theorem ident_append (hx : IsIdent x) (hs : ∀ c ∈ s.head?, isIdChar c = false) :
    ident (x ++ s) = x := by
  cases x with
  | nil => exact hx.elim
  | cons c x =>
    have htake : (x ++ s).takeWhile isIdChar = x := by
      rw [List.takeWhile_append_of_pos hx.2]
      cases s with
      | nil => simp
      | cons d s => simp [hs d rfl]
    rw [List.cons_append, ident, if_pos hx.1, htake]

theorem ident_spec (h : ident s = x) (hne : x ≠ []) :
    IsIdent x ∧ ∃ t, s = x ++ t ∧ ∀ c ∈ t.head?, isIdChar c = false := by
  cases s with
  | nil => exact absurd h.symm hne
  | cons c s =>
    rw [ident] at h
    split_ifs at h with hc
    · subst h
      refine ⟨⟨hc, fun d hd => List.mem_takeWhile_imp hd⟩, s.dropWhile isIdChar, ?_, ?_⟩
      · rw [List.cons_append, List.takeWhile_append_dropWhile]
      · intro d hd
        have hnot := List.head?_dropWhile_not isIdChar s
        rw [Option.mem_def.mp hd] at hnot
        simpa using hnot
    · exact absurd h.symm hne

theorem idStart_ne {c : Char} (h : isIdStart c = true) : c ≠ '$' ∧ c ≠ '\x7b' := by
  constructor
  · rintro rfl
    revert h
    decide
  · rintro rfl
    revert h
    decide

theorem group_named (hx : IsIdent x) (hs : ∀ c ∈ s.head?, isIdChar c = false) :
    group (x ++ s) = .named x := by
  have hident := ident_append hx hs
  cases x with
  | nil => exact hx.elim
  | cons c x =>
    obtain ⟨hdollar, hbrace⟩ := idStart_ne hx.1
    rw [List.cons_append] at hident ⊢
    unfold group
    split
    · next heq => exact absurd (List.cons.inj heq).1 hdollar
    · next heq => exact absurd (List.cons.inj heq).1 hbrace
    · rw [hident]

theorem group_braced (hx : IsIdent x) : group ('\x7b' :: (x ++ '\x7d' :: s)) = .braced x := by
  have hident : ident (x ++ '\x7d' :: s) = x :=
    ident_append hx fun c hc => by
      cases hc
      decide
  cases x with
  | nil => exact hx.elim
  | cons c x =>
    unfold group
    simp only [hident, List.drop_left]

/-- What the pattern matches after a dollar. -/
theorem group_spec (s : List Char) :
    (∃ t, s = '$' :: t ∧ group s = .escaped) ∨
      (∃ x t, s = x ++ t ∧ IsIdent x ∧ (∀ c ∈ t.head?, isIdChar c = false) ∧ group s = .named x) ∨
      (∃ x t, s = '\x7b' :: (x ++ '\x7d' :: t) ∧ IsIdent x ∧ group s = .braced x) ∨
      group s = .invalid := by
  unfold group
  split
  · next t => exact .inl ⟨t, rfl, rfl⟩
  · next s =>
    split
    · next c x t hident hdrop =>
      obtain ⟨hx, u, rfl, -⟩ := ident_spec hident (List.cons_ne_nil c x)
      rw [hident, List.drop_left] at hdrop
      subst hdrop
      exact .inr (.inr (.inl ⟨c :: x, t, rfl, hx, rfl⟩))
    · exact .inr (.inr (.inr rfl))
  · split
    · next c x hident =>
      obtain ⟨hx, t, rfl, ht⟩ := ident_spec hident (List.cons_ne_nil c x)
      exact .inr (.inl ⟨c :: x, t, rfl, hx, ht, rfl⟩)
    · exact .inr (.inr (.inr rfl))

end Ident

/-! ## The substitution -/

section Substitute

variable {mapping : String → Option String} {s out : List Char} {items : List Item}

theorem substituteAux_skip (n : ℕ) (s : List Char) :
    substituteAux mapping n s = substituteAux mapping 0 (s.drop n) := by
  induction n generalizing s with
  | zero => rfl
  | succ n ih =>
    cases s with
    | nil => rfl
    | cons c s => exact ih s

theorem drop_braced (x s : List Char) :
    ('\x7b' :: (x ++ '\x7d' :: s)).drop (x.length + 2) = s := by
  rw [List.drop_succ_cons, ← List.drop_drop, List.drop_left]
  rfl

/-- A template of the grammar is replaced piece by piece. -/
theorem substitute_of_parses (h : Parses s items) (hk : Known mapping items) :
    substitute mapping s = .ok (items.flatMap (Item.value mapping)) := by
  induction h with
  | nil => rfl
  | @text c s items hc h ih =>
    have hrest := ih fun x hx => hk x (List.mem_cons_of_mem _ hx)
    unfold substitute at hrest ⊢
    rw [substituteAux, if_neg hc, hrest]
    rfl
  | @dollars s items h ih =>
    have hrest := ih fun x hx => hk x (List.mem_cons_of_mem _ hx)
    unfold substitute at hrest ⊢
    rw [substituteAux, if_pos rfl]
    simp only [group]
    rw [substituteAux_skip, List.drop_succ_cons, List.drop_zero, hrest]
    rfl
  | @named x s items hx hs h ih =>
    have hrest := ih fun y hy => hk y (List.mem_cons_of_mem _ hy)
    obtain ⟨v, hv⟩ := Option.isSome_iff_exists.mp (hk x List.mem_cons_self)
    unfold substitute at hrest ⊢
    rw [substituteAux, if_pos rfl, group_named hx hs]
    simp only [hv]
    rw [substituteAux_skip, List.drop_left, hrest, List.flatMap_cons, Item.value, hv]
    rfl
  | @braced x s items hx h ih =>
    have hrest := ih fun y hy => hk y (List.mem_cons_of_mem _ hy)
    obtain ⟨v, hv⟩ := Option.isSome_iff_exists.mp (hk x List.mem_cons_self)
    unfold substitute at hrest ⊢
    rw [substituteAux, if_pos rfl, group_braced hx]
    simp only [hv]
    rw [substituteAux_skip, drop_braced, hrest, List.flatMap_cons, Item.value, hv]
    rfl

theorem exists_of_map {ε α β : Type} {x : Except ε α} {f : α → β} {b : β}
    (h : x.map f = .ok b) : ∃ a, x = .ok a := by
  cases x with
  | error e => cases h
  | ok a => exact ⟨a, rfl⟩

theorem known_cons {item : Item}
    (hi : ∀ x, item = .var x → (mapping (String.ofList x)).isSome = true)
    (h : Known mapping items) : Known mapping (item :: items) := by
  intro x hx
  rcases List.mem_cons.mp hx with rfl | hx
  · exact hi x rfl
  · exact h x hx

/-- What is substituted is a template of the grammar. -/
theorem parses_of_substitute (h : substitute mapping s = .ok out) :
    ∃ items, Parses s items ∧ Known mapping items := by
  -- by the length of the text: a match is skipped at once
  induction hn : s.length using Nat.strong_induction_on generalizing s out with
  | _ n ih =>
    have hrest : ∀ t, t.length < s.length → (∃ out, substituteAux mapping 0 t = .ok out) →
        ∃ items, Parses t items ∧ Known mapping items := fun t ht ⟨_, hout⟩ =>
      ih t.length (hn ▸ ht) hout rfl
    cases s with
    | nil => exact ⟨[], .nil, fun x hx => by cases hx⟩
    | cons c s =>
      unfold substitute at h
      rw [substituteAux] at h
      split_ifs at h with hc
      · subst hc
        rcases group_spec s with ⟨t, rfl, hg⟩ | ⟨x, t, rfl, hx, ht, hg⟩ | ⟨x, t, rfl, hx, hg⟩ | hg
        · simp only [hg] at h
          obtain ⟨v, hv⟩ := exists_of_map h
          rw [substituteAux_skip] at hv
          obtain ⟨items, hp, hk⟩ := hrest t (by simp only [List.length_cons]; omega) ⟨v, hv⟩
          exact ⟨_, .dollars hp, known_cons (fun y hy => by cases hy) hk⟩
        · simp only [hg] at h
          split at h
          · next v hv =>
            obtain ⟨out', hout⟩ := exists_of_map h
            rw [substituteAux_skip, List.drop_left] at hout
            obtain ⟨items, hp, hk⟩ := hrest t
              (by simp only [List.length_cons, List.length_append]; omega) ⟨out', hout⟩
            refine ⟨_, .named hx ht hp, known_cons (fun y hy => ?_) hk⟩
            cases hy
            rw [hv, Option.isSome_some]
          · cases h
        · simp only [hg] at h
          split at h
          · next v hv =>
            obtain ⟨out', hout⟩ := exists_of_map h
            rw [substituteAux_skip, drop_braced] at hout
            obtain ⟨items, hp, hk⟩ := hrest t
              (by simp only [List.length_cons, List.length_append]; omega) ⟨out', hout⟩
            refine ⟨_, .braced hx hp, known_cons (fun y hy => ?_) hk⟩
            cases hy
            rw [hv, Option.isSome_some]
          · cases h
        · rw [hg] at h
          cases h
      · obtain ⟨v, hv⟩ := exists_of_map h
        obtain ⟨items, hp, hk⟩ := hrest s (Nat.lt_succ_self _) ⟨v, hv⟩
        exact ⟨_, .text hc hp, known_cons (fun y hy => by cases hy) hk⟩

/-- The substitution succeeds exactly on the templates of the grammar whose
    variables have values, and returns the text. -/
theorem substitute_iff : substitute mapping s = .ok out ↔
    ∃ items, Parses s items ∧ Known mapping items ∧ out = items.flatMap (Item.value mapping) := by
  constructor
  · intro h
    obtain ⟨items, hp, hk⟩ := parses_of_substitute h
    rw [substitute_of_parses hp hk] at h
    exact ⟨items, hp, hk, (Except.ok.inj h).symm⟩
  · rintro ⟨items, hp, hk, rfl⟩
    exact substitute_of_parses hp hk

end Substitute

end Template

namespace Spec

open Template

/-! ## What the second search finds -/

/-- The rest of a placeholder: `{`, a character that is not `}`, and later a `}`. -/
def opensBrace : List Char → Bool
  | '\x7b' :: c :: s => c != '\x7d' && s.contains '\x7d'
  | _ => false

theorem rests_close (s : List Char) :
    Regex.rests (.seq (.many (· != '\x7d')) (.one (· == '\x7d'))) s ≠ [] ↔ '\x7d' ∈ s := by
  rw [Regex.rests_seq_many fun c s hc => by simp_all [Regex.rests_one]]
  induction s with
  | nil => simp [Regex.rests_one_nil]
  | cons c s ih =>
    by_cases hc : c = '\x7d'
    · subst hc
      simp [Regex.rests_one]
    · rw [List.dropWhile_cons_of_pos (by simpa using hc), ih, List.mem_cons,
        or_iff_right (Ne.symm hc)]

theorem opensBrace_cons (d e : Char) (s : List Char) : opensBrace (d :: e :: s) = true ↔
    d = '\x7b' ∧ e ≠ '\x7d' ∧ '\x7d' ∈ s := by
  by_cases hd : d = '\x7b'
  · subst hd
    simp [opensBrace]
  · simp [opensBrace, hd]

theorem rests_remaining (c : Char) (s : List Char) :
    Regex.rests remainingPattern (c :: s) ≠ [] ↔ c = '$' ∧ opensBrace s = true := by
  unfold remainingPattern
  rw [Regex.rests_one_cons]
  by_cases hc : c = '$'
  · rw [if_pos (by simpa using hc), and_iff_right hc]
    cases s with
    | nil => simp [Regex.rests_seq, Regex.rests_one_nil, opensBrace]
    | cons d s =>
      rw [Regex.rests_one_cons]
      cases s with
      | nil => simp [Regex.rests_seq, Regex.rests_one_nil, opensBrace]
      | cons e s =>
        rw [Regex.rests_one_cons, opensBrace_cons, ← rests_close]
        by_cases hd : d = '\x7b'
        · by_cases he : e = '\x7d'
          · simp [he]
          · simp [hd, he]
        · simp [hd]
  · simp [hc]

theorem short_remaining (s t : List Char) (h : t ∈ Regex.rests remainingPattern s) :
    t.length < s.length := by
  cases s with
  | nil => cases h
  | cons c s =>
    unfold remainingPattern at h
    rw [Regex.rests_one_cons] at h
    split_ifs at h
    · exact Nat.lt_succ_of_le (Regex.suffix_of_mem_rests h rfl).length_le
    · cases h

/-- The search finds something after a dollar that is followed by the rest of a
    placeholder. -/
theorem findall_remaining {out : List Char} :
    remainingPattern.findall (fun _ => false) out = [] ↔
      ∀ u v, out = u ++ '$' :: v → opensBrace v = false := by
  rw [Regex.findall_eq_nil_iff rfl short_remaining]
  constructor
  · rintro h u v rfl
    have hnil := h ('$' :: v) (List.suffix_append u _)
    by_contra hv
    exact (rests_remaining '$' v).mpr ⟨rfl, by simpa using hv⟩ hnil
  · rintro h d ⟨u, rfl⟩
    cases d with
    | nil => rfl
    | cons c d =>
      by_contra hne
      obtain ⟨rfl, hv⟩ := (rests_remaining c d).mp hne
      rw [h u d rfl] at hv
      cases hv

/-! ## Specification -/

/-- The text that the pieces stand for: unset variables are empty. -/
def expand (vars : List (String × String)) (items : List Item) : List Char :=
  items.flatMap (Item.value fun x => vars.lookup x)

/-- The variables of the pieces are given or optional. -/
def Names (spec : Spec) (vars : List (String × String)) (items : List Item) : Prop :=
  ∀ x, .var x ∈ items →
    (vars.lookup (String.ofList x)).isSome = true ∨ String.ofList x ∈ spec.optionalVars

/-- No required variable is missing. -/
def Given (spec : Spec) (vars : List (String × String)) : Prop :=
  ∀ v ∈ spec.requiredVars, (vars.lookup v).isSome = true

/-- `render` raises if a required variable is missing or the template has a
    malformed placeholder or one with an unknown name, and returns the text that
    its pieces stand for otherwise. -/
structure Opaque (spec : Spec) (vars : List (String × String)) : Prop where
  raises : (∃ e, spec.render vars = .error e) ↔ ¬ spec.Given vars ∨
    ¬ ∃ items, Parses spec.taskTemplate.toList items ∧ spec.Names vars items
  returns : ∀ items, spec.Given vars → Parses spec.taskTemplate.toList items →
    spec.Names vars items → spec.render vars = .ok (String.ofList (expand vars items))

/-- A dollar in what a piece stands for is followed, there and in what comes
    after, by the rest of a placeholder. -/
def Leaks (vars : List (String × String)) (items : List Item) : Prop :=
  ∃ pre item post u v, items = pre ++ item :: post ∧
    item.value (fun x => vars.lookup x) = u ++ '$' :: v ∧
      opensBrace (v ++ expand vars post) = true

/-! ## `render` -/

variable {spec : Spec} {vars : List (String × String)} {items : List Item}

theorem known_filled : Known (spec.filled vars) items ↔ spec.Names vars items := by
  unfold Known Names filled
  apply forall₂_congr
  intro x _
  by_cases hx : String.ofList x ∈ spec.optionalVars
  · simp [hx]
  · simp [hx]

theorem expand_filled : items.flatMap (Item.value (spec.filled vars)) = expand vars items := by
  have hvalue : Item.value (spec.filled vars) = Item.value fun x => vars.lookup x := by
    funext item
    cases item with
    | text c => rfl
    | dollars => rfl
    | var x =>
      simp only [Item.value, filled]
      cases vars.lookup (String.ofList x) with
      | some v => rfl
      | none => split_ifs <;> rfl
  unfold expand
  rw [hvalue]

/-- The place of a dollar in the text, in terms of the pieces. -/
theorem leaks_iff : Leaks vars items ↔
    ∃ u v, expand vars items = u ++ '$' :: v ∧ opensBrace v = true := by
  constructor
  · rintro ⟨pre, item, post, u, v, rfl, hvalue, hopen⟩
    refine ⟨expand vars pre ++ u, v ++ expand vars post, ?_, hopen⟩
    unfold expand
    rw [List.flatMap_append, List.flatMap_cons, hvalue]
    simp
  · rintro ⟨u, v, heq, hopen⟩
    induction items generalizing u with
    | nil => exact absurd heq (by simp [expand])
    | cons item items ih =>
      have hsplit : item.value (fun x => vars.lookup x) ++ expand vars items = u ++ '$' :: v := heq
      rcases List.append_eq_append_iff.mp hsplit with ⟨w, hu, hitems⟩ | ⟨w, hvalue, hv⟩
      · obtain ⟨pre, item', post, u', v', rfl, hvalue, hopen'⟩ := ih w hitems
        exact ⟨item :: pre, item', post, u', v', rfl, hvalue, hopen'⟩
      · cases w with
        | nil =>
          obtain ⟨pre, item', post, u', v', rfl, hvalue, hopen'⟩ := ih [] hv.symm
          exact ⟨item :: pre, item', post, u', v', rfl, hvalue, hopen'⟩
        | cons c w =>
          obtain ⟨rfl, rfl⟩ := List.cons.inj hv
          exact ⟨[], item, items, u, w, rfl, hvalue, hopen⟩

theorem missing_eq_nil : (spec.requiredVars.filter fun v => (vars.lookup v).isNone) = [] ↔
    spec.Given vars := by
  simp [Given, List.filter_eq_nil_iff, Option.isSome_iff_ne_none]

/-- `render` without a missing variable, of a template that `substitute` rejects. -/
theorem render_error (hg : spec.Given vars) {e : Err}
    (h : substitute (spec.filled vars) spec.taskTemplate.toList = .error e) :
    spec.render vars = .error (.substitution e) := by
  simp only [render, missing_eq_nil.2 hg, h]

/-- `render` without a missing variable returns a text in which it finds no
    placeholder. -/
theorem render_ok_iff (hg : spec.Given vars) {result : List Char}
    (h : substitute (spec.filled vars) spec.taskTemplate.toList = .ok result) :
    spec.render vars = .ok (String.ofList result) ↔
      remainingPattern.findall (fun _ => false) result = [] := by
  simp only [render, missing_eq_nil.2 hg, h]
  cases remainingPattern.findall (fun _ => false) result with
  | nil => simp
  | cons m ms => simp

/-- `render` returns the text unless a dollar in it looks like the beginning of a
    placeholder. -/
theorem render_returns (hg : spec.Given vars) (hp : Parses spec.taskTemplate.toList items)
    (hn : spec.Names vars items) :
    spec.render vars = .ok (String.ofList (expand vars items)) ↔ ¬ Leaks vars items := by
  have hsubst := substitute_of_parses hp (known_filled.2 hn)
  rw [expand_filled] at hsubst
  rw [render_ok_iff hg hsubst, findall_remaining, leaks_iff]
  constructor
  · rintro hclean ⟨u, v, heq, hopen⟩
    rw [hclean u v heq] at hopen
    cases hopen
  · intro hno u v heq
    by_contra hopen
    exact hno ⟨u, v, heq, by simpa using hopen⟩

/-- The values are opaque text exactly if no dollar of a value or of a `$$` is
    followed by the rest of a placeholder. -/
theorem render_iff (spec : Spec) (vars : List (String × String)) :
    spec.Opaque vars ↔ ∀ items, spec.Given vars → Parses spec.taskTemplate.toList items →
      spec.Names vars items → ¬ Leaks vars items := by
  constructor
  · intro h items hg hp hn
    exact (render_returns hg hp hn).mp (h.returns items hg hp hn)
  · intro h
    refine ⟨⟨?_, ?_⟩, fun items hg hp hn => (render_returns hg hp hn).mpr (h items hg hp hn)⟩
    · rintro ⟨e, he⟩
      by_contra hno
      rw [not_or, not_not, not_not] at hno
      obtain ⟨hg, items, hp, hn⟩ := hno
      rw [(render_returns hg hp hn).mpr (h items hg hp hn)] at he
      cases he
    · intro hbad
      by_cases hg : spec.Given vars
      · cases hs : substitute (spec.filled vars) spec.taskTemplate.toList with
        | error e => exact ⟨_, render_error hg hs⟩
        | ok out =>
          obtain ⟨items, hp, hk, -⟩ := substitute_iff.mp hs
          exact absurd ⟨items, hp, known_filled.1 hk⟩ (hbad.resolve_left (not_not.mpr hg))
      · unfold render
        cases hm : spec.requiredVars.filter fun v => (vars.lookup v).isNone with
        | nil => exact absurd (missing_eq_nil.1 hm) hg
        | cons v missing => exact ⟨_, rfl⟩

/-- A template with one variable, and a task that quotes shell code. -/
def runSpec : Spec := ⟨"run $task", ["task"], []⟩

def shellVars : List (String × String) := [("task", "echo $\x7bHOME\x7d")]

theorem render_rejects : runSpec.render shellVars = .error (.unresolved ["$\x7bHOME\x7d"]) ∧
    ¬ runSpec.Opaque shellVars := by
  have hrender : runSpec.render shellVars = .error (.unresolved ["$\x7bHOME\x7d"]) := by
    decide +kernel
  have htemplate : runSpec.taskTemplate.toList =
      ['r', 'u', 'n', ' ', '$', 't', 'a', 's', 'k'] := by decide
  have htask : Parses ['$', 't', 'a', 's', 'k'] [.var ['t', 'a', 's', 'k']] :=
    .named (x := ['t', 'a', 's', 'k']) (s := []) ⟨by decide, List.all_eq_true.mp (by decide)⟩
      (fun c hc => by cases hc) .nil
  have hparses : Parses runSpec.taskTemplate.toList
      [.text 'r', .text 'u', .text 'n', .text ' ', .var ['t', 'a', 's', 'k']] := by
    rw [htemplate]
    exact .text (by decide) (.text (by decide) (.text (by decide) (.text (by decide) htask)))
  have hgiven : runSpec.Given shellVars := by
    intro v hv
    obtain rfl := List.mem_singleton.mp hv
    rfl
  have hnames : runSpec.Names shellVars
      [.text 'r', .text 'u', .text 'n', .text ' ', .var ['t', 'a', 's', 'k']] := by
    intro x hx
    simp only [List.mem_cons, reduceCtorEq, List.not_mem_nil, or_false, false_or,
      Item.var.injEq] at hx
    subst hx
    exact .inl (by decide)
  refine ⟨hrender, fun h => ?_⟩
  have hok := h.returns _ hgiven hparses hnames
  rw [hrender] at hok
  cases hok

end Spec

end DiscordAgent
