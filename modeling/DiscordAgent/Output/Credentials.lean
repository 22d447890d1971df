import DiscordAgent.Model.Preview
import DiscordAgent.Text.Search
import Mathlib.Data.List.TakeWhile

/-!
# The first pattern of the preview

`_PREVIEW_REDACTIONS[0]` takes `K=v` and `K: v`, unless an earlier match has taken
the key; it does not know `"K": "v"` and stops after the scheme of a header.

* `rests_credential`: what the pattern matches, read from left to right.
* `hide_append`: the substitution on a text and on its continuation.
* `hide_equals`, `hide_colon`, `hide_json`, `hide_header`: the spellings.
-/

namespace DiscordAgent

open Text

namespace Supervisor

/-! ## The first pattern -/

/-- The keys of the first pattern. -/
def credentialKeys : List (List Char) :=
  ["authorization".toList, "token".toList, "secret".toList, "password".toList]

/-- The text after a key. -/
def keyRest (s : List Char) : Option (List Char) :=
  (credentialKeys.find? fun k => decide (k <+: s.map foldCase)).map fun k => s.drop k.length

/-- The text after an assignment sign and the spaces around it. -/
def assignRest (t : List Char) : Option (List Char) :=
  match t.dropWhile Py.isSpace with
  | c :: t => if isAssign c then some (t.dropWhile Py.isSpace) else none
  | [] => none

/-- The text from the value on, if it begins with an assignment to a key. -/
def valueStart (s : List Char) : Option (List Char) := (keyRest s).bind assignRest

/-- The rests that the value can leave. -/
def valueRests : List Char → List (List Char)
  | d :: v => if isValueChar d then Regex.manyRests isValueChar v else []
  | [] => []

variable {s t x y : List Char} {c d : Char}

theorem not_assign_of_space (h : Py.isSpace c = true) : isAssign c = false := by
  by_contra hne
  have hc : c = ':' ∨ c = '=' := by simpa [isAssign, Decidable.or_iff_not_imp_left] using hne
  rcases hc with rfl | rfl
  · exact absurd h (by decide)
  · exact absurd h (by decide)

theorem not_value_of_space (h : Py.isSpace c = true) : isValueChar c = false := by
  simp [isValueChar, h]

theorem head?_of_start {k m : List Char} (h : k <+: m) (hk : k ≠ []) : k.head? = m.head? := by
  obtain ⟨t, rfl⟩ := h
  exact (List.head?_append_of_ne_nil k hk).symm

theorem key_ne_nil {k : List Char} (h : k ∈ credentialKeys) : k ≠ [] := by
  revert h k
  decide

/-- At most one key begins at a place. -/
theorem key_unique {k k' m : List Char} (hk : k ∈ credentialKeys) (hk' : k' ∈ credentialKeys)
    (h : k <+: m) (h' : k' <+: m) : k = k' := by
  have hhead : k.head? = k'.head? :=
    (head?_of_start h (key_ne_nil hk)).trans (head?_of_start h' (key_ne_nil hk')).symm
  have hall : ∀ k ∈ credentialKeys, ∀ k' ∈ credentialKeys, k.head? = k'.head? → k = k' := by
    decide
  exact hall k hk k' hk' hhead

theorem keyRest_eq_none : keyRest s = none ↔ ∀ k ∈ credentialKeys, ¬ k <+: s.map foldCase := by
  simp [keyRest, List.find?_eq_none]

theorem keyRest_eq_some : keyRest s = some t ↔
    ∃ k ∈ credentialKeys, k <+: s.map foldCase ∧ t = s.drop k.length := by
  unfold keyRest
  rw [Option.map_eq_some_iff]
  constructor
  · rintro ⟨k, hk, rfl⟩
    exact ⟨k, List.mem_of_find?_eq_some hk, by simpa using List.find?_some hk, rfl⟩
  · rintro ⟨k, hk, hpre, rfl⟩
    refine ⟨k, ?_, rfl⟩
    cases hf : credentialKeys.find? fun k => decide (k <+: s.map foldCase) with
    | none => exact absurd hpre (by simpa using List.find?_eq_none.mp hf k hk)
    | some k' =>
      have hpre' : k' <+: s.map foldCase := by simpa using List.find?_some hf
      rw [key_unique (List.mem_of_find?_eq_some hf) hk hpre' hpre]

/-- Alternatives of which at most one applies. -/
theorem flatMap_of_unique {α β : Type} {p : α → Bool} (f : α → β) {l : List α} (hn : l.Nodup)
    (h : ∀ k ∈ l, ∀ k' ∈ l, p k = true → p k' = true → k = k') :
    (l.flatMap fun k => if p k then [f k] else []) = ((l.find? p).map f).toList := by
  induction l with
  | nil => rfl
  | cons k l ih =>
    obtain ⟨hk, hn⟩ := List.nodup_cons.mp hn
    rw [List.flatMap_cons, List.find?_cons]
    cases hp : p k with
    | true =>
      have hrest : (l.flatMap fun k => if p k then [f k] else []) = [] := by
        apply List.flatMap_eq_nil_iff.mpr
        intro k' hk'
        refine if_neg fun hp' => hk ?_
        rw [h k List.mem_cons_self k' (List.mem_cons_of_mem k hk') hp hp']
        exact hk'
      rw [hrest]
      rfl
    | false =>
      exact ih hn fun k₁ h₁ k₂ h₂ => h k₁ (List.mem_cons_of_mem k h₁) k₂ (List.mem_cons_of_mem k h₂)

theorem rests_keys (s : List Char) :
    Regex.rests (.alt (ignoreCase "authorization") (.alt (ignoreCase "token")
      (.alt (ignoreCase "secret") (ignoreCase "password")))) s = (keyRest s).toList := by
  have hone : ∀ k : String, Regex.rests (ignoreCase k) s =
      if decide (k.toList <+: s.map foldCase) then [s.drop k.toList.length] else [] := by
    intro k
    simp only [decide_eq_true_eq]
    exact Regex.rests_word foldCase k.toList s
  have hflat := flatMap_of_unique (p := fun k => decide (k <+: s.map foldCase))
    (fun k => s.drop k.length) (l := credentialKeys) (by decide) fun k hk k' hk' h h' =>
      key_unique hk hk' (of_decide_eq_true h) (of_decide_eq_true h')
  unfold keyRest
  rw [← hflat]
  unfold credentialKeys
  simp only [Regex.rests_alt, hone, List.flatMap_cons, List.flatMap_nil, List.append_nil]

theorem rests_value (t : List Char) :
    Regex.rests (.seq (.many Py.isSpace) (.oneOrMore isValueChar)) t =
      valueRests (t.dropWhile Py.isSpace) := by
  rw [Regex.rests_seq_many fun c s hc => ?_]
  · cases t.dropWhile Py.isSpace with
    | nil => rfl
    | cons d v => exact Regex.rests_one_cons
  · exact Regex.rests_one_cons.trans (if_neg (by simp [not_value_of_space hc]))

theorem rests_assign (t : List Char) :
    Regex.rests (.seq (.many Py.isSpace) (.seq (.one isAssign)
      (.seq (.many Py.isSpace) (.oneOrMore isValueChar)))) t =
      (assignRest t).toList.flatMap valueRests := by
  unfold assignRest
  rw [Regex.rests_seq_many fun c s hc => ?_]
  · cases t.dropWhile Py.isSpace with
    | nil => rfl
    | cons c t =>
      rw [Regex.rests_one_cons, rests_value]
      simp only []
      split_ifs
      · exact (List.flatMap_singleton _ _).symm
      · rfl
  · exact Regex.rests_one_cons.trans (if_neg (by simp [not_assign_of_space hc]))

theorem rests_credential (s : List Char) :
    Regex.rests credentialPattern s = (valueStart s).toList.flatMap valueRests := by
  have hseq : Regex.rests credentialPattern s = (keyRest s).toList.flatMap
      (Regex.rests (.seq (.many Py.isSpace) (.seq (.one isAssign)
        (.seq (.many Py.isSpace) (.oneOrMore isValueChar))))) := by
    rw [← rests_keys]
    rfl
  rw [hseq]
  unfold valueStart
  cases keyRest s with
  | none => rfl
  | some t => rw [Option.toList_some, List.flatMap_singleton, rests_assign, Option.bind_some]

/-! ## Keys and signs -/

/-- A character that neither ends a value nor assigns. -/
def isPlain (c : Char) : Bool := isValueChar c && !isAssign c

theorem isPlain_of_upper (h : 65 ≤ c.toNat) (h' : c.toNat ≤ 90) : isPlain c = true := by
  have hspace : Py.isSpace c = false := by
    simp only [Py.isSpace, Bool.or_eq_false_iff, Bool.and_eq_false_iff, decide_eq_false_iff_not,
      beq_eq_false_iff_ne]
    omega
  have hne : ∀ d : Char, d.toNat < 65 → c ≠ d := by
    rintro d hd rfl
    omega
  simp [isPlain, isValueChar, isAssign, hspace, hne ',' (by decide), hne ';' (by decide),
    hne ':' (by decide), hne '=' (by decide)]

theorem foldCase_of_not_plain (h : isPlain c = false) : foldCase c = c := by
  have hne : ∀ d, isPlain d = true → c ≠ d := by
    rintro d hd rfl
    rw [h] at hd
    cases hd
  unfold foldCase
  rw [if_neg, if_neg, if_neg]
  · refine dif_neg ?_
    rintro ⟨hlo, hhi⟩
    have hplain : isPlain c = true := isPlain_of_upper hlo hhi
    rw [h] at hplain
    cases hplain
  · exact hne _ (by decide)
  · exact hne _ (by decide)
  · rintro (hc | hc)
    · exact hne _ (by decide) hc
    · exact hne _ (by decide) hc

/-- No key has a sign or a space in it. -/
theorem isPlain_of_key {k : List Char} (hk : k ∈ credentialKeys) (h : foldCase c ∈ k) :
    isPlain c = true := by
  have hall : (credentialKeys.all fun k => k.all isPlain) = true := by decide
  by_contra hne
  have hc : isPlain c = false := by simpa using hne
  rw [foldCase_of_not_plain hc] at h
  exact hne (List.all_eq_true.mp (List.all_eq_true.mp hall k hk) c h)

theorem not_space_of_plain (h : isPlain c = true) : Py.isSpace c = false := by
  by_contra hne
  have hspace : Py.isSpace c = true := by simpa using hne
  simp [isPlain, not_value_of_space hspace] at h

theorem keyRest_append (h : keyRest s = some t) : keyRest (s ++ y) = some (t ++ y) := by
  obtain ⟨k, hk, hpre, rfl⟩ := keyRest_eq_some.mp h
  have hlen : k.length ≤ s.length := by simpa using hpre.length_le
  refine keyRest_eq_some.mpr ⟨k, hk, ?_, ?_⟩
  · rw [List.map_append]
    exact hpre.trans (List.prefix_append _ _)
  · rw [List.drop_append_of_le_length hlen]

/-- The character is in no key. -/
def Keyless (c : Char) : Prop := ∀ k ∈ credentialKeys, foldCase c ∉ k

theorem keyless_of_not_plain (hc : isPlain c = false) : Keyless c := by
  intro k hk h
  rw [isPlain_of_key hk h] at hc
  cases hc

theorem keyless_of_all (h : (credentialKeys.all fun k => !k.contains (foldCase c)) = true) :
    Keyless c := by
  intro k hk
  simpa using List.all_eq_true.mp h k hk

theorem keyless_quote : Keyless '"' := keyless_of_all (by decide)

/-- Such a character ends the search for a key. -/
theorem keyRest_sep (hc : Keyless c) (s y : List Char) :
    keyRest (s ++ c :: y) = (keyRest s).map fun t => t ++ c :: y := by
  cases hs : keyRest s with
  | some t => exact keyRest_append hs
  | none =>
    refine keyRest_eq_none.mpr fun k hk => ?_
    rw [List.map_append, List.map_cons, prefix_sep_iff (hc k hk)]
    exact keyRest_eq_none.mp hs k hk

theorem suffix_of_keyRest (h : keyRest s = some t) : t <:+ s ∧ t.length < s.length := by
  obtain ⟨k, hk, hpre, rfl⟩ := keyRest_eq_some.mp h
  have hlen : k.length ≤ s.length := by simpa using hpre.length_le
  have hpos := List.length_pos_of_ne_nil (key_ne_nil hk)
  refine ⟨List.drop_suffix _ _, ?_⟩
  rw [List.length_drop]
  omega

theorem suffix_of_assignRest (h : assignRest t = some s) : s <:+ t := by
  unfold assignRest at h
  split at h
  · next c u hu =>
    split_ifs at h
    cases h
    have hsuf : c :: u <:+ t := by
      rw [← hu]
      exact List.dropWhile_suffix _
    exact (List.dropWhile_suffix _).trans ((List.suffix_cons c u).trans hsuf)
  · cases h

theorem suffix_of_valueStart (h : valueStart s = some t) : t <:+ s ∧ t.length < s.length := by
  obtain ⟨u, hu, ht⟩ := Option.bind_eq_some_iff.mp h
  obtain ⟨hsuf, hlt⟩ := suffix_of_keyRest hu
  have hsuf' := suffix_of_assignRest ht
  exact ⟨hsuf'.trans hsuf, hsuf'.length_le.trans_lt hlt⟩

theorem assignRest_of_plain (h : isPlain c = true) : assignRest (c :: t) = none := by
  have hassign : isAssign c = false := by
    simp only [isPlain, Bool.and_eq_true, Bool.not_eq_true'] at h
    exact h.2
  simp [assignRest, not_space_of_plain h, hassign]

/-- What follows an assignment does not change it, unless it assigns itself. -/
theorem assignRest_append (hc : isPlain c = true) (t y : List Char) :
    assignRest (t ++ c :: y) = (assignRest t).map fun v => v ++ c :: y := by
  have hcons : (c :: y).dropWhile Py.isSpace = c :: y := by
    rw [List.dropWhile_cons, if_neg (by simp [not_space_of_plain hc])]
  have hassign : isAssign c = false := by
    simp only [isPlain, Bool.and_eq_true, Bool.not_eq_true'] at hc
    exact hc.2
  unfold assignRest
  rw [List.dropWhile_append, hcons]
  cases ht : t.dropWhile Py.isSpace with
  | nil => simp [hassign]
  | cons d u =>
    simp only [List.isEmpty_cons, Bool.false_eq_true, if_false, List.cons_append]
    split_ifs
    · rw [List.dropWhile_append, hcons]
      cases u.dropWhile Py.isSpace <;> rfl
    · rfl

/-! ## Reading a text -/

/-- The first substitution. -/
def hideCredentials (u : WordClass) (s : List Char) : List Char :=
  credentialPattern.sub u.isWord redacted s

/-- The text is an assignment to a key whose value has not ended. -/
def isOpen (s : List Char) : Bool := (valueStart s).any fun t => t.all isValueChar

/-- The substitution on a text that goes on, after the first `n` characters: what
    it makes of the text up to an assignment whose value has not ended, and
    whether there is one. -/
def scan : ℕ → List Char → List Char × Bool
  | _, [] => ([], false)
  | n + 1, _ :: s => scan n s
  | 0, c :: s =>
    if isOpen (c :: s) then ([], true)
    else
      match credentialPattern.matchLen (fun _ => false) false (c :: s) with
      | 0 => ((scan 0 s).1.cons c, (scan 0 s).2)
      | n + 1 => (redacted ++ (scan n s).1, (scan n s).2)

/-- The text ends in the value of an assignment that the first pattern takes. -/
def inValue (s : List Char) : Bool := (scan 0 s).2

/-- A continuation that completes no assignment. -/
structure Inert (y : List Char) : Prop where
  head : ∃ c y', y = c :: y' ∧ isPlain c = true
  alone : ∀ s, s ≠ [] → keyRest s = none → valueStart (s ++ y) = none

theorem Inert.valueStart_append (hy : Inert y) (hs : s ≠ []) :
    valueStart (s ++ y) = (valueStart s).map fun t => t ++ y := by
  obtain ⟨c, y', rfl, hc⟩ := hy.head
  cases hk : keyRest s with
  | none =>
    rw [hy.alone s hs hk]
    simp [valueStart, hk]
  | some t =>
    unfold valueStart
    rw [keyRest_append hk, hk, Option.bind_some, Option.bind_some, assignRest_append hc]

theorem plain_credential : credentialPattern.plain = true := rfl

variable {u : WordClass} {b : Bool} {n : ℕ}

theorem head?_rests (h : valueStart s = some (d :: t)) (hd : isValueChar d = true) :
    (Regex.rests credentialPattern s).head? = some (t.dropWhile isValueChar) := by
  have hvalue : valueRests (d :: t) = Regex.manyRests isValueChar t := if_pos hd
  rw [rests_credential, h, Option.toList_some, List.flatMap_singleton, hvalue,
    Regex.head?_manyRests]

theorem rests_of_none (h : valueStart s = none) : Regex.rests credentialPattern s = [] := by
  rw [rests_credential, h]
  rfl

theorem hide_of_match (h : valueStart s = some (d :: t)) (hd : isValueChar d = true) :
    hideCredentials u s = redacted ++ hideCredentials u (t.dropWhile isValueChar) := by
  obtain ⟨hsuf, hlt⟩ := suffix_of_valueStart h
  refine Regex.sub_of_match plain_credential (head?_rests h hd) ?_
  have hle := (List.dropWhile_suffix (l := t) isValueChar).length_le
  rw [List.length_cons] at hlt
  omega

theorem hide_of_none (h : valueStart (c :: s) = none) :
    hideCredentials u (c :: s) = c :: hideCredentials u s :=
  Regex.sub_of_none plain_credential (rests_of_none h)

/-- A text that is not open is read alike whatever follows. -/
theorem matchLen_append (hy : Inert y) (hs : s ≠ []) (ho : isOpen s = false) :
    credentialPattern.matchLen u.isWord b (s ++ y) =
      credentialPattern.matchLen (fun _ => false) false s := by
  rw [Regex.matchLen_plain plain_credential, Regex.matchLen_plain plain_credential,
    rests_credential, rests_credential, hy.valueStart_append hs]
  cases hv : valueStart s with
  | none => rfl
  | some t =>
    have hall : t.all isValueChar = false := by simpa [isOpen, hv] using ho
    simp only [Option.map_some, Option.toList_some, List.flatMap_singleton]
    cases t with
    | nil => cases hall
    | cons d v =>
      by_cases hd : isValueChar d = true
      · have hvalue : ∀ v, valueRests (d :: v) = Regex.manyRests isValueChar v := fun v => if_pos hd
        rw [List.cons_append, hvalue, hvalue, Regex.head?_manyRests, Regex.head?_manyRests]
        have hne : (v.dropWhile isValueChar).isEmpty = false := by
          by_contra he
          have hnil : v.dropWhile isValueChar = [] := by simpa using he
          have hv' : v.all isValueChar = true :=
            List.all_eq_true.mpr (List.dropWhile_eq_nil_iff.mp hnil)
          simp [hd, hv'] at hall
        rw [List.dropWhile_append, hne]
        simp only [Bool.false_eq_true, if_false, List.length_append]
        omega
      · have hvalue : ∀ v, valueRests (d :: v) = [] := fun v => if_neg hd
        rw [List.cons_append, hvalue, hvalue]
        rfl

theorem scan_of_open (ho : isOpen (c :: s) = true) : scan 0 (c :: s) = ([], true) := if_pos ho

theorem scan_of_none (ho : isOpen (c :: s) = false)
    (hm : credentialPattern.matchLen (fun _ => false) false (c :: s) = 0) :
    scan 0 (c :: s) = (c :: (scan 0 s).1, (scan 0 s).2) := by
  conv_lhs => unfold scan
  rw [if_neg (by simp [ho]), hm]

theorem scan_of_match (ho : isOpen (c :: s) = false)
    (hm : credentialPattern.matchLen (fun _ => false) false (c :: s) = n + 1) :
    scan 0 (c :: s) = (redacted ++ (scan n s).1, (scan n s).2) := by
  conv_lhs => unfold scan
  rw [if_neg (by simp [ho]), hm]

/-- The value of an open assignment goes on. -/
theorem hide_of_open (hy : Inert y) (ho : isOpen s = true) :
    hideCredentials u (s ++ y) = redacted ++ hideCredentials u (y.dropWhile isValueChar) := by
  have hs : s ≠ [] := by
    rintro rfl
    cases ho
  obtain ⟨t, ht, hall⟩ := (Option.any_eq_true _ _).mp ho
  have hv : valueStart (s ++ y) = some (t ++ y) := by
    rw [hy.valueStart_append hs, ht]
    rfl
  cases t with
  | nil =>
    obtain ⟨c, y', rfl, hc⟩ := hy.head
    have hvalue : isValueChar c = true := ((Bool.and_eq_true _ _).mp hc).1
    rw [hide_of_match hv hvalue, List.dropWhile_cons, if_pos hvalue]
  | cons d v =>
    obtain ⟨hd, hall⟩ := (Bool.and_eq_true _ _).mp hall
    rw [hide_of_match (t := v ++ y) hv hd,
      List.dropWhile_append_of_pos (List.all_eq_true.mp hall)]

theorem scan_append (hy : Inert y) (hn : n ≤ x.length) (b : Bool) :
    credentialPattern.subAux u.isWord redacted n b (x ++ y) = (scan n x).1 ++
      (if (scan n x).2 then redacted ++ hideCredentials u (y.dropWhile isValueChar)
        else hideCredentials u y) := by
  induction x generalizing n b with
  | nil =>
    obtain rfl : n = 0 := Nat.le_zero.mp hn
    exact Regex.subAux_plain plain_credential b false
  | cons c x ih =>
    cases n with
    | succ n => exact ih (Nat.le_of_succ_le_succ hn) _
    | zero =>
      cases ho : isOpen (c :: x) with
      | true =>
        rw [scan_of_open ho, List.nil_append, if_pos rfl, ← hide_of_open hy ho]
        exact Regex.subAux_plain plain_credential b false
      | false =>
        have hlen := matchLen_append (u := u) (b := b) hy (List.cons_ne_nil c x) ho
        have hle := Regex.matchLen_le (fun _ => false) credentialPattern false (c :: x)
        rw [List.cons_append, Regex.subAux_zero, ← List.cons_append, hlen]
        cases hm : credentialPattern.matchLen (fun _ => false) false (c :: x) with
        | zero =>
          rw [scan_of_none ho hm]
          simp only []
          rw [ih (Nat.zero_le _), List.cons_append]
        | succ n =>
          rw [hm] at hle
          rw [scan_of_match ho hm]
          simp only []
          rw [ih (Nat.le_of_succ_le_succ hle), List.append_assoc]

/-- A text that goes on with something that completes no assignment. -/
theorem hide_append (hy : Inert y) (x : List Char) :
    hideCredentials u (x ++ y) = (scan 0 x).1 ++
      (if inValue x then redacted ++ hideCredentials u (y.dropWhile isValueChar)
        else hideCredentials u y) :=
  scan_append hy (Nat.zero_le _) false

/-! ## Keys -/

/-- A key in any letter case. -/
def IsKey (key : List Char) : Prop := key.map foldCase ∈ credentialKeys

variable {key : List Char}

theorem IsKey.plain (h : IsKey key) (hc : c ∈ key) : isPlain c = true :=
  isPlain_of_key h (List.mem_map_of_mem hc)

theorem IsKey.ne_nil (h : IsKey key) : key ≠ [] := by
  rintro rfl
  exact key_ne_nil h rfl

/-- No key ends in another one. -/
theorem key_of_suffix {k k' : List Char} (hk : k ∈ credentialKeys) (hk' : k' ∈ credentialKeys)
    (h : k' <:+ k) : k' = k := by
  have hall : ∀ k ∈ credentialKeys, ∀ k' ∈ credentialKeys, k' <:+ k → k' = k := by decide
  exact hall k hk k' hk' h

theorem IsKey.not_append (h : IsKey key) (hs : s ≠ []) : ¬ IsKey (s ++ key) := by
  intro h'
  have heq := key_of_suffix h' h (by
    rw [List.map_append]
    exact List.suffix_append _ _)
  have hlen := congrArg List.length heq
  rw [List.length_map, List.length_map, List.length_append] at hlen
  have hpos := List.length_pos_of_ne_nil hs
  omega

theorem isKey_of_keyRest (h : keyRest s = some []) : IsKey s := by
  obtain ⟨k, hk, hpre, hdrop⟩ := keyRest_eq_some.mp h
  have hle : s.length ≤ k.length := List.drop_eq_nil_iff.mp hdrop.symm
  have heq := hpre.eq_of_length_le (by simpa using hle)
  unfold IsKey
  rw [← heq]
  exact hk

theorem keyRest_key (h : IsKey key) (t : List Char) : keyRest (key ++ t) = some t := by
  refine keyRest_eq_some.mpr ⟨key.map foldCase, h, ?_, ?_⟩
  · rw [List.map_append]
    exact List.prefix_append _ _
  · rw [List.length_map, List.drop_left]

/-- After a part of a text without keys, spaces and signs no value begins. -/
theorem valueStart_of_plain (hs : ∀ c ∈ s, isPlain c = true) (hc : Keyless c)
    (h : isPlain c = true ∨ ¬ IsKey s) : valueStart (s ++ c :: y) = none := by
  unfold valueStart
  rw [keyRest_sep hc]
  cases ht : keyRest s with
  | none => rfl
  | some t =>
    cases t with
    | nil => exact assignRest_of_plain (h.resolve_right fun hn => hn (isKey_of_keyRest ht))
    | cons d t =>
      have hd : d ∈ s := (suffix_of_keyRest ht).1.subset List.mem_cons_self
      exact assignRest_of_plain (hs d hd)

theorem inert_quote (y : List Char) : Inert ('"' :: y) where
  head := ⟨'"', y, rfl, by decide⟩
  alone s _ hk := by
    unfold valueStart
    rw [keyRest_sep keyless_quote, hk]
    rfl

theorem inert_key (h : IsKey key) (hc : Keyless c) : Inert (key ++ c :: y) where
  head := by
    cases hkey : key with
    | nil => exact absurd hkey h.ne_nil
    | cons d t => exact ⟨d, t ++ c :: y, rfl, h.plain (by rw [hkey]; exact List.mem_cons_self)⟩
  alone s hs hk := by
    unfold valueStart
    rw [← List.append_assoc, keyRest_sep hc]
    cases ht : keyRest (s ++ key) with
    | none => rfl
    | some t =>
      cases t with
      | nil => exact absurd (isKey_of_keyRest ht) (h.not_append hs)
      | cons d t =>
        -- the key that has been found ends behind `s`
        obtain ⟨k, hmem, hpre, hdrop⟩ := keyRest_eq_some.mp ht
        have hlt : s.length < k.length := by
          by_contra hle
          refine keyRest_eq_none.mp hk k hmem ?_
          rw [List.map_append] at hpre
          exact List.prefix_of_prefix_length_le hpre (List.prefix_append _ _) (by simpa using hle)
        have hd : d ∈ key := by
          rw [List.drop_append, List.drop_eq_nil_of_le hlt.le, List.nil_append] at hdrop
          exact (List.drop_suffix _ _).subset (by rw [← hdrop]; exact List.mem_cons_self)
        exact assignRest_of_plain (h.plain hd)

/-! ## The text around a value -/

theorem hide_keyless (hc : Keyless c) (s : List Char) :
    hideCredentials u (c :: s) = c :: hideCredentials u s := by
  refine hide_of_none ?_
  unfold valueStart
  rw [← List.nil_append (c :: s), keyRest_sep hc]
  rfl

theorem keyless_space : Keyless ' ' := keyless_of_not_plain (by decide)

/-- Plain text in front of a character that is in no key. -/
theorem hide_plain (hs : ∀ c ∈ s, isPlain c = true) (hc : Keyless c)
    (h : isPlain c = true ∨ ∀ d, d <:+ s → d ≠ [] → ¬ IsKey d) (y : List Char) :
    hideCredentials u (s ++ c :: y) = s ++ c :: hideCredentials u y := by
  have hsub : hideCredentials u (s ++ c :: y) = s ++ hideCredentials u (c :: y) := by
    refine Regex.sub_append_of_none plain_credential fun d hd hne => rests_of_none ?_
    exact valueStart_of_plain (fun e he => hs e (hd.subset he)) hc
      (h.imp_right fun hall => hall d hd hne)
  rw [hsub, hide_keyless hc]

theorem assignRest_sign (hc : isAssign c = true) (t : List Char) :
    assignRest (c :: t) = some (t.dropWhile Py.isSpace) := by
  have hspace : Py.isSpace c = false := by
    by_contra hne
    rw [not_assign_of_space (by simpa using hne)] at hc
    cases hc
  simp [assignRest, hspace, hc]

theorem not_space_of_value (h : isValueChar c = true) : Py.isSpace c = false := by
  by_contra hne
  rw [not_value_of_space (by simpa using hne)] at h
  cases h

/-- A value without spaces, commas and semicolons. -/
structure IsRun (v : List Char) : Prop where
  ne_nil : v ≠ []
  all : ∀ c ∈ v, isValueChar c = true

variable {v : List Char}

theorem IsRun.dropWhile (hv : IsRun v) (y : List Char) :
    (v ++ y).dropWhile Py.isSpace = v ++ y := by
  cases hc : v with
  | nil => exact absurd hc hv.ne_nil
  | cons c v' =>
    have hspace := not_space_of_value (hv.all c (by rw [hc]; exact List.mem_cons_self))
    rw [List.cons_append, List.dropWhile_cons, if_neg (by simp [hspace])]

/-- An assignment is hidden up to the end of its value. -/
theorem hide_value (hv : IsRun v) (h : valueStart s = some (v ++ y)) :
    hideCredentials u s = redacted ++ hideCredentials u (y.dropWhile isValueChar) := by
  cases hc : v with
  | nil => exact absurd hc hv.ne_nil
  | cons c v' =>
    rw [hc] at h
    have hall : ∀ d ∈ c :: v', isValueChar d = true := by
      rw [← hc]
      exact hv.all
    rw [hide_of_match (t := v' ++ y) h (hall c List.mem_cons_self),
      List.dropWhile_append_of_pos fun d hd => hall d (List.mem_cons_of_mem c hd)]

/-- `K=v` and `K: v`. -/
theorem hide_assigned (hk : IsKey key) (hc : isAssign c = true) (hv : IsRun v)
    (hy : s.dropWhile Py.isSpace = v ++ y) :
    hideCredentials u (key ++ c :: s) =
      redacted ++ hideCredentials u (y.dropWhile isValueChar) := by
  refine hide_value hv ?_
  unfold valueStart
  rw [keyRest_key hk, Option.bind_some, assignRest_sign hc, hy]

/-! ## Spellings -/

theorem dropWhile_run (hs : ∀ c ∈ s, isValueChar c = true) (y : List Char) :
    (s ++ ' ' :: y).dropWhile isValueChar = ' ' :: y := by
  rw [List.dropWhile_append_of_pos hs, List.dropWhile_cons, if_neg (by decide)]

theorem value_of_plain (h : isPlain c = true) : isValueChar c = true :=
  ((Bool.and_eq_true _ _).mp h).1

theorem keyless_colon : Keyless ':' := keyless_of_not_plain (by decide)

/-- The key and its sign are in the value of an earlier assignment. -/
theorem hide_key_taken (hk : IsKey key) (hp : inValue x = true) (y : List Char) :
    hideCredentials u (x ++ (key ++ ':' :: ' ' :: y)) =
      ((scan 0 x).1 ++ redacted) ++ ' ' :: hideCredentials u y := by
  have hrun : ∀ c ∈ key ++ [':'], isValueChar c = true := by
    intro c hc
    rcases List.mem_append.mp hc with hc | hc
    · exact value_of_plain (hk.plain hc)
    · rw [List.mem_singleton.mp hc]
      rfl
  have hdrop : (key ++ ':' :: ' ' :: y).dropWhile isValueChar = ' ' :: y := by
    have h := dropWhile_run hrun y
    rwa [List.append_assoc] at h
  rw [hide_append (inert_key hk keyless_colon), if_pos hp, hdrop, hide_keyless keyless_space,
    List.append_assoc]

/-- `"K": "v"`: the quote after the key is no assignment sign. -/
theorem hide_json (hk : IsKey key) (x : List Char) : ∃ s, ∀ y,
    hideCredentials u (x ++ '"' :: (key ++ '"' :: ':' :: ' ' :: '"' :: y)) =
      s ++ ' ' :: '"' :: hideCredentials u y := by
  cases hp : inValue x with
  | true =>
    refine ⟨(scan 0 x).1 ++ redacted, fun y => ?_⟩
    have hrun : ∀ c ∈ '"' :: (key ++ ['"', ':']), isValueChar c = true := by
      intro c hc
      rcases List.mem_cons.mp hc with rfl | hc
      · rfl
      rcases List.mem_append.mp hc with hc | hc
      · exact value_of_plain (hk.plain hc)
      · rcases List.mem_pair.mp hc with rfl | rfl <;> rfl
    have hdrop : ('"' :: (key ++ '"' :: ':' :: ' ' :: '"' :: y)).dropWhile isValueChar =
        ' ' :: '"' :: y := by
      have h := dropWhile_run hrun ('"' :: y)
      rwa [List.cons_append, List.append_assoc] at h
    rw [hide_append (inert_quote _), if_pos hp, hdrop, hide_keyless keyless_space,
      hide_keyless keyless_quote, List.append_assoc]
  | false =>
    refine ⟨(scan 0 x).1 ++ '"' :: (key ++ ['"', ':']), fun y => ?_⟩
    rw [hide_append (inert_quote _), hp, if_neg Bool.false_ne_true, hide_keyless keyless_quote,
      hide_plain (fun c hc => hk.plain hc) keyless_quote (.inl (by decide)),
      hide_keyless keyless_colon, hide_keyless keyless_space, hide_keyless keyless_quote]
    simp

/-- `K=v`: an earlier assignment takes the key and the value with it. -/
theorem hide_equals (hk : IsKey key) (hv : IsRun v) (x q : List Char) :
    hideCredentials u (x ++ (key ++ '=' :: (v ++ q))) =
      (scan 0 x).1 ++ (redacted ++ hideCredentials u (q.dropWhile isValueChar)) := by
  have hrun : ∀ c ∈ key ++ '=' :: v, isValueChar c = true := by
    intro c hc
    rcases List.mem_append.mp hc with hc | hc
    · exact value_of_plain (hk.plain hc)
    rcases List.mem_cons.mp hc with rfl | hc
    · rfl
    · exact hv.all c hc
  have hdrop : (key ++ '=' :: (v ++ q)).dropWhile isValueChar = q.dropWhile isValueChar := by
    have h : (key ++ '=' :: v ++ q).dropWhile isValueChar = q.dropWhile isValueChar :=
      List.dropWhile_append_of_pos hrun
    rwa [List.append_assoc] at h
  rw [hide_append (inert_key hk (keyless_of_not_plain (by decide))), hdrop,
    hide_assigned hk rfl hv (hv.dropWhile q), ite_self]

/-- `K: v`, if the key is not in the value of an earlier assignment. -/
theorem hide_colon (hk : IsKey key) (hv : IsRun v) (hp : inValue x = false) (q : List Char) :
    hideCredentials u (x ++ (key ++ ':' :: ' ' :: (v ++ q))) =
      (scan 0 x).1 ++ (redacted ++ hideCredentials u (q.dropWhile isValueChar)) := by
  have hspace : (' ' :: (v ++ q)).dropWhile Py.isSpace = v ++ q := by
    rw [List.dropWhile_cons, if_pos (by decide), hv.dropWhile]
  rw [hide_append (inert_key hk keyless_colon), hp, if_neg Bool.false_ne_true,
    hide_assigned hk rfl hv hspace]

instance (key : List Char) : Decidable (IsKey key) := inferInstanceAs (Decidable (_ ∈ _))

/-- The scheme of a header and the space behind it, up to a key at its end. -/
def beforeKey : List Char → List Char
  | [] => [' ']
  | c :: s => if IsKey (c :: s) then [] else c :: beforeKey s

/-- Either the scheme ends in a key or it does not. -/
theorem beforeKey_cases (s : List Char) :
    (beforeKey s = s ++ [' '] ∧ ∀ d, d <:+ s → d ≠ [] → ¬ IsKey d) ∨
      ∃ key, IsKey key ∧ s = beforeKey s ++ key := by
  induction s with
  | nil =>
    refine .inl ⟨rfl, fun d hd hne => absurd (List.suffix_nil.mp hd) hne⟩
  | cons c s ih =>
    unfold beforeKey
    split_ifs with hk
    · exact .inr ⟨c :: s, hk, rfl⟩
    · rcases ih with ⟨heq, hall⟩ | ⟨key, hkey, heq⟩
      · refine .inl ⟨by rw [heq, List.cons_append], fun d hd hne => ?_⟩
        rcases List.suffix_cons_iff.mp hd with rfl | hd
        · exact hk
        · exact hall d hd hne
      · exact .inr ⟨key, hkey, by rw [List.cons_append, ← heq]⟩

/-- What a header scheme is made of. -/
structure IsScheme (scheme : List Char) : Prop where
  ne_nil : scheme ≠ []
  plain : ∀ c ∈ scheme, isPlain c = true
  mail : '@' ∉ scheme
  home : '/' ∉ scheme

variable {scheme : List Char}

/-- The value of an `Authorization` header is its scheme. -/
theorem hide_header (hk : IsKey key) (hs : IsScheme scheme) (hp : inValue x = false)
    (y : List Char) : hideCredentials u (x ++ (key ++ ':' :: ' ' :: (scheme ++ ' ' :: y))) =
      ((scan 0 x).1 ++ redacted) ++ ' ' :: hideCredentials u y := by
  have hrun : IsRun scheme := ⟨hs.ne_nil, fun c hc => value_of_plain (hs.plain c hc)⟩
  have hspace : (' ' :: (scheme ++ ' ' :: y)).dropWhile Py.isSpace = scheme ++ ' ' :: y := by
    rw [List.dropWhile_cons, if_pos (by decide), hrun.dropWhile]
  rw [hide_append (inert_key hk keyless_colon), hp, if_neg Bool.false_ne_true,
    hide_assigned hk rfl hrun hspace, List.dropWhile_cons, if_neg (by decide),
    hide_keyless keyless_space, List.append_assoc]

/-- A scheme in which no key ends is shown. -/
theorem hide_scheme (hs : IsScheme scheme) (h : ∀ d, d <:+ scheme → d ≠ [] → ¬ IsKey d)
    (y : List Char) :
    hideCredentials u (scheme ++ ' ' :: y) = scheme ++ ' ' :: hideCredentials u y :=
  hide_plain hs.plain keyless_space (.inr h) y

/-- A scheme that ends in a key: what stands before the key is shown, and then
    the key or a match. -/
theorem hide_scheme_key (hs : ∀ c ∈ s, isPlain c = true) (hk : IsKey key) (y : List Char) :
    hideCredentials u (s ++ (key ++ ' ' :: y)) =
      s ++ hideCredentials u (key ++ ' ' :: y) := by
  refine Regex.sub_append_of_none plain_credential fun d hd hne => rests_of_none ?_
  rw [← List.append_assoc]
  refine valueStart_of_plain (fun c hc => ?_) keyless_space (.inr (hk.not_append hne))
  rcases List.mem_append.mp hc with hc | hc
  · exact hs c (hd.subset hc)
  · exact hk.plain hc

theorem valueStart_key (hk : IsKey key) (y : List Char) :
    valueStart (key ++ ' ' :: y) = assignRest y := by
  unfold valueStart
  rw [keyRest_key hk, Option.bind_some]
  simp only [assignRest, List.dropWhile_cons, show Py.isSpace ' ' = true from rfl, if_true]

/-- Without a match the key stays. -/
theorem hide_key_space (hk : IsKey key)
    (h : Regex.rests credentialPattern (key ++ ' ' :: y) = []) :
    hideCredentials u (key ++ ' ' :: y) = key ++ ' ' :: hideCredentials u y := by
  have hsub : hideCredentials u (key ++ ' ' :: y) = key ++ hideCredentials u (' ' :: y) := by
    refine Regex.sub_append_of_none plain_credential fun d hd hne => ?_
    by_cases hd' : d = key
    · rw [hd']
      exact h
    · have hnot : ¬ IsKey d := fun hkey => by
        obtain ⟨r, rfl⟩ := hd
        refine hkey.not_append ?_ hk
        rintro rfl
        exact hd' rfl
      exact rests_of_none (valueStart_of_plain (fun c hc => hk.plain (hd.subset hc)) keyless_space
        (.inr hnot))
  rw [hsub, hide_keyless keyless_space]

end Supervisor

end DiscordAgent
