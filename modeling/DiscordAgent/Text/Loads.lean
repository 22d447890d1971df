import DiscordAgent.Model.JsonDecoder

/-!
# `json.loads` reads what `json.dump` writes

* `scanString_quote`: a string literal, with and without `ensure_ascii`.
* `scanAtom_toString`: an integer.
* `reads`: a value, the items of an array and the fields of an object, with the fuel that
  their text needs.
* `loads_encode`: a whole text; `loads_dumps`: with the default settings.
-/

namespace DiscordAgent

namespace Json

/-! ## Characters -/

theorem skipBlanks_cons_of_not {c : Char} (h : isBlank c = false) (s : List Char) :
    skipBlanks (c :: s) = c :: s := by
  unfold skipBlanks
  rw [List.dropWhile_cons_of_neg (by simp [h])]

theorem skipBlanks_append {w : List Char} (h : ∀ c ∈ w, isBlank c = true) (s : List Char) :
    skipBlanks (w ++ s) = skipBlanks s := List.dropWhile_append_of_pos h

theorem skipBlanks_newline (st : Style) (level : ℕ) (s : List Char) :
    skipBlanks (st.newline level ++ s) = skipBlanks s := by
  apply skipBlanks_append
  intro c hc
  unfold Style.newline at hc
  split at hc
  · rcases List.mem_cons.mp hc with rfl | hc
    · rfl
    · rw [(List.mem_replicate.mp hc).2]
      rfl
  · cases hc

theorem hexValue_hexDigit : ∀ n < 16, hexValue (hexDigit n) = some n := by decide

theorem decodeUnit_escapeUnit {n : ℕ} (h : n < 65536) (s : List Char) :
    decodeUnit ((escapeUnit n).drop 2 ++ s) = some n := by
  have hdigit : ∀ m, hexValue (hexDigit (m % 16)) = some (m % 16) := fun m =>
    hexValue_hexDigit _ (Nat.mod_lt _ (by decide))
  simp only [escapeUnit, List.drop_succ_cons, List.drop_zero, List.cons_append, List.nil_append,
    decodeUnit, hdigit, Option.some.injEq]
  omega

/-- The escape is taken off the text. -/
theorem scanStringAux_skip (x s : List Char) :
    scanStringAux x.length (x ++ s) = scanStringAux 0 s := by
  induction x with
  | nil => rfl
  | cons c x ih => exact ih

theorem scanStringAux_escape {e : List Char} {c : Char} {s : List Char}
    (h : unescape (e ++ s) = some (c, e.length)) :
    scanStringAux 0 ('\\' :: e ++ s) = (scanStringAux 0 s).map fun p => (c :: p.1, p.2) := by
  have hstep : scanStringAux 0 ('\\' :: (e ++ s)) =
      (unescape (e ++ s)).bind fun f =>
        (scanStringAux f.2 (e ++ s)).map fun p => (f.1 :: p.1, p.2) := by
    rw [scanStringAux, if_neg (by decide), if_pos rfl]
  rw [List.cons_append, hstep, h, Option.bind_some, scanStringAux_skip]

theorem scanStringAux_char {c : Char} (hq : c ≠ '"') (hb : c ≠ '\\') (hc : ¬ c.toNat < 32)
    (s : List Char) :
    scanStringAux 0 (c :: s) = (scanStringAux 0 s).map fun p => (c :: p.1, p.2) := by
  rw [scanStringAux, if_neg hq, if_neg hb, if_neg hc]

theorem not_surrogate (c : Char) : ¬ (55296 ≤ c.toNat ∧ c.toNat < 57344) := by
  have h := c.valid
  simp only [UInt32.isValidChar, Nat.isValidChar] at h
  simp only [Char.toNat]
  omega

theorem toNat_lt (c : Char) : c.toNat < 1114112 := by
  have h := c.valid
  simp only [UInt32.isValidChar, Nat.isValidChar] at h
  simp only [Char.toNat]
  omega

theorem decodePair_unit {c : Char} (h : c.toNat < 65536) (s : List Char) :
    decodePair ((escapeUnit c.toNat).drop 2 ++ s) = some (c, 5) := by
  have hs := not_surrogate c
  rw [decodePair, decodeUnit_escapeUnit h, Option.bind_some, if_neg (by omega), if_neg (by omega),
    Char.ofNat_toNat]

theorem decodePair_pair {c : Char} (h : ¬ c.toNat < 65536) (s : List Char) :
    decodePair ((escapeUnit (55296 + (c.toNat - 65536) / 1024)).drop 2 ++
      (escapeUnit (56320 + (c.toNat - 65536) % 1024) ++ s)) = some (c, 11) := by
  have hc := toNat_lt c
  have hlo := decodeUnit_escapeUnit (n := 56320 + (c.toNat - 65536) % 1024) (by omega) s
  rw [decodePair, decodeUnit_escapeUnit (by omega), Option.bind_some, if_pos (by omega)]
  have hdrop : ((escapeUnit (55296 + (c.toNat - 65536) / 1024)).drop 2 ++
      (escapeUnit (56320 + (c.toNat - 65536) % 1024) ++ s)).drop 4 =
        '\\' :: 'u' :: ((escapeUnit (56320 + (c.toNat - 65536) % 1024)).drop 2 ++ s) := rfl
  rw [hdrop]
  simp only []
  rw [hlo, Option.bind_some, if_pos (by omega)]
  have hsame : 65536 + 1024 * (55296 + (c.toNat - 65536) / 1024 - 55296) +
      (56320 + (c.toNat - 65536) % 1024 - 56320) = c.toNat := by omega
  rw [hsame, Char.ofNat_toNat]

/-- What `escapeChar` writes is read as one character. -/
theorem scanStringAux_escapeChar (c : Char) (s : List Char) :
    scanStringAux 0 (escapeChar c ++ s) = (scanStringAux 0 s).map fun p => (c :: p.1, p.2) := by
  dsimp only [escapeChar]
  have hshort : ∀ x : Char, c.toNat = x.toNat → c = x := fun x hx => Char.toNat_inj.mp hx
  split_ifs with hq hb hp hn hr ht hf hb' hu
  · subst hq
    exact scanStringAux_escape (e := ['"']) rfl
  · subst hb
    exact scanStringAux_escape (e := ['\\']) rfl
  · exact scanStringAux_char hq hb (by omega) s
  · obtain rfl := hshort '\n' hn
    exact scanStringAux_escape (e := ['n']) rfl
  · obtain rfl := hshort '\r' hr
    exact scanStringAux_escape (e := ['r']) rfl
  · obtain rfl := hshort '\t' ht
    exact scanStringAux_escape (e := ['t']) rfl
  · obtain rfl := hshort (Char.ofNat 12) hf
    exact scanStringAux_escape (e := ['f']) rfl
  · obtain rfl := hshort (Char.ofNat 8) hb'
    exact scanStringAux_escape (e := ['b']) rfl
  · exact scanStringAux_escape (e := 'u' :: (escapeUnit c.toNat).drop 2) (decodePair_unit hu s)
  · have h := scanStringAux_escape (c := c) (s := s)
      (e := 'u' :: (escapeUnit (55296 + (c.toNat - 65536) / 1024)).drop 2 ++
        escapeUnit (56320 + (c.toNat - 65536) % 1024)) (by
          have hpair := decodePair_pair hu s
          rw [← List.append_assoc] at hpair
          exact hpair)
    exact h

theorem scanStringAux_escapeCharRaw (c : Char) (s : List Char) :
    scanStringAux 0 (escapeCharRaw c ++ s) = (scanStringAux 0 s).map fun p => (c :: p.1, p.2) := by
  unfold escapeCharRaw
  split_ifs with h
  · exact scanStringAux_escapeChar c s
  · push Not at h
    exact scanStringAux_char h.1 h.2.1 (by omega) s

/-- A string literal is read back. -/
theorem scanString_quote (st : Style) (x : String) (s : List Char) :
    scanString ((st.quote x).tail ++ s) = some (x, s) := by
  have hchars : ∀ f : Char → List Char, (∀ c s, scanStringAux 0 (f c ++ s) =
      (scanStringAux 0 s).map fun p => (c :: p.1, p.2)) → ∀ cs : List Char,
        scanStringAux 0 (cs.flatMap f ++ '"' :: s) = some (cs, s) := by
    intro f hf cs
    induction cs with
    | nil => rfl
    | cons c cs ih =>
      rw [List.flatMap_cons, List.append_assoc, hf, ih]
      rfl
  have htail : (st.quote x).tail ++ s =
      x.toList.flatMap (if st.ensureAscii then escapeChar else escapeCharRaw) ++ '"' :: s := by
    simp [Style.quote]
  rw [scanString, htail, hchars _ ?_ x.toList]
  · simp
  · split_ifs
    · exact scanStringAux_escapeChar
    · exact scanStringAux_escapeCharRaw

/-! ## Numbers and names -/

/-- The text goes on with something that is no part of a number. -/
def Boundary (r : List Char) : Prop :=
  ∀ c ∈ r.head?, c.isDigit = false ∧ c ≠ '.' ∧ c ≠ 'e' ∧ c ≠ 'E'

theorem takeWhile_digits {ds r : List Char} (hd : ∀ c ∈ ds, c.isDigit = true) (hr : Boundary r) :
    (ds ++ r).takeWhile Char.isDigit = ds := by
  rw [List.takeWhile_append_of_pos hd]
  cases r with
  | nil => simp
  | cons c r => rw [List.takeWhile_cons_of_neg (by simp [(hr c rfl).1]), List.append_nil]

/-- A numeral does not start with a zero, unless it is the zero. -/
theorem head?_toDigits {n : ℕ} (hn : n ≠ 0) : ∀ c ∈ (Nat.toDigits 10 n).head?, c ≠ '0' := by
  induction n using Nat.strong_induction_on with
  | h n ih =>
    by_cases hlt : n < 10
    · rw [Nat.toDigits_of_lt_base hlt]
      have hall : ∀ m < 10, m ≠ 0 → m.digitChar ≠ '0' := by decide
      rintro c hc
      cases hc
      exact hall n hlt hn
    · have hrest := ih (n / 10) (by omega) (by omega)
      -- the first digit is that of `n / 10`
      obtain ⟨d, ds, hds⟩ :=
        List.exists_cons_of_ne_nil (Nat.toDigits_ne_nil (n := n / 10) (b := 10))
      rw [hds] at hrest
      rw [Nat.toDigits_of_base_le (by decide) (by omega), hds]
      exact hrest

theorem integerPart_toDigits (n : ℕ) {r : List Char} (hr : Boundary r) :
    integerPart (Nat.toDigits 10 n ++ r) = Nat.toDigits 10 n := by
  by_cases hn : n = 0
  · subst hn
    rfl
  · have hdigits : ∀ c ∈ Nat.toDigits 10 n, c.isDigit = true := fun c hc =>
      Nat.isDigit_of_mem_toDigits (by decide) (by decide) hc
    have hhead := head?_toDigits hn
    have htake := takeWhile_digits hdigits hr
    cases hcs : Nat.toDigits 10 n with
    | nil => exact absurd hcs Nat.toDigits_ne_nil
    | cons c cs =>
      rw [hcs] at hhead htake
      have hc : c ≠ '0' := hhead c rfl
      rw [List.cons_append] at htake ⊢
      unfold integerPart
      split
      · next heq => exact absurd (List.cons.inj heq).1 hc
      · exact htake

theorem fractionPart_boundary {r : List Char} (hr : Boundary r) : fractionPart r = [] := by
  unfold fractionPart
  split
  · exact absurd rfl (hr '.' rfl).2.1
  · rfl

theorem exponentPart_boundary {r : List Char} (hr : Boundary r) : exponentPart r = [] := by
  cases r with
  | nil => rfl
  | cons c r =>
    obtain ⟨-, -, he, hE⟩ := hr c rfl
    unfold exponentPart
    exact if_neg fun h => h.1.elim he hE

variable {floatOf : List Char → PyFloat}

theorem signPart_digits (m : ℕ) (r : List Char) :
    signPart ['-'] (Nat.toDigits 10 m ++ r) = [] := by
  cases hcs : Nat.toDigits 10 m with
  | nil => exact absurd hcs Nat.toDigits_ne_nil
  | cons c cs =>
    have hc : c.isDigit = true :=
      Nat.isDigit_of_mem_toDigits (by decide) (by decide) (hcs ▸ List.mem_cons_self)
    refine if_neg fun hmem => ?_
    rw [List.mem_singleton.mp hmem] at hc
    cases hc

/-- A numeral with or without a sign. -/
theorem scanNumber_digits {sign : List Char} (hsign : sign = [] ∨ sign = ['-']) (m : ℕ)
    {r : List Char} (hr : Boundary r) (hm : (Nat.toDigits 10 m).length ≤ maxIntDigits) :
    scanNumber floatOf (sign ++ (Nat.toDigits 10 m ++ r)) =
      some (.int (if sign = [] then (m : ℤ) else -(m : ℤ)), r) := by
  have hpart : signPart ['-'] (sign ++ (Nat.toDigits 10 m ++ r)) = sign := by
    rcases hsign with rfl | rfl
    · exact signPart_digits m r
    · rfl
  simp only [scanNumber, hpart, List.drop_left, integerPart_toDigits m hr,
    fractionPart_boundary hr, exponentPart_boundary hr, List.length_nil, List.drop_zero,
    List.append_nil, if_neg Nat.toDigits_ne_nil, if_pos hm, Nat.ofDigitChars_ten_toDigits, if_true]

theorem toList_toString (n : ℤ) : ∃ sign, (sign = [] ∨ sign = ['-']) ∧
    (toString n).toList = sign ++ Nat.toDigits 10 n.natAbs ∧
      (if sign = [] then (n.natAbs : ℤ) else -(n.natAbs : ℤ)) = n := by
  rw [Int.toString_eq_repr, Int.repr_eq_if]
  split_ifs with hn
  · refine ⟨[], .inl rfl, ?_, ?_⟩
    · have habs : n.toNat = n.natAbs := by omega
      rw [Nat.toList_repr, List.nil_append, habs]
    · rw [if_pos rfl]
      omega
  · refine ⟨['-'], .inr rfl, ?_, ?_⟩
    · rw [String.toList_append, Nat.toList_repr]
      have habs : (-n).toNat = n.natAbs := by omega
      rw [habs]
      rfl
    · rw [if_neg (by simp)]
      omega

/-- The numeral of an integer is read back. -/
theorem scanNumber_toString (n : ℤ) {r : List Char} (hr : Boundary r)
    (hn : (Nat.toDigits 10 n.natAbs).length ≤ maxIntDigits) :
    scanNumber floatOf ((toString n).toList ++ r) = some (.int n, r) := by
  obtain ⟨sign, hsign, htext, hvalue⟩ := toList_toString n
  rw [htext, List.append_assoc, scanNumber_digits hsign n.natAbs hr hn, hvalue]

/-- A character that a value without quotes and brackets starts with. -/
def isOpening (c : Char) : Bool := c.isDigit || "-ntfNI".toList.contains c

theorem isOpening_facts {c : Char} (h : isOpening c = true) : isBlank c = false ∧ c ≠ '"' ∧
    c ≠ '[' ∧ c ≠ ']' ∧ c ≠ '\x7b' ∧ c ≠ byteOrderMark := by
  have hcases : (48 ≤ c.toNat ∧ c.toNat ≤ 57) ∨ c = '-' ∨ c = 'n' ∨ c = 't' ∨ c = 'f' ∨ c = 'N' ∨
      c = 'I' := by
    rcases (Bool.or_eq_true _ _).mp h with hd | hmem
    · exact .inl (Char.isDigit_iff_toNat.mp hd)
    · right
      simpa using hmem
  have hne : ∀ d : Char, ¬ (48 ≤ d.toNat ∧ d.toNat ≤ 57) → 48 ≤ c.toNat ∧ c.toNat ≤ 57 → c ≠ d := by
    rintro d hd hc rfl
    exact hd hc
  rcases hcases with hd | rfl | rfl | rfl | rfl | rfl | rfl
  · refine ⟨?_, hne _ (by decide) hd, hne _ (by decide) hd, hne _ (by decide) hd,
      hne _ (by decide) hd, hne _ (by decide) hd⟩
    simp only [isBlank, beq_eq_false_iff_ne.mpr (hne ' ' (by decide) hd),
      beq_eq_false_iff_ne.mpr (hne '\t' (by decide) hd),
      beq_eq_false_iff_ne.mpr (hne '\n' (by decide) hd),
      beq_eq_false_iff_ne.mpr (hne '\r' (by decide) hd), Bool.or_self]
  all_goals decide

variable (floatOf) in
/-- No name hides the numeral from `scanAtom`, and it starts like an atom. -/
theorem scanAtom_toString (n : ℤ) {r : List Char} (hr : Boundary r)
    (hn : (Nat.toDigits 10 n.natAbs).length ≤ maxIntDigits) :
    scanAtom floatOf ((toString n).toList ++ r) = some (.int n, r) ∧
      ∃ c s, (toString n).toList = c :: s ∧ isOpening c = true := by
  obtain ⟨sign, hsign, htext, hvalue⟩ := toList_toString n
  have hhead : ∃ c s, (toString n).toList = c :: s ∧ (c.isDigit = true ∨ c = '-') := by
    rw [htext]
    rcases hsign with rfl | rfl
    · cases hcs : Nat.toDigits 10 n.natAbs with
      | nil => exact absurd hcs Nat.toDigits_ne_nil
      | cons c cs =>
        exact ⟨c, cs, rfl, .inl (Nat.isDigit_of_mem_toDigits (by decide) (by decide)
          (hcs ▸ List.mem_cons_self))⟩
    · exact ⟨'-', _, rfl, .inr rfl⟩
  obtain ⟨c, s, hcs, hc⟩ := hhead
  have hnames : scanName [("null", .null), ("true", .bool true), ("false", .bool false)]
      ((toString n).toList ++ r) = none := by
    have hne : c ≠ 'n' ∧ c ≠ 't' ∧ c ≠ 'f' := by
      refine ⟨?_, ?_, ?_⟩
      all_goals
        rintro rfl
        revert hc
        decide
    rw [hcs, scanName, Option.map_eq_none_iff, List.find?_eq_none]
    intro p hp
    simp only [List.mem_cons, List.not_mem_nil, or_false] at hp
    rcases hp with rfl | rfl | rfl
    · simp [Ne.symm hne.1]
    · simp [Ne.symm hne.2.1]
    · simp [Ne.symm hne.2.2]
  refine ⟨?_, c, s, hcs, ?_⟩
  · rw [scanAtom, hnames, scanNumber_toString n hr hn]
    rfl
  · rcases hc with hc | rfl
    · exact (Bool.or_eq_true _ _).mpr (.inl hc)
    · decide

/-! ## Values -/

section RoundTrip

variable (floatOf : List Char → PyFloat) (floatText : PyFloat → List Char) (st : Style)

/-- The text of a float is read back. -/
structure ReadsBack (f : PyFloat) : Prop where
  opening : ∃ c s, floatText f = c :: s ∧ isOpening c = true
  scan : ∀ r, Boundary r → scanAtom floatOf (floatText f ++ r) = some (.float f, r)

mutual

/-- A value that Python can hold and write: the keys of an object differ, and no integer has
    more digits than `int` converts. -/
def Writable : Json → Prop
  | null | bool _ | str _ => True
  | int n => (Nat.toDigits 10 n.natAbs).length ≤ maxIntDigits
  | float f => ReadsBack floatOf floatText f
  | arr vs => WritableItems vs
  | obj ps => (ps.map Prod.fst).Nodup ∧ WritableFields ps

def WritableItems : List Json → Prop
  | [] => True
  | v :: vs => Writable v ∧ WritableItems vs

def WritableFields : List (String × Json) → Prop
  | [] => True
  | p :: ps => WritableField p ∧ WritableFields ps

def WritableField : String × Json → Prop
  | (_, v) => Writable v

end

theorem setField_of_not_mem {key : String} {v : Json} {ps : List (String × Json)}
    (h : key ∉ ps.map Prod.fst) : setField key v ps = ps ++ [(key, v)] := by
  induction ps with
  | nil => rfl
  | cons p ps ih =>
    have hne : p.1 ≠ key := fun heq => h (heq ▸ List.mem_cons_self)
    rw [setField, if_neg hne, ih fun hmem => h (List.mem_cons_of_mem _ hmem)]
    rfl

/-- Pairs with different keys are the dict. -/
theorem dictOf_of_nodup {ps : List (String × Json)} (h : (ps.map Prod.fst).Nodup) :
    dictOf ps = ps := by
  have hfold : ∀ d : List (String × Json), ((d ++ ps).map Prod.fst).Nodup →
      ps.foldl (fun d p => setField p.1 p.2 d) d = d ++ ps := by
    clear h
    induction ps with
    | nil => exact fun d _ => (List.append_nil d).symm
    | cons p ps ih =>
      intro d hd
      have hnot : p.1 ∉ d.map Prod.fst := by
        rw [List.map_append, List.map_cons] at hd
        exact fun hmem => (List.nodup_append.mp hd).2.2 p.1 hmem p.1 List.mem_cons_self rfl
      have hd' : (((d ++ [p]) ++ ps).map Prod.fst).Nodup := by
        rw [List.append_assoc]
        exact hd
      rw [List.foldl_cons, setField_of_not_mem hnot, ih _ hd', List.append_assoc]
      rfl
  exact hfold [] h

theorem boundary_newline {c : Char} {r : List Char} (hc : Boundary (c :: r)) (level : ℕ) :
    Boundary (st.newline level ++ c :: r) := by
  unfold Style.newline
  split
  · rintro d hd
    cases hd
    decide
  · exact hc

theorem boundary_separator (level : ℕ) (r : List Char) : Boundary (st.separator level ++ r) := by
  unfold Style.separator
  split
  · rintro d hd
    cases hd
    decide
  · rintro d hd
    cases hd
    decide

theorem length_separator_pos (level : ℕ) : 0 < (st.separator level).length := by
  unfold Style.separator
  split <;> exact Nat.succ_pos _

/-- A separator is a comma, with blanks behind it. -/
theorem separator_cons (level : ℕ) (r : List Char) : ∃ s, st.separator level ++ r = ',' :: s ∧
    skipBlanks s = skipBlanks r := by
  unfold Style.separator
  split
  · exact ⟨st.newline level ++ r, rfl, skipBlanks_newline st level r⟩
  · exact ⟨' ' :: r, rfl, rfl⟩

/-- A value starts with a character that is neither a blank nor a closing bracket. -/
theorem encode_cons {v : Json} (hv : Writable floatOf floatText v) (level : ℕ) :
    ∃ c s, encode floatText st level v = c :: s ∧ isBlank c = false ∧ c ≠ ']' ∧
      c ≠ byteOrderMark := by
  have hopening : ∀ t : List Char, (∃ c s, t = c :: s ∧ isOpening c = true) →
      ∃ c s, t = c :: s ∧ isBlank c = false ∧ c ≠ ']' ∧ c ≠ byteOrderMark := by
    rintro t ⟨c, s, ht, hc⟩
    obtain ⟨hblank, -, -, hclose, -, hmark⟩ := isOpening_facts hc
    exact ⟨c, s, ht, hblank, hclose, hmark⟩
  cases v with
  | null => exact ⟨'n', _, rfl, by decide, by decide, by decide⟩
  | bool b =>
    cases b
    · exact ⟨'f', _, rfl, by decide, by decide, by decide⟩
    · exact ⟨'t', _, rfl, by decide, by decide, by decide⟩
  | int n => exact hopening _ (scanAtom_toString floatOf n (r := []) (by simp [Boundary]) hv).2
  | float f => exact hopening _ (ReadsBack.opening hv)
  | str x => exact ⟨'"', _, rfl, by decide, by decide, by decide⟩
  | arr vs => cases vs <;> exact ⟨'[', _, rfl, by decide, by decide, by decide⟩
  | obj ps => cases ps <;> exact ⟨'\x7b', _, rfl, by decide, by decide, by decide⟩

variable {floatOf floatText st}

theorem encode_arr (v : Json) (vs : List Json) (level : ℕ) :
    encode floatText st level (.arr (v :: vs)) = '[' :: st.newline (level + 1) ++
      encode floatText st (level + 1) v ++ encodeItems floatText st (level + 1) vs ++
        st.newline level ++ [']'] := rfl

theorem encode_obj (p : String × Json) (ps : List (String × Json)) (level : ℕ) :
    encode floatText st level (.obj (p :: ps)) = '\x7b' :: st.newline (level + 1) ++
      encodeField floatText st (level + 1) p ++ encodeFields floatText st (level + 1) ps ++
        st.newline level ++ ['\x7d'] := rfl

theorem encodeItems_nil (level : ℕ) : encodeItems floatText st level [] = [] := rfl

theorem encodeItems_cons (v : Json) (vs : List Json) (level : ℕ) :
    encodeItems floatText st level (v :: vs) =
      st.separator level ++ encode floatText st level v ++ encodeItems floatText st level vs := rfl

theorem encodeFields_nil (level : ℕ) : encodeFields floatText st level [] = [] := rfl

theorem encodeFields_cons (p : String × Json) (ps : List (String × Json)) (level : ℕ) :
    encodeFields floatText st level (p :: ps) = st.separator level ++
      encodeField floatText st level p ++ encodeFields floatText st level ps := rfl

theorem encodeField_mk (key : String) (v : Json) (level : ℕ) :
    encodeField floatText st level (key, v) =
      st.quote key ++ ": ".toList ++ encode floatText st level v := rfl

/-- A text that starts like an atom is one. -/
theorem scanOnce_opening {fuel : ℕ} {c : Char} {s : List Char} (hc : isOpening c = true) :
    scanOnce floatOf (fuel + 1) (c :: s) = scanAtom floatOf (c :: s) := by
  obtain ⟨-, hq, hb, -, ho, -⟩ := isOpening_facts hc
  rw [scanOnce]
  · exact fun t heq => hq (List.cons.inj heq).1
  · exact fun t heq => hb (List.cons.inj heq).1
  · exact fun t heq => ho (List.cons.inj heq).1

/-- What a scan with this fuel makes of a text that was written. -/
structure Reads (floatOf : List Char → PyFloat) (floatText : PyFloat → List Char) (st : Style)
    (fuel : ℕ) : Prop where
  once : ∀ (v : Json) (level : ℕ) (r : List Char), Writable floatOf floatText v → Boundary r →
    2 * (encode floatText st level v).length + 1 ≤ fuel →
      scanOnce floatOf fuel (encode floatText st level v ++ r) = some (v, r)
  items : ∀ (v : Json) (vs : List Json) (level l : ℕ) (r : List Char),
    WritableItems floatOf floatText (v :: vs) →
    2 * (encode floatText st level v ++ encodeItems floatText st level vs).length + 2 ≤ fuel →
      scanItems floatOf fuel (encode floatText st level v ++
        (encodeItems floatText st level vs ++ (st.newline l ++ ']' :: r))) = some (v :: vs, r)
  fields : ∀ (p : String × Json) (ps : List (String × Json)) (level l : ℕ) (r : List Char),
    WritableFields floatOf floatText (p :: ps) →
    2 * (encodeField floatText st level p ++ encodeFields floatText st level ps).length + 2 ≤
      fuel →
      scanFields floatOf fuel (encodeField floatText st level p ++
        (encodeFields floatText st level ps ++ (st.newline l ++ '\x7d' :: r))) =
          some (p :: ps, r)

variable (st) in
/-- No blank stands before a value. -/
theorem skipBlanks_encode {v : Json} (hv : Writable floatOf floatText v) (level : ℕ)
    (r : List Char) :
    skipBlanks (encode floatText st level v ++ r) = encode floatText st level v ++ r := by
  obtain ⟨c, s, hcs, hc, -⟩ := encode_cons floatOf floatText st hv level
  rw [hcs, List.cons_append, skipBlanks_cons_of_not hc]

theorem boundary_close {c : Char} (hc : c = ']' ∨ c = '\x7d') (r : List Char) :
    Boundary (c :: r) := by
  rintro d hd
  cases hd
  rcases hc with rfl | rfl <;> decide

/-- A field starts with its key's quote. -/
theorem field_cons (level : ℕ) (p : String × Json) (r : List Char) :
    encodeField floatText st level p ++ r =
      '"' :: ((st.quote p.1).tail ++ (':' :: ' ' :: (encode floatText st level p.2 ++ r))) := by
  obtain ⟨key, v⟩ := p
  simp [encodeField_mk, Style.quote]

namespace Reads

variable {fuel : ℕ} (ih : Reads floatOf floatText st fuel)
include ih

theorem array {v : Json} {vs : List Json} {level : ℕ} {r : List Char}
    (hv : WritableItems floatOf floatText (v :: vs))
    (hfuel : 2 * (encode floatText st level (.arr (v :: vs))).length + 1 ≤ fuel + 1) :
    scanOnce floatOf (fuel + 1) (encode floatText st level (.arr (v :: vs)) ++ r) =
      some (.arr (v :: vs), r) := by
  obtain ⟨c, s, hcs, -, hc, -⟩ := encode_cons floatOf floatText st hv.1 (level + 1)
  have htext : encode floatText st level (.arr (v :: vs)) ++ r =
      '[' :: (st.newline (level + 1) ++ (encode floatText st (level + 1) v ++
        (encodeItems floatText st (level + 1) vs ++ (st.newline level ++ ']' :: r)))) := by
    simp only [encode_arr, List.cons_append, List.append_assoc, List.nil_append]
  have hlen : 2 * (encode floatText st (level + 1) v ++
      encodeItems floatText st (level + 1) vs).length + 2 ≤ fuel := by
    simp only [encode_arr, List.length_append, List.length_cons] at hfuel ⊢
    omega
  have hitems := ih.items v vs (level + 1) level r hv hlen
  rw [htext, scanOnce, skipBlanks_newline, skipBlanks_encode st hv.1]
  rw [hcs, List.cons_append] at hitems ⊢
  split
  · next heq => exact absurd (List.cons.inj heq).1 hc
  · rw [hitems]
    rfl

theorem object {p : String × Json} {ps : List (String × Json)} {level : ℕ} {r : List Char}
    (hv : Writable floatOf floatText (.obj (p :: ps)))
    (hfuel : 2 * (encode floatText st level (.obj (p :: ps))).length + 1 ≤ fuel + 1) :
    scanOnce floatOf (fuel + 1) (encode floatText st level (.obj (p :: ps)) ++ r) =
      some (.obj (p :: ps), r) := by
  have htext : encode floatText st level (.obj (p :: ps)) ++ r =
      '\x7b' :: (st.newline (level + 1) ++ (encodeField floatText st (level + 1) p ++
        (encodeFields floatText st (level + 1) ps ++ (st.newline level ++ '\x7d' :: r)))) := by
    simp only [encode_obj, List.cons_append, List.append_assoc, List.nil_append]
  have hlen : 2 * (encodeField floatText st (level + 1) p ++
      encodeFields floatText st (level + 1) ps).length + 2 ≤ fuel := by
    simp only [encode_obj, List.length_append, List.length_cons] at hfuel ⊢
    omega
  have hfields := ih.fields p ps (level + 1) level r hv.2 hlen
  rw [htext, scanOnce, skipBlanks_newline]
  rw [field_cons] at hfields ⊢
  rw [skipBlanks_cons_of_not (by decide)]
  split
  · next heq => exact absurd (List.cons.inj heq).1 (by decide)
  · rw [hfields, Option.map_some, dictOf_of_nodup hv.1]

theorem once_succ {v : Json} {level : ℕ} {r : List Char} (hv : Writable floatOf floatText v)
    (hr : Boundary r) (hfuel : 2 * (encode floatText st level v).length + 1 ≤ fuel + 1) :
    scanOnce floatOf (fuel + 1) (encode floatText st level v ++ r) = some (v, r) := by
  cases v with
  | null => rfl
  | bool b => cases b <;> rfl
  | int n =>
    obtain ⟨hscan, c, s, hcs, hc⟩ := scanAtom_toString floatOf n hr hv
    rw [encode, ← hscan, hcs]
    exact scanOnce_opening hc
  | float f =>
    obtain ⟨c, s, hcs, hc⟩ := ReadsBack.opening hv
    rw [encode, ← ReadsBack.scan hv r hr, hcs]
    exact scanOnce_opening hc
  | str x =>
    have hquote : encode floatText st level (.str x) ++ r = '"' :: ((st.quote x).tail ++ r) := rfl
    rw [hquote, scanOnce, scanString_quote]
    rfl
  | arr vs =>
    cases vs with
    | nil => rfl
    | cons v vs => exact ih.array hv hfuel
  | obj ps =>
    cases ps with
    | nil => rfl
    | cons p ps => exact ih.object hv hfuel

theorem items_succ {v : Json} {vs : List Json} {level l : ℕ} {r : List Char}
    (hv : WritableItems floatOf floatText (v :: vs))
    (hfuel : 2 * (encode floatText st level v ++ encodeItems floatText st level vs).length + 2 ≤
      fuel + 1) :
    scanItems floatOf (fuel + 1) (encode floatText st level v ++
      (encodeItems floatText st level vs ++ (st.newline l ++ ']' :: r))) = some (v :: vs, r) := by
  rw [List.length_append] at hfuel
  cases vs with
  | nil =>
    have hv' := ih.once v level _ hv.1 (boundary_newline st (boundary_close (.inl rfl) r) l)
      (by omega)
    rw [encodeItems_nil, List.nil_append, scanItems, hv', Option.bind_some, skipBlanks_newline,
      skipBlanks_cons_of_not (by decide)]
    rfl
  | cons w ws =>
    obtain ⟨s, hs, hblanks⟩ := separator_cons st level (encode floatText st level w ++
      (encodeItems floatText st level ws ++ (st.newline l ++ ']' :: r)))
    have hsep := length_separator_pos st level
    rw [encodeItems_cons, List.length_append, List.length_append] at hfuel
    have hrest : 2 * (encode floatText st level w ++ encodeItems floatText st level ws).length + 2 ≤
        fuel := by
      rw [List.length_append]
      omega
    have hitems := ih.items w ws level l r hv.2 hrest
    have hv' := ih.once v level _ hv.1 (boundary_separator st level
      (encode floatText st level w ++
        (encodeItems floatText st level ws ++ (st.newline l ++ ']' :: r)))) (by omega)
    rw [encodeItems_cons, List.append_assoc, List.append_assoc, scanItems, hv', Option.bind_some,
      hs, skipBlanks_cons_of_not (by decide)]
    change (scanItems floatOf fuel (skipBlanks s)).map (fun q => (v :: q.1, q.2)) = _
    rw [hblanks, skipBlanks_encode st hv.2.1, hitems]
    rfl

theorem fields_succ {p : String × Json} {ps : List (String × Json)} {level l : ℕ} {r : List Char}
    (hv : WritableFields floatOf floatText (p :: ps))
    (hfuel : 2 * (encodeField floatText st level p ++
      encodeFields floatText st level ps).length + 2 ≤ fuel + 1) :
    scanFields floatOf (fuel + 1) (encodeField floatText st level p ++
      (encodeFields floatText st level ps ++ (st.newline l ++ '\x7d' :: r))) =
        some (p :: ps, r) := by
  have hp : Writable floatOf floatText p.2 := by
    obtain ⟨key, v⟩ := p
    exact hv.1
  have hvalue : (encode floatText st level p.2).length ≤
      (encodeField floatText st level p).length := by
    obtain ⟨key, v⟩ := p
    simp only [encodeField_mk, List.length_append]
    omega
  rw [List.length_append] at hfuel
  rw [field_cons, scanFields, scanString_quote, Option.bind_some,
    skipBlanks_cons_of_not (by decide)]
  simp only
  have hspace : ∀ t : List Char, skipBlanks (' ' :: t) = skipBlanks t := fun _ => rfl
  rw [hspace, skipBlanks_encode st hp]
  cases ps with
  | nil =>
    have hv' := ih.once p.2 level _ hp (boundary_newline st (boundary_close (.inr rfl) r) l)
      (by omega)
    rw [encodeFields_nil, List.nil_append, hv', Option.bind_some, skipBlanks_newline,
      skipBlanks_cons_of_not (by decide)]
    rfl
  | cons q qs =>
    obtain ⟨s, hs, hblanks⟩ := separator_cons st level (encodeField floatText st level q ++
      (encodeFields floatText st level qs ++ (st.newline l ++ '\x7d' :: r)))
    have hsep := length_separator_pos st level
    rw [encodeFields_cons, List.length_append, List.length_append] at hfuel
    have hrest : 2 * (encodeField floatText st level q ++
        encodeFields floatText st level qs).length + 2 ≤ fuel := by
      rw [List.length_append]
      omega
    have hfields := ih.fields q qs level l r hv.2 hrest
    have hv' := ih.once p.2 level _ hp (boundary_separator st level
      (encodeField floatText st level q ++
        (encodeFields floatText st level qs ++ (st.newline l ++ '\x7d' :: r)))) (by omega)
    rw [encodeFields_cons, List.append_assoc, List.append_assoc, hv', Option.bind_some, hs,
      skipBlanks_cons_of_not (by decide)]
    change (scanFields floatOf fuel (skipBlanks s)).map (fun q => ((p.1, p.2) :: q.1, q.2)) = _
    rw [hblanks]
    rw [field_cons] at hfields ⊢
    rw [skipBlanks_cons_of_not (by decide), hfields]
    rfl

end Reads

/-- Every text that was written is read with enough fuel. -/
theorem reads (fuel : ℕ) : Reads floatOf floatText st fuel := by
  induction fuel with
  | zero =>
    exact
      { once := fun _ _ _ _ _ h => absurd h (by omega)
        items := fun _ _ _ _ _ _ h => absurd h (by omega)
        fields := fun _ _ _ _ _ _ h => absurd h (by omega) }
  | succ fuel ih =>
    exact
      { once := fun _ _ _ => ih.once_succ
        items := fun _ _ _ _ _ => ih.items_succ
        fields := fun _ _ _ _ _ => ih.fields_succ }

/-- `json.loads` of what `json.dump` wrote is the value. -/
theorem loads_encode {v : Json} (hv : Writable floatOf floatText v) :
    loads floatOf (encode floatText st 0 v) = some v := by
  obtain ⟨c, s, hcs, -, -, hc⟩ := encode_cons floatOf floatText st hv 0
  have hskip := skipBlanks_encode st hv 0 []
  have hscan : scanOnce floatOf (2 * (encode floatText st 0 v).length + 2)
      (encode floatText st 0 v ++ []) = some (v, []) :=
    (reads _).once v 0 [] hv (by simp [Boundary]) (Nat.le_succ _)
  rw [List.append_nil] at hscan hskip
  have hmark : (encode floatText st 0 v).head? ≠ some byteOrderMark := by
    rw [hcs]
    exact fun heq => hc (Option.some.inj heq)
  rw [loads, if_neg hmark, hskip, hscan, Option.bind_some]
  exact if_pos rfl

/-! ## The default settings -/

theorem quote_default (s : String) : ({} : Style).quote s = quote s := rfl

mutual

/-- With the default settings, `json.dump` writes the text of `json.dumps`. -/
theorem encode_default (level : ℕ) : ∀ v, encode floatText {} level v = dumps floatText v
  | null | bool _ | int _ | float _ | str _ | arr [] | obj [] => by
    simp [encode, dumps, dumpsItems, dumpsFields, quote_default]
  | arr (v :: vs) => by
    simp [encode, dumps, Style.newline, encode_default (level + 1) v,
      encodeItems_default (level + 1) v vs]
  | obj (p :: ps) => by
    simp [encode, dumps, Style.newline, encodeField_default (level + 1) p,
      encodeFields_default (level + 1) p ps]

theorem encodeItems_default (level : ℕ) (u : Json) : ∀ vs,
    dumpsItems floatText (u :: vs) = dumps floatText u ++ encodeItems floatText {} level vs
  | [] => by simp [dumpsItems, encodeItems]
  | v :: vs => by
    simp [dumpsItems, encodeItems, Style.separator, encode_default level v,
      encodeItems_default level v vs]

theorem encodeFields_default (level : ℕ) (q : String × Json) : ∀ ps,
    dumpsFields floatText (q :: ps) = dumpsField floatText q ++ encodeFields floatText {} level ps
  | [] => by simp [dumpsFields, encodeFields]
  | p :: ps => by
    simp [dumpsFields, encodeFields, Style.separator, encodeField_default level p,
      encodeFields_default level p ps]

theorem encodeField_default (level : ℕ) : ∀ p,
    encodeField floatText {} level p = dumpsField floatText p
  | (key, v) => by
    simp [encodeField, dumpsField, quote_default, encode_default level v]

end

/-- `json.loads` of what `json.dumps` wrote is the value. -/
theorem loads_dumps {v : Json} (hv : Writable floatOf floatText v) :
    loads floatOf (dumps floatText v) = some v := by
  rw [← encode_default 0 v]
  exact loads_encode hv

end RoundTrip

end Json

end DiscordAgent
