import DiscordAgent.Model.JsonText
import DiscordAgent.Text.Search

/-!
# String literals in JSON text

The text that `json.dumps` writes is woven from structure characters and string
literals. A text that is cut out of it can start or end within a literal; then
quotes that ended a literal seem to start one.

* `literals`: what a reader takes for the literals of a text.
* `Woven`: a text of structure characters and the literals of these strings;
  `woven_dumps`: `json.dumps` writes one.
* `Woven.split`: a delimiter in such a text lies within one literal.
* `literals_cut`: a text that ends within a literal has none.
* `structural_of_literals`: in a text that starts within a literal they consist of
  structure characters.
-/

namespace DiscordAgent

namespace Json

/-! ## Characters -/

/-- The characters outside of the literals in the text of a value without
    booleans and floats, and the newline. -/
def structural (c : Char) : Bool :=
  c.isDigit || "\x7b\x7d[]:, nul-\n".toList.contains c

/-- The characters of the delimiters. -/
def marking (c : Char) : Bool := c.isUpper || c == '<' || c == '>' || c == '_'

/-- The text of a literal between its quotes: a backslash takes the next
    character with it. -/
inductive Body : List Char → Prop where
  | nil : Body []
  | char {cs : List Char} (c : Char) (hq : c ≠ '"') (hb : c ≠ '\\') (h : Body cs) : Body (c :: cs)
  | pair {cs : List Char} (x : Char) (h : Body cs) : Body ('\\' :: x :: cs)

theorem Body.append {b b' : List Char} (h : Body b) (h' : Body b') : Body (b ++ b') := by
  induction h with
  | nil => exact h'
  | char c hq hb _ ih => exact .char c hq hb ih
  | pair x _ ih => exact .pair x ih

theorem hexDigit_mem (n : ℕ) : hexDigit n ∈ "0123456789abcdef".toList := by
  unfold hexDigit
  rw [List.getD_eq_getElem?_getD]
  cases h : "0123456789abcdef".toList[n]? with
  | none => decide
  | some c => exact List.mem_of_getElem? h

theorem hexDigit_plain (n : ℕ) :
    hexDigit n ≠ '"' ∧ hexDigit n ≠ '\\' ∧ marking (hexDigit n) = false := by
  have hall : ("0123456789abcdef".toList.all fun c =>
      c ≠ '"' ∧ c ≠ '\\' ∧ marking c = false) = true := by
    decide
  exact of_decide_eq_true (List.all_eq_true.mp hall _ (hexDigit_mem n))

/-- What `escapeChar` writes for a character that does not stand for itself. -/
structure Escaped (e : List Char) : Prop where
  body : Body e
  head : ∃ x cs, e = '\\' :: x :: cs
  plain : ∀ d ∈ e, marking d = false

theorem escaped_unit (n : ℕ) : Escaped (escapeUnit n) := by
  have h := fun m => hexDigit_plain m
  refine ⟨.pair _ ?_, ⟨_, _, rfl⟩, ?_⟩
  · exact .char _ (h _).1 (h _).2.1 (.char _ (h _).1 (h _).2.1 (.char _ (h _).1 (h _).2.1
      (.char _ (h _).1 (h _).2.1 .nil)))
  · intro d hd
    simp only [escapeUnit, List.mem_cons, List.not_mem_nil, or_false] at hd
    rcases hd with rfl | rfl | rfl | rfl | rfl | rfl
    · decide
    · decide
    all_goals exact (h _).2.2

theorem Escaped.append {e e' : List Char} (h : Escaped e) (h' : Escaped e') :
    Escaped (e ++ e') := by
  obtain ⟨x, cs, he⟩ := h.head
  refine ⟨h.body.append h'.body, ⟨x, cs ++ e', by rw [he]; rfl⟩, ?_⟩
  intro d hd
  rcases List.mem_append.mp hd with hd | hd
  · exact h.plain d hd
  · exact h'.plain d hd

theorem escaped_pair {x : Char} (hx : marking x = false) : Escaped ['\\', x] := by
  refine ⟨.pair x .nil, ⟨x, [], rfl⟩, ?_⟩
  intro d hd
  simp only [List.mem_cons, List.not_mem_nil, or_false] at hd
  rcases hd with rfl | rfl
  · decide
  · exact hx

theorem marking_cases {c : Char} (h : marking c = true) :
    (65 ≤ c.toNat ∧ c.toNat ≤ 90) ∨ c = '<' ∨ c = '>' ∨ c = '_' := by
  simp only [marking, Bool.or_eq_true, beq_iff_eq] at h
  rcases h with ((h | h) | h) | h
  · have hupper : c.val ≥ 65 ∧ c.val ≤ 90 := of_decide_eq_true h
    rw [ge_iff_le, UInt32.le_iff_toNat_le, UInt32.le_iff_toNat_le] at hupper
    exact .inl hupper
  · exact .inr (.inl h)
  · exact .inr (.inr (.inl h))
  · exact .inr (.inr (.inr h))

theorem toNat_of_marking {c : Char} (h : marking c = true) : 32 ≤ c.toNat ∧ c.toNat ≤ 126 := by
  rcases marking_cases h with h | rfl | rfl | rfl
  · omega
  all_goals decide

/-- A character stands for itself or is escaped. -/
theorem escapeChar_cases (c : Char) :
    (escapeChar c = [c] ∧ c ≠ '"' ∧ c ≠ '\\') ∨ (marking c = false ∧ Escaped (escapeChar c)) := by
  unfold escapeChar
  simp only []
  split_ifs with hq hb hp
  · subst hq
    exact .inr ⟨by decide, escaped_pair (by decide)⟩
  · subst hb
    exact .inr ⟨by decide, escaped_pair (by decide)⟩
  · exact .inl ⟨rfl, hq, hb⟩
  all_goals have hm : marking c = false := Bool.eq_false_iff.mpr (mt toNat_of_marking hp)
  · exact .inr ⟨hm, escaped_pair (by decide)⟩
  · exact .inr ⟨hm, escaped_pair (by decide)⟩
  · exact .inr ⟨hm, escaped_pair (by decide)⟩
  · exact .inr ⟨hm, escaped_pair (by decide)⟩
  · exact .inr ⟨hm, escaped_pair (by decide)⟩
  · exact .inr ⟨hm, escaped_unit _⟩
  · exact .inr ⟨hm, (escaped_unit _).append (escaped_unit _)⟩

theorem escapeChar_of_marking {c : Char} (h : marking c = true) : escapeChar c = [c] := by
  rcases escapeChar_cases c with ⟨hc, -⟩ | ⟨hm, -⟩
  · exact hc
  · rw [h] at hm
    cases hm

theorem escapeChar_of_not_marking {c : Char} (h : ¬ marking c = true) :
    escapeChar c ≠ [] ∧ ∀ d ∈ escapeChar c, ¬ marking d = true := by
  rcases escapeChar_cases c with ⟨hc, -⟩ | ⟨-, he⟩
  · rw [hc]
    exact ⟨by simp, by simpa using h⟩
  · obtain ⟨x, cs, hx⟩ := he.head
    refine ⟨by simp [hx], ?_⟩
    intro d hd
    rw [he.plain d hd]
    simp

theorem body_escape (cs : List Char) : Body (cs.flatMap escapeChar) := by
  induction cs with
  | nil => exact .nil
  | cons c cs ih =>
    rw [List.flatMap_cons]
    rcases escapeChar_cases c with ⟨hc, hq, hb⟩ | ⟨-, he⟩
    · rw [hc]
      exact .char c hq hb ih
    · exact he.body.append ih

theorem structural_facts {c : Char} (h : structural c = true) :
    c ≠ '"' ∧ c ≠ '\\' ∧ marking c = false := by
  refine ⟨?_, ?_, ?_⟩
  · rintro rfl
    revert h
    decide
  · rintro rfl
    revert h
    decide
  · simp only [structural, Bool.or_eq_true, List.contains_iff_mem] at h
    rcases h with h | h
    · simp only [Char.isDigit, Bool.and_eq_true, decide_eq_true_eq, UInt32.le_iff_toNat_le] at h
      have hhi : c.toNat ≤ 57 := h.2
      apply Bool.eq_false_iff.mpr
      intro hm
      rcases marking_cases hm with hm | rfl | rfl | rfl
      · omega
      all_goals revert hhi; decide
    · have hall : ("\x7b\x7d[]:, nul-\n".toList.all fun c => marking c = false) = true := by
        decide
      exact of_decide_eq_true (List.all_eq_true.mp hall c h)

/-! ## The literals of a text -/

/-- The literals that a reader finds in a text, `none` if it ends within one or
    has a backslash outside. `some b` is the state within a literal that starts
    with `b`. -/
def literals : Option (List Char) → List Char → Option (List (List Char))
  | none, [] => some []
  | some _, [] => none
  | none, c :: cs =>
    if c = '"' then literals (some []) cs
    else if c = '\\' then none
    else literals none cs
  | some b, [c] => if c = '"' then some [b] else none
  | some b, c :: d :: cs =>
    if c = '"' then (literals none (d :: cs)).map (b :: ·)
    else if c = '\\' then literals (some (b ++ [c, d])) cs
    else literals (some (b ++ [c])) (d :: cs)

theorem literals_quote (b t : List Char) :
    literals (some b) ('"' :: t) = (literals none t).map (b :: ·) := by
  cases t <;> rfl

theorem literals_char {c : Char} (hq : c ≠ '"') (hb : c ≠ '\\') (b t : List Char) :
    literals (some b) (c :: t) = literals (some (b ++ [c])) t := by
  cases t <;> simp [literals, hq, hb]

/-- A text that ends within a literal has none. -/
theorem literals_of_body {b t : List Char} (h : Body b) (ht : t <+: b) (a : List Char) :
    literals (some a) t = none := by
  induction h generalizing a t with
  | nil =>
    rw [List.prefix_nil.mp ht]
    rfl
  | char c hq hb _ ih =>
    cases t with
    | nil => rfl
    | cons d t =>
      obtain ⟨rfl, htail⟩ := List.cons_prefix_cons.mp ht
      rw [literals_char hq hb]
      exact ih htail _
  | pair x _ ih =>
    cases t with
    | nil => rfl
    | cons d t =>
      obtain ⟨rfl, htail⟩ := List.cons_prefix_cons.mp ht
      cases t with
      | nil => rfl
      | cons e t => exact ih (List.cons_prefix_cons.mp htail).2 _

/-- A literal that is complete. -/
theorem literals_body_quote {b : List Char} (h : Body b) (a t : List Char) :
    literals (some a) (b ++ '"' :: t) = (literals none t).map ((a ++ b) :: ·) := by
  induction h generalizing a with
  | nil => rw [List.nil_append, literals_quote, List.append_nil]
  | char c hq hb _ ih =>
    rw [List.cons_append, literals_char hq hb, ih]
    simp
  | pair x _ ih =>
    rw [List.cons_append, List.cons_append]
    show literals (some (a ++ ['\\', x])) _ = _
    rw [ih]
    simp

/-- Outside of a literal only a quote or a backslash matters. -/
theorem literals_outside {c : Char} (hq : c ≠ '"') (hb : c ≠ '\\') (t : List Char) :
    literals none (c :: t) = literals none t := by
  simp [literals, hq, hb]

/-! ## Structure and literals -/

/-- Structure characters and the literals of these strings. -/
inductive Woven : List String → List Char → Prop where
  | nil : Woven [] []
  | char {ss : List String} {t : List Char} (c : Char) (hc : structural c = true)
      (h : Woven ss t) : Woven ss (c :: t)
  | literal {ss : List String} {t : List Char} (s : String) (h : Woven ss t) :
      Woven (s :: ss) (quote s ++ t)

variable {ss ss' : List String} {t t' : List Char}

theorem Woven.append (h : Woven ss t) (h' : Woven ss' t') : Woven (ss ++ ss') (t ++ t') := by
  induction h with
  | nil => exact h'
  | char c hc _ ih => exact .char c hc ih
  | literal s _ ih =>
    rw [List.append_assoc]
    exact .literal s ih

theorem woven_of_structural {t : List Char} (h : t.all structural = true) : Woven [] t := by
  induction t with
  | nil => exact .nil
  | cons c t ih =>
    obtain ⟨hc, ht⟩ := (Bool.and_eq_true _ _).mp (List.all_cons.symm.trans h)
    exact .char c hc (ih ht)

theorem quote_append (s : String) (t : List Char) :
    quote s ++ t = '"' :: (escape s ++ '"' :: t) := by
  simp [quote]

theorem woven_quote (s : String) : Woven [s] (quote s) := by
  have h := Woven.literal s .nil
  rwa [List.append_nil] at h

theorem structural_toString (n : ℤ) : ∀ c ∈ (toString n).toList, structural c = true := by
  have hnat : ∀ m : ℕ, ∀ c ∈ m.repr.toList, structural c = true := by
    intro m c hc
    rw [Nat.toList_repr] at hc
    unfold structural
    rw [Nat.isDigit_of_mem_toDigits (by decide) (by decide) hc, Bool.true_or]
  rw [Int.toString_eq_repr, Int.repr_eq_if]
  split_ifs
  · exact hnat _
  · intro c hc
    rw [String.toList_append, List.mem_append] at hc
    rcases hc with hc | hc
    · obtain rfl : c = '-' := List.mem_singleton.mp hc
      decide
    · exact hnat _ c hc

mutual

/-- There is no boolean and no float in the value. -/
def textual : Json → Bool
  | bool _ | float _ => false
  | arr xs => textualItems xs
  | obj fields => textualFields fields
  | _ => true

/-- All items are textual. -/
def textualItems : List Json → Bool
  | [] => true
  | v :: vs => textual v && textualItems vs

/-- All fields are textual. -/
def textualFields : List (String × Json) → Bool
  | [] => true
  | p :: ps => textualField p && textualFields ps

/-- The value of the field is textual. -/
def textualField : String × Json → Bool
  | (_, v) => textual v

end

section Dumps

variable (floatText : PyFloat → List Char)

mutual

/-- `json.dumps` writes the strings of a value as literals. -/
theorem woven_dumps : ∀ v : Json, v.textual = true → Woven v.strings (dumps floatText v)
  | null, _ => by
    have hnull : Woven [] "null".toList := woven_of_structural (by decide)
    exact hnull
  | bool _, h => by cases h
  | int n, _ => woven_of_structural (List.all_eq_true.mpr (structural_toString n))
  | float _, h => by cases h
  | str s, _ => woven_quote s
  | arr xs, h => .char '[' (by decide) (by
      have hclose : Woven [] [']'] := woven_of_structural (by decide)
      have hitems := (woven_dumpsItems xs h).append hclose
      rwa [List.append_nil] at hitems)
  | obj fields, h => .char '\x7b' (by decide) (by
      have hclose : Woven [] ['\x7d'] := woven_of_structural (by decide)
      have hfields := (woven_dumpsFields fields h).append hclose
      rwa [List.append_nil] at hfields)

theorem woven_dumpsItems : ∀ vs : List Json, textualItems vs = true →
    Woven (stringsItems vs) (dumpsItems floatText vs)
  | [], _ => .nil
  | [v], h => by
    have hv := woven_dumps v (by simpa [textualItems] using h)
    simpa [stringsItems, dumpsItems] using hv
  | v :: w :: vs, h => by
    have hand := h
    rw [textualItems, Bool.and_eq_true] at hand
    have hsep : Woven [] ", ".toList := woven_of_structural (by decide)
    have hall := ((woven_dumps v hand.1).append hsep).append (woven_dumpsItems (w :: vs) hand.2)
    rwa [List.append_nil] at hall

theorem woven_dumpsFields : ∀ ps : List (String × Json), textualFields ps = true →
    Woven (stringsFields ps) (dumpsFields floatText ps)
  | [], _ => .nil
  | [p], h => by
    have hp := woven_dumpsField p (by simpa [textualFields] using h)
    simpa [stringsFields, dumpsFields] using hp
  | p :: q :: ps, h => by
    have hand := h
    rw [textualFields, Bool.and_eq_true] at hand
    have hsep : Woven [] ", ".toList := woven_of_structural (by decide)
    have hall := ((woven_dumpsField p hand.1).append hsep).append
      (woven_dumpsFields (q :: ps) hand.2)
    rwa [List.append_nil] at hall

theorem woven_dumpsField : ∀ p : String × Json, textualField p = true →
    Woven (stringsField p) (dumpsField floatText p)
  | (key, v), h => by
    have hsep : Woven [] ": ".toList := woven_of_structural (by decide)
    exact ((woven_quote key).append hsep).append (woven_dumps v h)

end

end Dumps

/-! ## Delimiters -/

/-- What stands before and after a delimiter that lies within one literal. -/
inductive Within (pat : List Char) : List String → List Char → List Char → Prop where
  | intro {ss₁ ss₂ : List String} {pre post : List Char} (s₁ s₂ : List Char) (h₁ : Woven ss₁ pre)
      (h₂ : Woven ss₂ post) :
      Within pat (ss₁ ++ String.ofList (s₁ ++ pat ++ s₂) :: ss₂)
        (pre ++ '"' :: s₁.flatMap escapeChar) (s₂.flatMap escapeChar ++ '"' :: post)

section Delimiters

variable {pat u w : List Char}

theorem Within.char (h : Within pat ss u w) {c : Char} (hc : structural c = true) :
    Within pat ss (c :: u) w := by
  obtain ⟨s₁, s₂, h₁, h₂⟩ := h
  exact .intro s₁ s₂ (.char c hc h₁) h₂

theorem Within.literal (h : Within pat ss u w) (s : String) :
    Within pat (s :: ss) (quote s ++ u) w := by
  obtain ⟨s₁, s₂, h₁, h₂⟩ := h
  rw [← List.append_assoc]
  exact .intro s₁ s₂ (.literal s h₁) h₂

/-- A delimiter in woven text lies within one literal. -/
theorem Woven.split (hne : pat ≠ []) (hpat : ∀ c ∈ pat, marking c = true) (h : Woven ss t)
    (ht : t = u ++ (pat ++ w)) : Within pat ss u w := by
  have hquote : '"' ∉ pat := by
    intro hq
    have hmark := hpat _ hq
    revert hmark
    decide
  -- the delimiter cannot start with a character that is not of its kind
  have hstart : ∀ {c : Char} {r : List Char}, marking c = false → c :: r ≠ pat ++ w := by
    intro c r hc hr
    obtain ⟨d, pat', rfl⟩ := List.exists_cons_of_ne_nil hne
    obtain ⟨rfl, -⟩ := List.cons_eq_cons.mp hr
    rw [hpat _ List.mem_cons_self] at hc
    cases hc
  induction h generalizing u with
  | nil =>
    have hnil := List.append_eq_nil_iff.mp (List.append_eq_nil_iff.mp ht.symm).2
    exact absurd hnil.1 hne
  | char c hc hw ih =>
    cases u with
    | nil => exact absurd ht (hstart (structural_facts hc).2.2)
    | cons x u =>
      obtain ⟨rfl, htail⟩ := List.cons_eq_cons.mp ht
      exact (ih htail).char hc
  | @literal ss t s hw ih =>
    rw [quote_append] at ht
    cases u with
    | nil => exact absurd ht (hstart (by decide))
    | cons x u =>
      obtain ⟨rfl, htail⟩ := List.cons_eq_cons.mp ht
      have hbody : ∀ {x : List Char}, escape s = u ++ (pat ++ x) →
          Within pat (s :: ss) ('"' :: u) (x ++ '"' :: t) := by
        intro x hx
        obtain ⟨s₁, s₂, hs, rfl, rfl⟩ := Text.exists_of_flatMap_eq
          (fun _ hc => escapeChar_of_marking hc) (fun _ hc => escapeChar_of_not_marking hc)
          hne hpat hx
        have hwithin : Within pat (_ :: ss) _ _ := .intro s₁ s₂ .nil hw
        rwa [← hs, String.ofList_toList] at hwithin
      rcases List.append_eq_append_iff.mp htail with ⟨a, rfl, ha⟩ | ⟨a, ha, hw'⟩
      · cases a with
        | nil => exact absurd ha (hstart (by decide))
        | cons y a =>
          obtain ⟨rfl, ht'⟩ := List.cons_eq_cons.mp ha
          rw [← quote_append]
          exact (ih ht').literal s
      · rcases List.append_eq_append_iff.mp hw' with ⟨x, rfl, rfl⟩ | ⟨x, hx, hw''⟩
        · exact hbody ha
        · cases x with
          | nil =>
            obtain rfl : pat = a := hx.trans (List.append_nil a)
            obtain rfl : '"' :: t = w := hw''
            exact hbody (x := []) (by rw [ha, List.append_nil])
          | cons y x =>
            obtain ⟨rfl, -⟩ := List.cons_eq_cons.mp hw''
            rw [hx] at hquote
            exact absurd (List.mem_append_right a List.mem_cons_self) hquote

/-- A delimiter occurs in woven text exactly if one of the strings has it. -/
theorem infix_woven_iff (hne : pat ≠ []) (hpat : ∀ c ∈ pat, marking c = true) (h : Woven ss t) :
    pat <:+: t ↔ ∃ s ∈ ss, pat <:+: s.toList := by
  constructor
  · rintro ⟨u, w, ht⟩
    have hsplit := h.split (u := u) (w := w) hne hpat (by rw [← ht, List.append_assoc])
    obtain ⟨s₁, s₂, -, -⟩ := hsplit
    refine ⟨_, List.mem_append_right _ List.mem_cons_self, ?_⟩
    rw [String.toList_ofList]
    exact List.infix_append s₁ pat s₂
  · rintro ⟨s, hs, s₁, s₂, hpos⟩
    induction h with
    | nil => cases hs
    | char c _ _ ih => exact (ih hs).trans (List.suffix_cons c _).isInfix
    | @literal ss t s' _ ih =>
      rcases List.mem_cons.mp hs with rfl | hs
      · have hself : pat.flatMap escapeChar = pat := by
          clear hne hpos ih
          induction pat with
          | nil => rfl
          | cons d pat ih =>
            rw [List.flatMap_cons, escapeChar_of_marking (hpat d List.mem_cons_self),
              ih fun e he => hpat e (List.mem_cons_of_mem d he)]
            rfl
        refine ⟨'"' :: s₁.flatMap escapeChar, s₂.flatMap escapeChar ++ '"' :: t, ?_⟩
        rw [quote_append, escape, ← hpos]
        simp [hself]
      · exact (ih hs).trans (List.suffix_append (quote s') t).isInfix

end Delimiters

/-! ## Cut text -/

/-- A text that ends within a literal has no literals. -/
theorem literals_cut (h : Woven ss t) {b x : List Char} (hb : Body b) (hx : x <+: b) :
    literals none (t ++ '"' :: x) = none := by
  induction h with
  | nil => exact literals_of_body hb hx []
  | char c hc _ ih =>
    obtain ⟨hq, hbs, -⟩ := structural_facts hc
    rw [List.cons_append, literals_outside hq hbs, ih]
  | @literal ss t s _ ih =>
    rw [quote_append, List.cons_append, List.append_assoc, List.cons_append]
    have hlit : literals (some []) (escape s ++ '"' :: (t ++ '"' :: x)) = none := by
      rw [escape, literals_body_quote (body_escape s.toList), ih]
      rfl
    exact hlit

/-- Read from within a literal, the text up to the next quote has no literals,
    and a backslash in it is an error. -/
theorem literals_escape {cs r x : List Char} (hx : x <+: cs.flatMap escapeChar ++ '"' :: r)
    {ls : List (List Char)} (h : literals none x = some ls) :
    ls = [] ∨ ∃ y, y <+: r ∧ literals (some []) y = some ls := by
  induction cs generalizing x with
  | nil =>
    cases x with
    | nil =>
      cases h
      exact .inl rfl
    | cons c x =>
      obtain ⟨rfl, hr⟩ := List.cons_prefix_cons.mp hx
      exact .inr ⟨x, hr, h⟩
  | cons c cs ih =>
    cases x with
    | nil =>
      cases h
      exact .inl rfl
    | cons d x =>
      rw [List.flatMap_cons] at hx
      rcases escapeChar_cases c with ⟨hc, hq, hb⟩ | ⟨-, he⟩
      · rw [hc] at hx
        obtain ⟨rfl, hrest⟩ := List.cons_prefix_cons.mp hx
        rw [literals_outside hq hb] at h
        exact ih hrest h
      · obtain ⟨y, ys, hy⟩ := he.head
        rw [hy] at hx
        obtain ⟨rfl, -⟩ := List.cons_prefix_cons.mp hx
        cases h

/-- Read from within a literal, the literals of a woven text are made of
    structure characters. -/
theorem structural_of_literals (h : Woven ss t) {b x : List Char}
    (hb : ∀ c ∈ b, structural c = true) (hx : x <+: t ++ ['\n']) {ls : List (List Char)}
    (hls : literals (some b) x = some ls) : ∀ l ∈ ls, ∀ c ∈ l, structural c = true := by
  induction h generalizing b x ls with
  | nil =>
    have hnl : Body ['\n'] := .char _ (by decide) (by decide) .nil
    rw [literals_of_body hnl hx] at hls
    cases hls
  | char c hc _ ih =>
    cases x with
    | nil => cases hls
    | cons d x =>
      obtain ⟨rfl, hrest⟩ := List.cons_prefix_cons.mp hx
      obtain ⟨hq, hbs, -⟩ := structural_facts hc
      rw [literals_char hq hbs] at hls
      refine ih ?_ hrest hls
      intro c' hc'
      rcases List.mem_append.mp hc' with hc' | hc'
      · exact hb c' hc'
      · rw [List.mem_singleton.mp hc']
        exact hc
  | @literal ss t s _ ih =>
    cases x with
    | nil => cases hls
    | cons d x =>
      rw [quote_append, List.cons_append, List.append_assoc, List.cons_append] at hx
      obtain ⟨rfl, hrest⟩ := List.cons_prefix_cons.mp hx
      rw [literals_quote] at hls
      obtain ⟨ls', hls', rfl⟩ := Option.map_eq_some_iff.mp hls
      intro l hl
      rcases List.mem_cons.mp hl with rfl | hl
      · exact hb
      · rcases literals_escape hrest hls' with rfl | ⟨y, hy, hy'⟩
        · cases hl
        · exact ih (by simp) hy hy' l hl

end Json

end DiscordAgent
