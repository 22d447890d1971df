import DiscordAgent.Output.Credentials

/-!
# What the preview hides

A value that the first pattern does not take reaches the preview, unless 200
characters stand in front of it.

* `Shows.agree_iff`: when two previews of a text agree.
* `Spelling.hides_iff`: when the preview hides a credential.
-/

namespace DiscordAgent

open Text

namespace Supervisor

variable {s t x y key : List Char} {c d : Char} {u : WordClass} {b : Bool}

/-! ## The other patterns -/

/-- The other two substitutions. -/
def hidePlaces (u : WordClass) (s : List Char) : List Char :=
  homePattern.sub u.isWord redacted (mailPattern.sub u.isWord redacted s)

theorem redact_eq (u : WordClass) (s : List Char) :
    redact u s = hidePlaces u (hideCredentials u s) := rfl

theorem rests_home_of_ne (hc : c ≠ '/') (s : List Char) : Regex.rests homePattern (c :: s) = [] :=
  Regex.rests_one_cons.trans (if_neg (by simpa using hc))

theorem home_append (hx : '/' ∉ x) (y : List Char) :
    homePattern.sub u.isWord redacted (x ++ y) = x ++ homePattern.sub u.isWord redacted y := by
  refine Regex.sub_append_of_none rfl fun d hd hne => ?_
  cases d with
  | nil => exact absurd rfl hne
  | cons c d =>
    refine rests_home_of_ne ?_ _
    rintro rfl
    exact hx (hd.subset List.mem_cons_self)

/-- The mail pattern needs an `@`. -/
theorem ends_mail (hs : '@' ∉ s) : Regex.ends u.isWord mailPattern b s = [] := by
  refine List.flatMap_eq_nil_iff.mpr fun t ht => ?_
  refine List.flatMap_eq_nil_iff.mpr fun t' ht' => ?_
  have hsuf := (Regex.suffix_of_mem_ends ht').trans (Regex.suffix_of_mem_ends ht)
  refine Regex.ends_one_of_not fun d hd => ?_
  have hmem : d ∈ s := hsuf.subset (List.mem_of_head? hd)
  simp only [beq_eq_false_iff_ne]
  rintro rfl
  exact hs hmem

theorem mail_of_not_mem (hs : '@' ∉ s) : mailPattern.sub u.isWord redacted s = s :=
  Regex.subAux_of_ends (fun _ hd _ => ends_mail fun h => hs (hd.subset h)) false

theorem mail_cut (hc : mailPattern.lacks c = true) (hw : u.isWord c = false) (x y : List Char) :
    mailPattern.sub u.isWord redacted (x ++ c :: y) =
      mailPattern.sub u.isWord redacted x ++ c :: mailPattern.sub u.isWord redacted y :=
  Regex.sub_cut hc hw x y

/-- A space separates. -/
theorem hidePlaces_space (x y : List Char) :
    hidePlaces u (x ++ ' ' :: y) = hidePlaces u x ++ ' ' :: hidePlaces u y := by
  have hw : u.isWord ' ' = false := u.ascii ' ' (by decide)
  unfold hidePlaces
  rw [mail_cut (by decide) hw, Regex.sub_cut (by decide) hw]

theorem hidePlaces_quote (y : List Char) : hidePlaces u ('"' :: y) = '"' :: hidePlaces u y := by
  have hw : u.isWord '"' = false := u.ascii '"' (by decide)
  have hmail := mail_cut (u := u) (c := '"') (by decide) hw [] y
  unfold hidePlaces
  rw [List.nil_append] at hmail
  rw [hmail]
  exact home_append (x := ['"']) (by decide) _

/-! ## Contexts -/

/-- The redaction of a text that is continued behind a space. -/
theorem redact_of_space (h : ∀ y, hideCredentials u (x ++ y) = s ++ ' ' :: hideCredentials u y)
    (y : List Char) : redact u (x ++ y) = redact u x ++ redact u y := by
  have hx := h []
  rw [List.append_nil] at hx
  rw [redact_eq, redact_eq, redact_eq, h, hx, hidePlaces_space, hidePlaces_space, List.append_assoc]
  rfl

theorem redact_of_quote
    (h : ∀ y, hideCredentials u (x ++ y) = s ++ ' ' :: '"' :: hideCredentials u y)
    (y : List Char) : redact u (x ++ y) = redact u x ++ redact u y := by
  have hx := h []
  rw [List.append_nil] at hx
  rw [redact_eq, redact_eq, redact_eq, h, hx, hidePlaces_space, hidePlaces_space, hidePlaces_quote,
    hidePlaces_quote, List.append_assoc]
  rfl

theorem hidePlaces_plain (hmail : '@' ∉ s) (hhome : '/' ∉ s) (y : List Char) :
    hidePlaces u (s ++ ' ' :: y) = s ++ ' ' :: hidePlaces u y := by
  have hs : hidePlaces u s = s := by
    have h := home_append (u := u) hhome []
    rw [List.append_nil] at h
    unfold hidePlaces
    rw [mail_of_not_mem hmail, h]
    exact List.append_nil s
  rw [hidePlaces_space, hs]

theorem hidePlaces_redacted (hmail : '@' ∉ s) (hhome : '/' ∉ s) (y : List Char) :
    ∃ r, hidePlaces u (s ++ (redacted ++ y)) = s ++ '[' :: r := by
  have hw : u.isWord '[' = false := u.ascii '[' (by decide)
  have hcons : redacted ++ y = '[' :: ("REDACTED]".toList ++ y) := rfl
  have hopen : '/' ∉ s ++ ['['] := by
    intro h
    rcases List.mem_append.mp h with h | h
    · exact hhome h
    · exact absurd (List.mem_singleton.mp h) (by decide)
  have hhome' := fun z => home_append (u := u) hopen z
  simp only [List.append_assoc, List.singleton_append] at hhome'
  unfold hidePlaces
  rw [hcons, mail_cut (by decide) hw, mail_of_not_mem hmail, hhome']
  exact ⟨_, rfl⟩

/-- The redaction of a header whose key is in the value of an earlier assignment,
    up to a key at the end of its scheme. -/
theorem redact_key_taken (hk : IsKey key) (hp : inValue x = true) (y : List Char) :
    redact u (x ++ (key ++ ':' :: ' ' :: y)) =
      hidePlaces u ((scan 0 x).1 ++ redacted) ++ ' ' :: redact u y := by
  rw [redact_eq, redact_eq, hide_key_taken hk hp, hidePlaces_space]

theorem redact_plain (hs : ∀ c ∈ s, isPlain c = true) (hmail : '@' ∉ s) (hhome : '/' ∉ s) :
    redact u s = s := by
  have hhide : hideCredentials u (s ++ []) = s ++ hideCredentials u [] := by
    refine Regex.sub_append_of_none plain_credential fun d hd _ => rests_of_none ?_
    rw [List.append_nil]
    unfold valueStart
    cases ht : keyRest d with
    | none => rfl
    | some t =>
      cases t with
      | nil => rfl
      | cons c t =>
        have hc : c ∈ d := (suffix_of_keyRest ht).1.subset List.mem_cons_self
        exact assignRest_of_plain (hs c (hd.subset hc))
  have hhome' := home_append (u := u) hhome []
  rw [List.append_nil] at hhide hhome'
  rw [redact_eq, hhide]
  unfold hidePlaces
  rw [show hideCredentials u [] = [] from rfl, List.append_nil, mail_of_not_mem hmail, hhome']
  exact List.append_nil s

/-! ## Values -/

/-- A value: no spaces, quotes, commas and semicolons. -/
structure IsValue (v : List Char) : Prop where
  ne_nil : v ≠ []
  all : ∀ c ∈ v, Py.isSpace c = false ∧ c ∉ ['"', '\'', ',', ';']

theorem IsValue.isRun (h : IsValue v) : IsRun v where
  ne_nil := h.ne_nil
  all c hc := by
    obtain ⟨hspace, hnot⟩ := h.all c hc
    simp only [List.mem_cons, List.not_mem_nil, or_false, not_or] at hnot
    simp [isValueChar, hspace, hnot.2.2.1, hnot.2.2.2]

/-- A character that begins no match stays. -/
theorem redact_cons (hc : Keyless c) (hw : u.isWord c = false) (hhome : c ≠ '/') (s : List Char) :
    ∃ r, redact u (c :: s) = c :: r := by
  have hmail : mailPattern.sub u.isWord redacted (c :: hideCredentials u s) =
      c :: mailPattern.subAux u.isWord redacted 0 (u.isWord c) (hideCredentials u s) := by
    refine Regex.subAux_of_none ?_
    have hends : Regex.ends u.isWord mailPattern false (c :: hideCredentials u s) = [] := by
      simp [mailPattern, Regex.ends_seq, Regex.ends_boundary, hw]
    unfold Regex.matchLen
    rw [hends]
    rfl
  rw [redact_eq, hide_keyless hc]
  unfold hidePlaces
  rw [hmail]
  exact ⟨_, home_append (x := [c]) (by simpa using hhome.symm) _⟩

theorem redact_ne_nil (hs : s ≠ []) : ∃ c r, redact u s = c :: r := by
  have hsub : ∀ (r : Regex Char) (t : List Char), t ≠ [] →
      r.sub u.isWord redacted t ≠ [] := by
    intro r t ht
    cases t with
    | nil => exact absurd rfl ht
    | cons c t => exact Regex.subAux_ne_nil (List.cons_ne_nil _ _)
  have hne : redact u s ≠ [] := hsub _ _ (hsub _ _ (hsub _ _ hs))
  exact List.exists_cons_of_ne_nil hne

/-- The text `f v` shows its value `v` behind the redaction of `t`. -/
structure Shows (u : WordClass) (f : List Char → List Char) (t : List Char) : Prop where
  all : ∀ v, IsValue v → ∃ c r, redact u (f v) = redact u t ++ c :: r
  differ : ∃ v₁ v₂ c₁ c₂ r₁ r₂, IsValue v₁ ∧ IsValue v₂ ∧ c₁ ≠ c₂ ∧
    redact u (f v₁) = redact u t ++ c₁ :: r₁ ∧ redact u (f v₂) = redact u t ++ c₂ :: r₂

variable {f : List Char → List Char} {q : List Char}

theorem isValue_bang : IsValue ['!'] where
  ne_nil := List.cons_ne_nil _ _
  all := by
    intro c hc
    rw [List.mem_singleton.mp hc]
    decide

theorem isValue_question : IsValue ['?'] where
  ne_nil := List.cons_ne_nil _ _
  all := by
    intro c hc
    rw [List.mem_singleton.mp hc]
    decide

/-- A context that is redacted on its own. -/
theorem shows_of_append (h : ∀ y, redact u (t ++ y) = redact u t ++ redact u y) (q : List Char) :
    Shows u (fun v => t ++ (v ++ q)) t where
  all v hv := by
    obtain ⟨c, r, hr⟩ := redact_ne_nil (u := u) (s := v ++ q) (by simp [hv.ne_nil])
    exact ⟨c, r, by rw [h, hr]⟩
  differ := by
    obtain ⟨r₁, h₁⟩ := redact_cons (u := u) (keyless_of_all (c := '!') (by decide))
      (u.ascii '!' (by decide)) (by decide) q
    obtain ⟨r₂, h₂⟩ := redact_cons (u := u) (keyless_of_all (c := '?') (by decide))
      (u.ascii '?' (by decide)) (by decide) q
    refine ⟨_, _, '!', '?', r₁, r₂, isValue_bang, isValue_question, by decide, ?_, ?_⟩
    · rw [h, List.singleton_append, h₁]
    · rw [h, List.singleton_append, h₂]

section SchemeKey

variable {k : List Char} (hs : IsScheme (s ++ k)) (hk : IsKey k)
include hs hk

/-- A scheme that ends in a key, if no assignment follows. -/
theorem redact_scheme_of_none (h : Regex.rests credentialPattern (k ++ ' ' :: y) = []) :
    redact u (s ++ (k ++ ' ' :: y)) = s ++ (k ++ ' ' :: redact u y) := by
  have hplain : ∀ c ∈ s, isPlain c = true := fun c hc => hs.plain c (List.mem_append_left k hc)
  rw [redact_eq, hide_scheme_key hplain hk, hide_key_space hk h, ← List.append_assoc,
    hidePlaces_plain hs.mail hs.home, List.append_assoc]
  rfl

/-- A scheme that ends in a key, if an assignment follows. -/
theorem redact_scheme_of_match {d : Char} {t : List Char}
    (h : valueStart (k ++ ' ' :: y) = some (d :: t)) (hd : isValueChar d = true) :
    ∃ r, redact u (s ++ (k ++ ' ' :: y)) = s ++ '[' :: r := by
  have hplain : ∀ c ∈ s, isPlain c = true := fun c hc => hs.plain c (List.mem_append_left k hc)
  rw [redact_eq, hide_scheme_key hplain hk, hide_of_match h hd]
  exact hidePlaces_redacted (fun hm => hs.mail (List.mem_append_left k hm))
    (fun hm => hs.home (List.mem_append_left k hm)) _

theorem shows_scheme_key (hkey : IsKey key) (hp : inValue x = true) (q : List Char) :
    Shows u (fun v => x ++ (key ++ ':' :: ' ' :: (s ++ (k ++ ' ' :: (v ++ q)))))
      (x ++ (key ++ ':' :: ' ' :: s)) := by
  have hlead : redact u (x ++ (key ++ ':' :: ' ' :: s)) =
      hidePlaces u ((scan 0 x).1 ++ redacted) ++ ' ' :: s := by
    rw [redact_key_taken hkey hp, redact_plain (fun c hc => hs.plain c (List.mem_append_left k hc))
      (fun h => hs.mail (List.mem_append_left k h)) fun h => hs.home (List.mem_append_left k h)]
  -- what stands behind the part of the scheme before the key
  have hnone : ∀ y, Regex.rests credentialPattern (k ++ ' ' :: y) = [] →
      redact u (x ++ (key ++ ':' :: ' ' :: (s ++ (k ++ ' ' :: y)))) =
        redact u (x ++ (key ++ ':' :: ' ' :: s)) ++ (k ++ ' ' :: redact u y) := by
    intro y h
    rw [redact_key_taken hkey hp, hlead, redact_scheme_of_none hs hk h]
    simp
  have hmatch : ∀ y d t, valueStart (k ++ ' ' :: y) = some (d :: t) → isValueChar d = true →
      ∃ r, redact u (x ++ (key ++ ':' :: ' ' :: (s ++ (k ++ ' ' :: y)))) =
        redact u (x ++ (key ++ ':' :: ' ' :: s)) ++ '[' :: r := by
    intro y d t h hd
    obtain ⟨r, hr⟩ := redact_scheme_of_match (u := u) hs hk h hd
    refine ⟨r, ?_⟩
    rw [redact_key_taken hkey hp, hlead, hr]
    simp
  obtain ⟨c, k', rfl⟩ := List.exists_cons_of_ne_nil hk.ne_nil
  constructor
  · intro v hv
    cases hstart : valueStart (c :: k' ++ ' ' :: (v ++ q)) with
    | none => exact ⟨c, _, hnone _ (rests_of_none hstart)⟩
    | some t =>
      cases t with
      | nil =>
        refine ⟨c, _, hnone _ ?_⟩
        rw [rests_credential, hstart]
        rfl
      | cons d t =>
        by_cases hd : isValueChar d = true
        · obtain ⟨r, hr⟩ := hmatch _ d t hstart hd
          exact ⟨'[', r, hr⟩
        · refine ⟨c, _, hnone _ ?_⟩
          rw [rests_credential, hstart, Option.toList_some, List.flatMap_singleton]
          exact if_neg hd
  · have hbang : valueStart (c :: k' ++ ' ' :: (['!'] ++ q)) = none := by
      rw [valueStart_key hk]
      exact assignRest_of_plain (by decide)
    have heq : valueStart (c :: k' ++ ' ' :: (['=', '!'] ++ q)) = some ('!' :: q) := by
      rw [valueStart_key hk]
      exact (assignRest_sign rfl _).trans rfl
    obtain ⟨r, hr⟩ := hmatch _ _ _ heq (by decide)
    refine ⟨['!'], ['=', '!'], c, '[', _, r, isValue_bang, ?_, ?_,
      hnone _ (rests_of_none hbang), hr⟩
    · refine ⟨List.cons_ne_nil _ _, fun d hd => ?_⟩
      rcases List.mem_pair.mp hd with rfl | rfl <;> decide
    · rintro rfl
      have hmem : foldCase '[' ∈ ('[' :: k').map foldCase := List.mem_cons_self
      exact keyless_of_all (by decide) _ hk hmem

end SchemeKey

/-! ## The preview -/

/-- The end of `_redact_result_preview`. -/
def shorten (t : List Char) : List Char :=
  t.take 200 ++ if t.length > 200 then "...".toList else []

theorem toList_preview (t : String) :
    (redactResultPreview u t).toList = shorten (redact u t.toList) := by
  unfold redactResultPreview shorten
  simp only [String.toList_append, String.toList_ofList]
  split_ifs <;> rfl

theorem shorten_append (hx : 200 ≤ x.length) (c : Char) (y : List Char) :
    shorten (x ++ c :: y) = x.take 200 ++ "...".toList := by
  unfold shorten
  rw [List.take_append_of_le_length hx, if_pos (by simp; omega)]

theorem getElem?_shorten (hx : x.length < 200) (c : Char) (y : List Char) :
    (shorten (x ++ c :: y))[x.length]? = some c := by
  unfold shorten
  rw [List.getElem?_append_left (by simp; omega), List.getElem?_take_of_lt hx]
  simp

/-- A text that shows its value does so in its first 200 characters only. -/
theorem Shows.agree_iff (h : Shows u f t) :
    (∀ v₁ v₂, IsValue v₁ → IsValue v₂ → shorten (redact u (f v₁)) = shorten (redact u (f v₂))) ↔
      200 ≤ (redact u t).length := by
  constructor
  · intro hall
    obtain ⟨v₁, v₂, c₁, c₂, r₁, r₂, hv₁, hv₂, hne, h₁, h₂⟩ := h.differ
    by_contra hlt
    have heq := congrArg (fun l => l[(redact u t).length]?) (hall v₁ v₂ hv₁ hv₂)
    simp only [h₁, h₂] at heq
    rw [getElem?_shorten (by omega), getElem?_shorten (by omega)] at heq
    exact hne (Option.some.inj heq)
  · intro hlen v₁ v₂ hv₁ hv₂
    obtain ⟨c₁, r₁, h₁⟩ := h.all v₁ hv₁
    obtain ⟨c₂, r₂, h₂⟩ := h.all v₂ hv₂
    rw [h₁, h₂, shorten_append hlen, shorten_append hlen]

/-- The usual spellings of a credential. -/
inductive Spelling where
  /-- `K=v`. -/
  | equals
  /-- `K: v`. -/
  | colon
  /-- `"K": "v"`. -/
  | json
  /-- `K: <scheme> v`. -/
  | header (scheme : String)

namespace Spelling

def text (key v : String) : Spelling → String
  | equals => key ++ "=" ++ v
  | colon => key ++ ": " ++ v
  | json => "\"" ++ key ++ "\": \"" ++ v ++ "\""
  | header scheme => key ++ ": " ++ scheme ++ " " ++ v

def WellFormed : Spelling → Prop
  | header scheme => IsScheme scheme.toList
  | _ => True

/-- The text in front of the first character of the preview that depends on the
    value; none if the first pattern takes the value. -/
def lead (key p : String) : Spelling → Option String
  | equals => none
  | colon => if inValue p.toList then some (p ++ key ++ ": ") else none
  | json => some (p ++ "\"" ++ key ++ "\": \"")
  | header scheme => some (p ++ key ++ ": " ++
      if inValue p.toList then String.ofList (beforeKey scheme.toList) else scheme ++ " ")

/-- All values have the same preview. -/
def Hides (u : WordClass) (s : Spelling) (key p q : String) : Prop :=
  ∀ v₁ v₂ : String, IsValue v₁.toList → IsValue v₂.toList →
    redactResultPreview u (p ++ s.text key v₁ ++ q) =
      redactResultPreview u (p ++ s.text key v₂ ++ q)

theorem hides_iff_shorten {s : Spelling} {key p q : String} {f : List Char → List Char}
    (hf : ∀ v : String, (p ++ s.text key v ++ q).toList = f v.toList) :
    s.Hides u key p q ↔ ∀ v₁ v₂, IsValue v₁ → IsValue v₂ →
      shorten (redact u (f v₁)) = shorten (redact u (f v₂)) := by
  have heq : ∀ v₁ v₂ : String, redactResultPreview u (p ++ s.text key v₁ ++ q) =
      redactResultPreview u (p ++ s.text key v₂ ++ q) ↔
        shorten (redact u (f v₁.toList)) = shorten (redact u (f v₂.toList)) := by
    intro v₁ v₂
    rw [← String.toList_inj, toList_preview, toList_preview, hf, hf]
  constructor
  · intro h v₁ v₂ hv₁ hv₂
    have h' := (heq (String.ofList v₁) (String.ofList v₂)).mp (h _ _ (by simpa) (by simpa))
    simpa using h'
  · intro h v₁ v₂ hv₁ hv₂
    exact (heq v₁ v₂).mpr (h _ _ hv₁ hv₂)

theorem hides_of_hide {s : Spelling} {key p q : String} {f : List Char → List Char}
    (hf : ∀ v : String, (p ++ s.text key v ++ q).toList = f v.toList)
    (h : ∀ v, IsValue v → hideCredentials u (f v) = t) : s.Hides u key p q := by
  refine (hides_iff_shorten hf).mpr fun v₁ v₂ hv₁ hv₂ => ?_
  rw [redact_eq, redact_eq, h v₁ hv₁, h v₂ hv₂]

theorem hides_of_shows {s : Spelling} {key p q : String} {f : List Char → List Char}
    {lead : String} (hf : ∀ v : String, (p ++ s.text key v ++ q).toList = f v.toList)
    (h : Shows u f lead.toList) :
    s.Hides u key p q ↔ ∀ t ∈ some lead, 200 ≤ (redact u t.toList).length := by
  rw [hides_iff_shorten hf, h.agree_iff]
  simp

theorem hides_of_none {s : Spelling} {key p q : String} (h : s.Hides u key p q) :
    s.Hides u key p q ↔ ∀ t ∈ (none : Option String), 200 ≤ (redact u t.toList).length := by
  simp [h]

/-- The preview hides a value exactly if the first pattern takes it or if it
    stands behind the first 200 characters. -/
theorem hides_iff (u : WordClass) (s : Spelling) (key p q : String) (hk : IsKey key.toList)
    (hs : s.WellFormed) :
    s.Hides u key p q ↔ ∀ t ∈ s.lead key p, 200 ≤ (redact u t.toList).length := by
  cases s with
  | equals =>
    refine hides_of_none (hides_of_hide
      (f := fun v => p.toList ++ (key.toList ++ '=' :: (v ++ q.toList)))
      (fun v => by simp [text]) fun v hv => hide_equals hk hv.isRun p.toList q.toList)
  | colon =>
    have hf : ∀ v : String, (p ++ colon.text key v ++ q).toList =
        p.toList ++ (key.toList ++ ':' :: ' ' :: (v.toList ++ q.toList)) := fun v => by simp [text]
    unfold lead
    cases hp : inValue p.toList with
    | false =>
      exact hides_of_none (hides_of_hide
        (f := fun v => p.toList ++ (key.toList ++ ':' :: ' ' :: (v ++ q.toList)))
        hf fun v hv => hide_colon hk hv.isRun hp q.toList)
    | true =>
      refine hides_of_shows
        (f := fun v => p.toList ++ (key.toList ++ ':' :: ' ' :: (v ++ q.toList))) hf ?_
      have hshows := shows_of_append (u := u) (t := p.toList ++ (key.toList ++ [':', ' ']))
        (redact_of_space (s := (scan 0 p.toList).1 ++ redacted) fun y => by
          simpa using hide_key_taken hk hp y) q.toList
      simpa using hshows
  | json =>
    refine hides_of_shows (f := fun v => p.toList ++
      '"' :: (key.toList ++ '"' :: ':' :: ' ' :: '"' :: (v ++ '"' :: q.toList)))
      (fun v => by simp [text]) ?_
    obtain ⟨s, h⟩ := hide_json (u := u) hk p.toList
    have hshows := shows_of_append (u := u)
      (t := p.toList ++ '"' :: (key.toList ++ ['"', ':', ' ', '"']))
      (redact_of_quote fun y => by simpa using h y) ('"' :: q.toList)
    simpa using hshows
  | header scheme =>
    have hf : ∀ v : String, (p ++ (header scheme).text key v ++ q).toList = p.toList ++
        (key.toList ++ ':' :: ' ' :: (scheme.toList ++ ' ' :: (v.toList ++ q.toList))) :=
      fun v => by simp [text]
    refine hides_of_shows (f := fun v => p.toList ++
      (key.toList ++ ':' :: ' ' :: (scheme.toList ++ ' ' :: (v ++ q.toList)))) hf ?_
    cases hp : inValue p.toList with
    | false =>
      have hshows := shows_of_append (u := u)
        (t := p.toList ++ (key.toList ++ ':' :: ' ' :: (scheme.toList ++ [' '])))
        (redact_of_space (s := (scan 0 p.toList).1 ++ redacted) fun y => by
          simpa using hide_header hk hs hp y) q.toList
      simpa using hshows
    | true =>
      rcases beforeKey_cases scheme.toList with ⟨heq, hall⟩ | ⟨k, hk', heq⟩
      · have hshows := shows_of_append (u := u)
          (t := p.toList ++ (key.toList ++ ':' :: ' ' :: (scheme.toList ++ [' '])))
          (redact_of_space (s := (scan 0 p.toList).1 ++ (redacted ++ ' ' :: scheme.toList))
            fun y => by
              have h := hide_key_taken (u := u) hk hp (scheme.toList ++ ' ' :: y)
              rw [hide_scheme hs hall] at h
              simpa using h) q.toList
        simpa [heq] using hshows
      · have hs' : IsScheme (beforeKey scheme.toList ++ k) := by
          rw [← heq]
          exact hs
        have hshows := shows_scheme_key (u := u) hs' hk' hk hp q.toList
        have hscheme : ∀ y, scheme.toList ++ y = beforeKey scheme.toList ++ (k ++ y) := by
          intro y
          rw [← List.append_assoc, ← heq]
        simp only [hscheme]
        simpa using hshows

/-- `\w` without the letters beyond ASCII. -/
def asciiWords : WordClass where
  isWord c := c.isAlphanum || c == '_'
  ascii _ _ := rfl

theorem hides_token :
    equals.Hides asciiWords "token" "see " "." :=
  (hides_iff asciiWords equals "token" "see " "." (by decide) trivial).mpr (by intro t ht; cases ht)

/-- `"token": "a"` shows its value. -/
theorem shows_token : ¬ ∀ (u : WordClass) (s : Spelling) (key p q : String), IsKey key.toList →
    s.WellFormed → (∀ c ∈ q.toList.head?, Py.isSpace c = true ∨ c ∈ ['"', '\'', ',', ';']) →
    s.Hides u key p q := by
  intro h
  have hval : ∀ c, Py.isSpace c = false ∧ c ∉ ['"', '\'', ',', ';'] → IsValue [c] := fun c hc =>
    ⟨List.cons_ne_nil _ _, fun d hd => by rw [List.mem_singleton.mp hd]; exact hc⟩
  have heq := h asciiWords json "token" "" "" (by decide) trivial (by simp) "a" "b"
    (hval 'a' (by decide)) (hval 'b' (by decide))
  exact absurd heq (by decide +kernel)

end Spelling

end Supervisor

end DiscordAgent
