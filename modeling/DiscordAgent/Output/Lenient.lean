import DiscordAgent.Model.ResultParser

/-!
# What the lenient parser accepts

`parse_result(text, strict=False)` is meant to return `None` for anything that
is not a result. Its conversions (`in` on a set, iteration, `int`, `list`) are
applied to values of unchecked type, and only `JSONDecodeError` is caught.

* `Convertible`: the blocks on which no conversion raises.
* `lenient_iff`: the lenient parser returns exactly on these.
* `lenient_raises`: a block with a list for its status.
-/

namespace DiscordAgent

/-! ## Calls that return -/

/-- The call raises nothing. -/
def Returns {ε α : Type} (x : Except ε α) : Prop := ∃ a, x = .ok a

section Returns

variable {ε α β : Type} {x : Except ε α} {f : α → Except ε β}

@[simp] theorem returns_ok (a : α) : Returns (.ok a : Except ε α) := ⟨a, rfl⟩

@[simp] theorem not_returns_error (e : ε) : ¬ Returns (.error e : Except ε α) := by
  rintro ⟨a, ha⟩
  cases ha

theorem returns_bind : Returns (x >>= f) ↔ ∃ a, x = .ok a ∧ Returns (f a) := by
  cases x with
  | ok a =>
    constructor
    · intro h
      exact ⟨a, rfl, h⟩
    · rintro ⟨b, hb, h⟩
      cases hb
      exact h
  | error e =>
    constructor
    · intro h
      exact absurd h (not_returns_error e)
    · rintro ⟨b, hb, -⟩
      cases hb

/-- What follows cannot raise. -/
theorem returns_bind_of (h : ∀ a, Returns (f a)) : Returns (x >>= f) ↔ Returns x := by
  rw [returns_bind]
  constructor
  · rintro ⟨a, ha, -⟩
    exact ⟨a, ha⟩
  · rintro ⟨a, ha⟩
    exact ⟨a, ha, h a⟩

theorem returns_mapM {l : List α} {g : α → Except ε β} :
    Returns (l.mapM g) ↔ ∀ a ∈ l, Returns (g a) := by
  induction l with
  | nil => simp [pure, Except.pure]
  | cons a l ih =>
    rw [List.mapM_cons, returns_bind, List.forall_mem_cons]
    have htail : ∀ b, Returns (l.mapM g >>= fun bs => (pure (b :: bs) : Except ε (List β))) ↔
        ∀ a ∈ l, Returns (g a) := by
      intro b
      rw [← ih]
      exact returns_bind_of fun bs => returns_ok (b :: bs)
    simp only [htail]
    constructor
    · rintro ⟨b, hb, h⟩
      exact ⟨⟨b, hb⟩, h⟩
    · rintro ⟨⟨b, hb⟩, h⟩
      exact ⟨b, hb, h⟩

end Returns

/-! ## Which conversions return -/

namespace Json

/-- `for x in v` does not raise. -/
def iterable : Json → Bool
  | str _ | arr _ | obj _ => true
  | _ => false

/-- `int(v)` does not raise. -/
def intConvertible : Json → Bool
  | int _ | bool _ | float (.fin _) => true
  | str s => (Py.intOfString s).isSome
  | _ => false

theorem returns_iter {v : Json} : Returns v.iter ↔ v.iterable = true := by
  cases v <;> simp [iter, iterable]

theorem returns_toInt {v : Json} : Returns v.toInt ↔ v.intConvertible = true := by
  cases v with
  | float f => cases f <;> simp [toInt, intConvertible]
  | str s =>
    unfold toInt intConvertible
    cases hs : Py.intOfString s <;> simp [hs]
  | _ => simp [toInt, intConvertible]

end Json

namespace ResultParser

/-- The `round` and the `key_findings` of an entry of `advisor_rounds` convert;
    an entry that is no object is skipped. -/
def entryConvertible : Json → Bool
  | .obj item => (Dict.getD "round" (.int 0) item).intConvertible &&
      (Dict.get "key_findings" item).orEmpty.iterable
  | _ => true

/-- The status is no array and no object, `advisor_rounds` is falsy or can be
    iterated over, and if it is an array its entries convert. -/
def fieldsConvertible (raw : Dict) : Bool :=
  (Dict.getD "status" (.str "") raw).hashable &&
    (Dict.get "advisor_rounds" raw).orEmpty.iterable &&
    (toList (Dict.get "advisor_rounds" raw)).all entryConvertible

/-- If there is a block that is not empty, `json.loads` decodes it or finds that
    it is not JSON, and the fields of a decoded object convert. -/
def Convertible (lib : JsonLib) (text : String) : Prop :=
  ∀ block, blockOf text.toList = some block → block ≠ [] →
    (∀ e, lib.loads (String.ofList block) = .error e → ∃ m, e = .jsonDecodeError m) ∧
      ∀ raw, lib.loads (String.ofList block) = .ok (.obj raw) → fieldsConvertible raw = true

variable {lib : JsonLib} {raw : Dict}

/-! ## The parser step by step -/

theorem returns_statusErrors {status : Json} :
    Returns (statusErrors lib status) ↔ status.hashable = true := by
  unfold statusErrors
  split_ifs with h <;> simp [h]

/-- The schema check hashes the status and iterates over `advisor_rounds`. -/
theorem returns_validateRaw : Returns (validateRaw lib raw) ↔
    (Dict.getD "status" (.str "") raw).hashable = true ∧
      (Dict.get "advisor_rounds" raw).orEmpty.iterable = true := by
  unfold validateRaw
  rw [← @returns_statusErrors lib, ← Json.returns_iter, returns_bind]
  constructor
  · rintro ⟨invalid, hi, h⟩
    exact ⟨⟨invalid, hi⟩, (returns_bind_of fun rounds => returns_ok _).mp h⟩
  · rintro ⟨⟨invalid, hi⟩, h⟩
    exact ⟨invalid, hi, (returns_bind_of fun rounds => returns_ok _).mpr h⟩

theorem returns_roundOf {item : Json} : Returns (roundOf item) ↔ entryConvertible item = true := by
  cases item with
  | obj item =>
    have hfindings : ∀ round, Returns ((Dict.get "key_findings" item).orEmpty.iter >>=
        fun keyFindings => (.ok (some ⟨round, Dict.getD "verdict" (.str "approved") item,
          keyFindings⟩) : Except ParseError (Option AdvisorRound))) ↔
        (Dict.get "key_findings" item).orEmpty.iterable = true := by
      intro round
      rw [returns_bind_of fun keyFindings => returns_ok _, Json.returns_iter]
    unfold roundOf entryConvertible
    rw [returns_bind, Bool.and_eq_true, ← Json.returns_toInt]
    simp only [hfindings]
    constructor
    · rintro ⟨n, hn, h⟩
      exact ⟨⟨n, hn⟩, h⟩
    · rintro ⟨⟨n, hn⟩, h⟩
      exact ⟨n, hn, h⟩
  | _ => simp [roundOf, entryConvertible]

theorem returns_roundsOf {items : List Json} :
    Returns (roundsOf items) ↔ items.all entryConvertible = true := by
  unfold roundsOf
  rw [returns_bind_of fun rounds => returns_ok _, returns_mapM, List.all_eq_true]
  simp only [returns_roundOf]

/-- The entries that the conversion goes through: characters and keys are
    skipped. -/
theorem entries_all {v : Json} {items : List Json} (h : v.orEmpty.iter = .ok items) :
    items.all entryConvertible = (toList v).all entryConvertible := by
  unfold Json.orEmpty at h
  split_ifs at h with htruthy
  · cases v with
    | arr xs =>
      cases h
      rfl
    | str s =>
      cases h
      simp [List.all_map, toList, entryConvertible]
    | obj fields =>
      cases h
      simp [List.all_map, toList, entryConvertible]
    | _ => cases h
  · cases h
    cases v with
    | arr xs =>
      have hnil : xs = [] := by simpa [Json.truthy] using htruthy
      rw [hnil]
      rfl
    | _ => rfl

theorem returns_resultOf : Returns (resultOf raw) ↔
    (Dict.get "advisor_rounds" raw).orEmpty.iterable = true ∧
      (toList (Dict.get "advisor_rounds" raw)).all entryConvertible = true := by
  unfold resultOf
  rw [← Json.returns_iter, returns_bind]
  constructor
  · rintro ⟨items, hi, h⟩
    refine ⟨⟨items, hi⟩, ?_⟩
    rw [← entries_all hi, ← returns_roundsOf]
    exact (returns_bind_of fun rounds => returns_ok _).mp h
  · rintro ⟨⟨items, hi⟩, h⟩
    refine ⟨items, hi, ?_⟩
    rw [← entries_all hi, ← returns_roundsOf] at h
    exact (returns_bind_of fun rounds => returns_ok _).mpr h

theorem returns_decode : Returns (decode lib raw false) ↔ fieldsConvertible raw = true := by
  have hresult : ∀ errors : List String,
      Returns (if errors ≠ [] ∧ false = true then
        .error (.strict ("Schema validation failed: " ++ "; ".intercalate errors))
        else do
          let result ← resultOf raw
          .ok (some result)) ↔ Returns (resultOf raw) := by
    intro errors
    rw [if_neg (by simp)]
    exact returns_bind_of fun result => returns_ok (some result)
  unfold decode fieldsConvertible
  rw [returns_bind, Bool.and_eq_true, Bool.and_eq_true, and_assoc]
  simp only [hresult]
  rw [← returns_resultOf]
  constructor
  · rintro ⟨errors, he, h⟩
    exact ⟨(returns_validateRaw.mp ⟨errors, he⟩).1, h⟩
  · rintro ⟨hs, h⟩
    obtain ⟨errors, he⟩ := returns_validateRaw.mpr ⟨hs, (returns_resultOf.mp h).1⟩
    exact ⟨errors, he, h⟩

/-! ## The whole parser -/

/-- The lenient parser returns `None` or a `Result` exactly on the convertible
    texts. -/
theorem lenient_iff (lib : JsonLib) (text : String) :
    (∃ r, parseResult lib text false = .ok r) ↔ Convertible lib text := by
  show Returns (parseResult lib text false) ↔ _
  unfold parseResult Convertible
  simp only [Bool.false_eq_true, if_false]
  cases hb : blockOf text.toList with
  | none => simp
  | some block =>
    cases block with
    | nil => simp
    | cons c cs =>
      simp only [Option.some.injEq, forall_eq']
      cases hl : lib.loads (String.ofList (c :: cs)) with
      | error e => cases e <;> simp
      | ok v =>
        cases v with
        | obj raw => simpa using returns_decode
        | _ => simp

/-- A `json` that decodes the block of the text below. -/
def decodesTo (v : Json) : JsonLib := ⟨fun _ => .ok v, fun _ => ""⟩

/-- The status of this block is an empty array, which Python cannot hash. -/
theorem lenient_raises :
    ¬ ∀ (lib : JsonLib) (text : String), ∃ r, parseResult lib text false = .ok r := by
  intro h
  obtain ⟨r, hr⟩ := h (decodesTo (.obj [("status", .arr [])]))
    "<<<DISCORD_AGENT_RESULT>>>\n\x7b\"status\": []\x7d\n<<<END>>>\n"
  have hnot : (parseResult (decodesTo (.obj [("status", .arr [])]))
      "<<<DISCORD_AGENT_RESULT>>>\n\x7b\"status\": []\x7d\n<<<END>>>\n" false).isOk = false := by
    decide +kernel
  rw [hr] at hnot
  cases hnot

end ResultParser

end DiscordAgent
