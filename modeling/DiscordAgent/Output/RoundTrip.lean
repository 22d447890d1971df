import Mathlib.Data.List.TakeWhile
import DiscordAgent.Model.ResultParser
import DiscordAgent.Output.Literals

/-!
# Round trip of the result block

A worker prints `json.dumps(r.to_dict())` between the two delimiters, and
`parse_result` looks for the last opening delimiter and the first closing one
after it. The text between them is not escaped.

* `framed`: what the worker prints.
* `Result.typed`: the field types of the annotations.
* `Lexical`: what is used of `json.loads` beside that it reads the block back.
* `roundTrip_iff`: the parser returns the result, in both modes, exactly if none
  of its strings has a delimiter.
* `roundTrip_fails`: a result that talks about the closing delimiter.
-/

namespace DiscordAgent

/-! ## Specification -/

namespace Json

/-- A `str`. -/
def isText : Json → Bool
  | str _ => true
  | _ => false

/-- A `str | None`. -/
def isTextOrNull : Json → Bool
  | str _ | null => true
  | _ => false

end Json

namespace ResultParser

/-- The fields have the types of the annotations (lines 30–46). -/
def Result.typed (r : Result) : Bool :=
  r.status.isText && r.mergeSha.isTextOrNull && r.prUrl.isTextOrNull &&
    r.filesChanged.all Json.isText &&
    (r.advisorRounds.all fun a => a.verdict.isText && a.keyFindings.all Json.isText) &&
    r.nextActionHint.isTextOrNull && r.unresolved.all Json.isText && r.errorSummary.isTextOrNull

/-- The result block after some prose. -/
def framed (prose json : String) : String :=
  prose ++ "\n" ++ delimiterOpen ++ "\n" ++ json ++ "\n" ++ delimiterClose ++ "\n"

/-- The text of a result. -/
def Result.dumps (floatText : PyFloat → List Char) (r : Result) : String :=
  String.ofList (Json.dumps floatText (.obj r.toDict))

/-- The string has the delimiter in it. -/
def Mentions (delimiter s : String) : Prop := delimiter.toList <:+: s.toList

instance (delimiter s : String) : Decidable (Mentions delimiter s) :=
  inferInstanceAs (Decidable (delimiter.toList <:+: s.toList))

/-- In a text that `json.loads` decodes to an object, quotes come in pairs,
    backslashes stand within literals, and every key is one of the literals. A
    literal without a backslash stands for itself. -/
def Lexical (lib : JsonLib) : Prop :=
  ∀ text fields, lib.loads text = .ok (.obj fields) →
    ∃ ls, Json.literals none text.toList = some ls ∧
      ∀ p ∈ fields, ∃ l ∈ ls, '\\' ∉ l → p.1.toList = l

/-! ## Strip -/

/-- `strip` cuts whitespace off both ends. -/
theorem strip_parts (z : List Char) : ∃ lead trail, z = lead ++ (Py.stripChars z ++ trail) ∧
    (∀ c ∈ lead, Py.isSpace c = true) ∧ ∀ c ∈ trail, Py.isSpace c = true := by
  refine ⟨z.takeWhile Py.isSpace, ((z.dropWhile Py.isSpace).reverse.takeWhile Py.isSpace).reverse,
    ?_, fun c hc => List.mem_takeWhile_imp hc, ?_⟩
  · rw [Py.stripChars, ← List.reverse_append, List.takeWhile_append_dropWhile,
      List.reverse_reverse, List.takeWhile_append_dropWhile]
  · intro c hc
    exact List.mem_takeWhile_imp (List.mem_reverse.mp hc)

theorem isSpace_facts {c : Char} (h : Py.isSpace c = true) : c ≠ '"' ∧ c ≠ '\\' := by
  constructor
  · rintro rfl
    revert h
    decide
  · rintro rfl
    revert h
    decide

theorem literals_lead {lead : List Char} (h : ∀ c ∈ lead, Py.isSpace c = true) (y : List Char) :
    Json.literals none (lead ++ y) = Json.literals none y := by
  induction lead with
  | nil => rfl
  | cons c lead ih =>
    obtain ⟨hq, hb⟩ := isSpace_facts (h c List.mem_cons_self)
    rw [List.cons_append, Json.literals_outside hq hb]
    exact ih fun d hd => h d (List.mem_cons_of_mem c hd)

/-! ## The block -/

section Block

variable {a b : List Char}

theorem open_ne : delimiterOpen.toList ≠ [] := by decide

theorem close_ne : delimiterClose.toList ≠ [] := by decide

theorem open_marking : ∀ c ∈ delimiterOpen.toList, Json.marking c = true :=
  List.all_eq_true.mp (by decide)

theorem close_marking : ∀ c ∈ delimiterClose.toList, Json.marking c = true :=
  List.all_eq_true.mp (by decide)

theorem blockOf_eq (h : ¬ delimiterOpen.toList <:+: (delimiterOpen.toList ++ b).tail) :
    blockOf (a ++ delimiterOpen.toList ++ b) = some (Py.stripChars (untilClose b)) := by
  unfold blockOf
  rw [Text.rfind_eq open_ne h, Option.map_some, ← List.length_append, List.drop_left]

theorem untilClose_eq (h : ¬ delimiterClose.toList <:+: a ++ delimiterClose.toList.dropLast) :
    untilClose (a ++ delimiterClose.toList ++ b) = a := by
  unfold untilClose
  rw [Text.find_eq h, List.append_assoc]
  exact List.take_left

theorem untilClose_prefix (a b : List Char) :
    untilClose (a ++ delimiterClose.toList ++ b) <+: a := by
  obtain ⟨i, hi, hfind⟩ := @Text.find_le _ delimiterClose.toList _ a b
  unfold untilClose
  rw [hfind, List.append_assoc]
  simp only []
  rw [List.take_append_of_le_length hi]
  exact List.take_prefix i a

theorem framed_toList (prose json : String) : (framed prose json).toList =
    prose.toList ++ '\n' :: (delimiterOpen.toList ++ '\n' :: (json.toList ++
      '\n' :: (delimiterClose.toList ++ ['\n']))) := by
  simp [framed, String.toList_append]

/-- After an opening delimiter and a newline there is none in the rest of the
    frame unless the text between has one. -/
theorem no_open_after {d w : List Char} (hd : ¬ delimiterOpen.toList <:+: d)
    (hw : ¬ delimiterOpen.toList <:+: w) :
    ¬ delimiterOpen.toList <:+: d ++ '\n' :: (w ++ '\n' :: (delimiterClose.toList ++ ['\n'])) := by
  have hnl : '\n' ∉ delimiterOpen.toList := by decide
  rw [Text.infix_sep_iff open_ne hnl, Text.infix_sep_iff open_ne hnl, not_or, not_or]
  exact ⟨hd, hw, by decide⟩

/-- Without a delimiter the block is the text. -/
theorem blockOf_framed (prose : String) {json : String} {m : List Char}
    (hjson : json.toList = '\x7b' :: (m ++ ['\x7d'])) (hopen : ¬ Mentions delimiterOpen json)
    (hclose : ¬ Mentions delimiterClose json) :
    blockOf (framed prose json).toList = some json.toList := by
  have hassoc : (framed prose json).toList = (prose.toList ++ ['\n']) ++ delimiterOpen.toList ++
      ('\n' :: json.toList ++ ['\n'] ++ delimiterClose.toList ++ ['\n']) := by
    rw [framed_toList]
    simp
  have hlast : ¬ delimiterOpen.toList <:+: (delimiterOpen.toList ++
      ('\n' :: json.toList ++ ['\n'] ++ delimiterClose.toList ++ ['\n'])).tail := by
    rw [List.tail_append_of_ne_nil open_ne]
    have h := no_open_after (d := delimiterOpen.toList.tail) (by decide) hopen
    simpa using h
  have hfirst : ¬ delimiterClose.toList <:+:
      ('\n' :: json.toList ++ ['\n']) ++ delimiterClose.toList.dropLast := by
    have hnl : '\n' ∉ delimiterClose.toList := by decide
    rw [List.append_assoc, List.cons_append, Text.infix_cons_iff close_ne hnl,
      List.singleton_append, Text.infix_sep_iff close_ne hnl, not_or]
    exact ⟨hclose, by decide⟩
  rw [hassoc, blockOf_eq hlast, untilClose_eq hfirst]
  have hnl : Py.isSpace '\n' = true := by decide
  have hlo : Py.isSpace '\x7b' = false := by decide
  have hhi : Py.isSpace '\x7d' = false := by decide
  simp [Py.stripChars, hjson, hnl, hlo, hhi]

end Block

/-! ## A block that is cut out of a literal -/

section Cut

variable {lib : JsonLib} {r : Result} {strict : Bool}

/-- What the block decodes to has no status. -/
def NoStatus (lib : JsonLib) (block : List Char) : Prop :=
  ∀ fields, lib.loads (String.ofList block) = .ok (.obj fields) → fields.lookup "status" = none

theorem noStatus_of_literals (hlex : Lexical lib) {block : List Char}
    (h : ∀ ls, Json.literals none block = some ls → ∀ l ∈ ls, ∀ c ∈ l, Json.structural c = true) :
    NoStatus lib block := by
  intro fields hloads
  obtain ⟨ls, hls, hkeys⟩ := hlex _ _ hloads
  rw [String.toList_ofList] at hls
  apply List.lookup_eq_none_iff.mpr
  intro p hp
  obtain ⟨l, hl, hkey⟩ := hkeys p hp
  have hstruct := h ls hls l hl
  have hb : '\\' ∉ l := by
    intro hmem
    exact (Json.structural_facts (hstruct _ hmem)).2.1 rfl
  apply bne_iff_ne.mpr
  intro hstatus
  have hs : 's' ∈ l := by
    rw [← hkey hb, ← hstatus]
    decide
  have hnot := hstruct _ hs
  revert hnot
  decide

variable {ss : List String} {prose json : String}

/-- The opening delimiter is in a literal: the block starts within it. -/
theorem noStatus_of_open (hlex : Lexical lib) (h : Json.Woven ss json.toList)
    (hopen : Mentions delimiterOpen json) :
    ∃ block, blockOf (framed prose json).toList = some block ∧ NoStatus lib block := by
  obtain ⟨u, w, hjson, hlast⟩ := Text.exists_last open_ne hopen
  have hassoc : (framed prose json).toList =
      (prose.toList ++ '\n' :: (delimiterOpen.toList ++ '\n' :: u)) ++ delimiterOpen.toList ++
        (w ++ ['\n'] ++ delimiterClose.toList ++ ['\n']) := by
    rw [framed_toList, hjson]
    simp
  have hlast' : ¬ delimiterOpen.toList <:+: (delimiterOpen.toList ++
      (w ++ ['\n'] ++ delimiterClose.toList ++ ['\n'])).tail := by
    have hnl : '\n' ∉ delimiterOpen.toList := by decide
    rw [List.tail_append_of_ne_nil open_ne] at hlast ⊢
    have hsep := (Text.infix_sep_iff (a := delimiterOpen.toList.tail ++ w)
      (b := delimiterClose.toList ++ ['\n']) open_ne hnl).not.mpr (by
        rw [not_or]
        exact ⟨hlast, by decide⟩)
    simpa using hsep
  refine ⟨_, by rw [hassoc]; exact blockOf_eq hlast', ?_⟩
  have hwithin := h.split open_ne open_marking (hjson.trans (List.append_assoc _ _ _))
  obtain @⟨_, _, _, post, s₁, s₂, -, hpost⟩ := hwithin
  have hcut := untilClose_prefix (s₂.flatMap Json.escapeChar ++ '"' :: post ++ ['\n']) ['\n']
  generalize untilClose _ = x at hcut ⊢
  obtain ⟨lead, trail, hx, hlead, -⟩ := strip_parts x
  apply noStatus_of_literals hlex
  intro ls hls
  have hpre : lead ++ Py.stripChars x <+:
      s₂.flatMap Json.escapeChar ++ '"' :: (post ++ ['\n']) := by
    rw [← List.cons_append, ← List.append_assoc]
    refine List.IsPrefix.trans ⟨trail, ?_⟩ hcut
    rw [List.append_assoc]
    exact hx.symm
  rw [← literals_lead hlead] at hls
  rcases Json.literals_escape hpre hls with rfl | ⟨y, hy, hrest⟩
  · intro l hl
    cases hl
  · exact Json.structural_of_literals hpost (by simp) hy hrest

theorem exists_of_append_eq {α : Type} {p e l t : List α} {q : α} (h : p ++ q :: e = l ++ t)
    (hq : q ∉ t) : ∃ e', e = e' ++ t ∧ l = p ++ q :: e' := by
  rcases List.append_eq_append_iff.mp h with ⟨a, rfl, ha⟩ | ⟨a, rfl, ha⟩
  · cases a with
    | nil =>
      rw [List.nil_append] at ha
      rw [← ha] at hq
      exact absurd List.mem_cons_self hq
    | cons x a =>
      obtain ⟨rfl, ha'⟩ := List.cons_eq_cons.mp ha
      exact ⟨a, ha', rfl⟩
  · rw [ha] at hq
    exact absurd (List.mem_append_right a List.mem_cons_self) hq

/-- Only the closing delimiter is in a literal: the block ends within it. -/
theorem noStatus_of_close (prose : String) (hlex : Lexical lib) (h : Json.Woven ss json.toList)
    (hopen : ¬ Mentions delimiterOpen json) (hclose : Mentions delimiterClose json) :
    ∃ block, blockOf (framed prose json).toList = some block ∧ NoStatus lib block := by
  obtain ⟨u, w, hjson, hfirst⟩ := Text.exists_first close_ne hclose
  have hassoc : (framed prose json).toList = (prose.toList ++ ['\n']) ++ delimiterOpen.toList ++
      ('\n' :: u ++ delimiterClose.toList ++ (w ++ '\n' :: (delimiterClose.toList ++ ['\n']))) := by
    rw [framed_toList, hjson]
    simp
  have hlast : ¬ delimiterOpen.toList <:+: (delimiterOpen.toList ++
      ('\n' :: u ++ delimiterClose.toList ++
        (w ++ '\n' :: (delimiterClose.toList ++ ['\n'])))).tail := by
    rw [List.tail_append_of_ne_nil open_ne]
    have hafter := no_open_after (d := delimiterOpen.toList.tail) (by decide) hopen
    rw [hjson] at hafter
    simpa using hafter
  have hfirst' : ¬ delimiterClose.toList <:+: '\n' :: u ++ delimiterClose.toList.dropLast := by
    rw [List.cons_append, Text.infix_cons_iff close_ne (by decide)]
    exact hfirst
  refine ⟨_, by rw [hassoc, blockOf_eq hlast, untilClose_eq hfirst'], ?_⟩
  have hwithin := h.split close_ne close_marking (hjson.trans (List.append_assoc _ _ _))
  obtain @⟨_, _, pre, _, s₁, s₂, hpre, -⟩ := hwithin
  obtain ⟨lead, trail, hx, hlead, htrail⟩ :=
    strip_parts ('\n' :: (pre ++ '"' :: s₁.flatMap Json.escapeChar))
  generalize Py.stripChars _ = y at hx ⊢
  have hquote : '"' ∉ trail := fun hmem => (isSpace_facts (htrail _ hmem)).1 rfl
  rw [← List.cons_append, ← List.append_assoc] at hx
  obtain ⟨e, he, hy⟩ := exists_of_append_eq hx hquote
  apply noStatus_of_literals hlex
  intro ls hls
  have hnone : Json.literals none y = none := by
    rw [← literals_lead hlead, hy]
    exact Json.literals_cut (.char '\n' (by decide) hpre) (Json.body_escape s₁) ⟨trail, he.symm⟩
  rw [hnone] at hls
  cases hls

theorem exists_of_bind {ε α β : Type} {x : Except ε α} {f : α → Except ε β} {b : β}
    (h : x >>= f = .ok b) : ∃ a, x = .ok a ∧ f a = .ok b := by
  cases x with
  | error e => cases h
  | ok a => exact ⟨a, rfl, h⟩

theorem resultOf_of_decode {raw : Dict} (h : decode lib raw strict = .ok (some r)) :
    resultOf raw = .ok r := by
  unfold decode at h
  obtain ⟨errors, -, h⟩ := exists_of_bind h
  split_ifs at h
  obtain ⟨r', hr, h⟩ := exists_of_bind h
  cases h
  exact hr

theorem status_of_resultOf {raw : Dict} (h : resultOf raw = .ok r) :
    r.status = Dict.getD "status" (.str "") raw := by
  unfold resultOf at h
  obtain ⟨items, -, h⟩ := exists_of_bind h
  obtain ⟨rounds, -, h⟩ := exists_of_bind h
  cases h
  rfl

/-- Without a status the parser does not return a result with a valid one. -/
theorem parse_ne {text : String} {block : List Char} (hblock : blockOf text.toList = some block)
    (hno : NoStatus lib block) (hr : r.status.isOneOf validStatuses = true) :
    parseResult lib text strict ≠ .ok (some r) := by
  intro h
  unfold parseResult at h
  rw [hblock] at h
  cases block with
  | nil => cases strict <;> cases h
  | cons c cs =>
    simp only [] at h
    cases hl : lib.loads (String.ofList (c :: cs)) with
    | error e =>
      rw [hl] at h
      cases e <;> cases strict <;> cases h
    | ok v =>
      rw [hl] at h
      cases v with
      | obj raw =>
        have hstatus := status_of_resultOf (resultOf_of_decode h)
        rw [Dict.getD, hno raw hl] at hstatus
        rw [hstatus] at hr
        revert hr
        decide
      | _ => cases strict <;> cases h

end Cut

/-! ## A valid result -/

section Valid

variable {lib : JsonLib} {r : Result} {strict : Bool}

theorem textual_of_isText {v : Json} (h : v.isText = true) : v.textual = true := by
  cases v <;> first | rfl | cases h

theorem textual_of_isTextOrNull {v : Json} (h : v.isTextOrNull = true) : v.textual = true := by
  cases v <;> first | rfl | cases h

theorem textualItems_of_all {vs : List Json} (h : ∀ v ∈ vs, v.textual = true) :
    Json.textualItems vs = true := by
  induction vs with
  | nil => rfl
  | cons v vs ih =>
    rw [Json.textualItems, Bool.and_eq_true]
    exact ⟨h v List.mem_cons_self, ih fun w hw => h w (List.mem_cons_of_mem v hw)⟩

theorem textual_texts {vs : List Json} (h : vs.all Json.isText = true) :
    (Json.arr vs).textual = true :=
  textualItems_of_all fun v hv => textual_of_isText (List.all_eq_true.mp h v hv)

/-- The value that is printed has neither booleans nor floats. -/
theorem textual_toDict (h : r.typed = true) : (Json.obj r.toDict).textual = true := by
  simp only [Result.typed, Bool.and_eq_true] at h
  obtain ⟨⟨⟨⟨⟨⟨⟨hstatus, hmerge⟩, hpr⟩, hfiles⟩, hrounds⟩, hhint⟩, hun⟩, herr⟩ := h
  have hround : (Json.arr (r.advisorRounds.map fun a => .obj a.toDict)).textual = true := by
    apply textualItems_of_all
    intro v hv
    obtain ⟨a, ha, rfl⟩ := List.mem_map.mp hv
    have hand := List.all_eq_true.mp hrounds a ha
    rw [Bool.and_eq_true] at hand
    simp only [AdvisorRound.toDict, Json.textual, Json.textualFields, Json.textualField,
      Bool.and_eq_true]
    exact ⟨trivial, textual_of_isText hand.1, textual_texts hand.2, trivial⟩
  simp only [Result.toDict, Json.textual, Json.textualFields, Json.textualField, Bool.and_eq_true]
  exact ⟨textual_of_isText hstatus, textual_of_isTextOrNull hmerge, textual_of_isTextOrNull hpr,
    textual_texts hfiles, hround, textual_of_isTextOrNull hhint, textual_texts hun,
    textual_of_isTextOrNull herr, trivial⟩

theorem orEmpty_arr (xs : List Json) : (Json.arr xs).orEmpty = .arr xs := by
  cases xs <;> rfl

theorem roundsOf_toDict (rounds : List AdvisorRound) :
    roundsOf (rounds.map fun a => .obj a.toDict) = .ok rounds := by
  have hone : ∀ a : AdvisorRound, roundOf (.obj a.toDict) = .ok (some a) := by
    intro a
    have hfindings : Dict.get "key_findings" a.toDict = .arr a.keyFindings := rfl
    simp only [roundOf]
    rw [hfindings, orEmpty_arr]
    rfl
  have hall : (rounds.map fun a => Json.obj a.toDict).mapM roundOf = .ok (rounds.map some) := by
    induction rounds with
    | nil => rfl
    | cons a rounds ih =>
      rw [List.map_cons, List.mapM_cons, hone, ih]
      rfl
  unfold roundsOf
  rw [hall]
  simp [Bind.bind, Except.bind]

/-- The conversion undoes `to_dict`. -/
theorem resultOf_toDict (r : Result) : resultOf r.toDict = .ok r := by
  have hrounds : Dict.get "advisor_rounds" r.toDict =
      .arr (r.advisorRounds.map fun a => .obj a.toDict) := rfl
  unfold resultOf
  rw [hrounds, orEmpty_arr]
  have hrun : (roundsOf (r.advisorRounds.map fun a => .obj a.toDict) >>= fun rounds =>
      (.ok { r with advisorRounds := rounds } : Except ParseError Result)) = .ok r := by
    rw [roundsOf_toDict]
    rfl
  exact hrun

theorem status_of_valid (h : validate lib r = .ok []) :
    r.status.isOneOf validStatuses = true := by
  have hraw : validateRaw lib r.toDict = .ok [] := h
  unfold validateRaw at hraw
  obtain ⟨invalid, hi, hraw⟩ := exists_of_bind hraw
  obtain ⟨rounds, -, hraw⟩ := exists_of_bind hraw
  have hnil : invalid = [] := by
    have happ := Except.ok.inj hraw
    simp only [List.append_eq_nil_iff] at happ
    exact happ.1.1.2
  have hstatus : Dict.getD "status" (.str "") r.toDict = r.status := rfl
  rw [hstatus, hnil] at hi
  unfold statusErrors at hi
  split_ifs at hi with hhash hone
  · exact hone
  · cases hi

theorem decode_toDict (h : validate lib r = .ok []) :
    decode lib r.toDict strict = .ok (some r) := by
  have hraw : validateRaw lib r.toDict = .ok [] := h
  have hrun : (if ([] : List String) ≠ [] ∧ strict = true then
      .error (.strict ("Schema validation failed: " ++ "; ".intercalate []))
      else resultOf r.toDict >>= fun result => .ok (some result) :
        Except ParseError (Option Result)) = .ok (some r) := by
    rw [if_neg (by simp), resultOf_toDict]
    rfl
  unfold decode
  rw [hraw]
  exact hrun

theorem woven_dumps_toDict (floatText : PyFloat → List Char) (h : r.typed = true) :
    Json.Woven (Json.obj r.toDict).strings (r.dumps floatText).toList := by
  rw [Result.dumps, String.toList_ofList]
  exact Json.woven_dumps floatText _ (textual_toDict h)

/-- The printed block is read back, in both modes, exactly if no string of the
    result mentions a delimiter. -/
theorem roundTrip_iff (lib : JsonLib) (floatText : PyFloat → List Char) (prose : String)
    (r : Result) (strict : Bool) (htyped : r.typed = true) (hvalid : validate lib r = .ok [])
    (hinverse : lib.loads (r.dumps floatText) = .ok (.obj r.toDict)) (hlex : Lexical lib) :
    parseResult lib (framed prose (r.dumps floatText)) strict = .ok (some r) ↔
      ∀ s ∈ (Json.obj r.toDict).strings,
        ¬ Mentions delimiterOpen s ∧ ¬ Mentions delimiterClose s := by
  have hwoven := woven_dumps_toDict floatText htyped
  have hopen : Mentions delimiterOpen (r.dumps floatText) ↔ _ :=
    Json.infix_woven_iff open_ne open_marking hwoven
  have hclose : Mentions delimiterClose (r.dumps floatText) ↔ _ :=
    Json.infix_woven_iff close_ne close_marking hwoven
  constructor
  · intro hparse
    by_contra hmention
    have hcut : ∃ block, blockOf (framed prose (r.dumps floatText)).toList = some block ∧
        NoStatus lib block := by
      by_cases ho : Mentions delimiterOpen (r.dumps floatText)
      · exact noStatus_of_open hlex hwoven ho
      · by_cases hc : Mentions delimiterClose (r.dumps floatText)
        · exact noStatus_of_close prose hlex hwoven ho hc
        · exact absurd (fun s hs => ⟨fun h => ho (hopen.mpr ⟨s, hs, h⟩),
            fun h => hc (hclose.mpr ⟨s, hs, h⟩)⟩) hmention
    obtain ⟨block, hblock, hno⟩ := hcut
    exact parse_ne hblock hno (status_of_valid hvalid) hparse
  · intro h
    have ho : ¬ Mentions delimiterOpen (r.dumps floatText) := by
      rw [hopen]
      rintro ⟨s, hs, hm⟩
      exact (h s hs).1 hm
    have hc : ¬ Mentions delimiterClose (r.dumps floatText) := by
      rw [hclose]
      rintro ⟨s, hs, hm⟩
      exact (h s hs).2 hm
    have hbrace : (r.dumps floatText).toList =
        '\x7b' :: (Json.dumpsFields floatText r.toDict ++ ['\x7d']) := String.toList_ofList
    have hblock := blockOf_framed prose hbrace ho hc
    rw [hbrace] at hblock
    unfold parseResult
    rw [hblock]
    simp only []
    rw [← hbrace, String.ofList_toList, hinverse]
    exact decode_toDict hvalid

end Valid

/-! ## Two results -/

/-- A result that reports nothing but this error. -/
def reporting (error : String) : Result :=
  ⟨.str "halt", .null, .null, [], [], .null, [], .str error⟩

/-- The text of a result without floats. -/
def Result.text (r : Result) : String := r.dumps fun _ => []

/-- A `json` that reads the text of this result only. -/
def readsOnly (r : Result) : JsonLib where
  loads t := if t = r.text then .ok (.obj r.toDict)
    else .error (.jsonDecodeError "Unterminated string starting at")
  repr _ := ""

theorem loads_readsOnly (r : Result) :
    (readsOnly r).loads (r.dumps fun _ => []) = .ok (.obj r.toDict) :=
  if_pos rfl

theorem lexical_readsOnly (r : Result)
    (h : ((Json.literals none (Json.dumps (fun _ => []) (.obj r.toDict))).any fun ls =>
      r.toDict.all fun p => ls.contains p.1.toList) = true) : Lexical (readsOnly r) := by
  intro t fields hloads
  simp only [readsOnly] at hloads
  split_ifs at hloads with ht
  cases hloads
  obtain ⟨ls, hls, hkeys⟩ := (Option.any_eq_true _ _).mp h
  refine ⟨ls, by rw [ht, Result.text, Result.dumps, String.toList_ofList]; exact hls, ?_⟩
  intro p hp
  have hmem := List.all_eq_true.mp hkeys p hp
  exact ⟨p.1.toList, List.contains_iff_mem.mp hmem, fun _ => rfl⟩

theorem roundTrip_reads : parseResult (readsOnly (reporting "2 tests fail"))
    (framed "See <<<END>>>." (reporting "2 tests fail").text) true =
      .ok (some (reporting "2 tests fail")) :=
  (roundTrip_iff (readsOnly (reporting "2 tests fail")) (fun _ => []) "See <<<END>>>."
    (reporting "2 tests fail") true (by decide) rfl (loads_readsOnly _)
    (lexical_readsOnly _ (by decide +kernel))).mpr (by decide)

/-- A worker of this repository reports what went wrong with the block. -/
theorem roundTrip_fails : ¬ ∀ (lib : JsonLib) (floatText : PyFloat → List Char) (prose : String)
    (r : Result) (strict : Bool), r.typed = true → validate lib r = .ok [] →
    lib.loads (r.dumps floatText) = .ok (.obj r.toDict) → Lexical lib →
    parseResult lib (framed prose (r.dumps floatText)) strict = .ok (some r) := by
  intro h
  have hlex : Lexical (readsOnly (reporting "no <<<END>>> found")) :=
    lexical_readsOnly _ (by decide +kernel)
  have hparse := h (readsOnly (reporting "no <<<END>>> found")) (fun _ => []) ""
    (reporting "no <<<END>>> found") false (by decide) rfl (loads_readsOnly _) hlex
  have hwoven := woven_dumps_toDict (r := reporting "no <<<END>>> found") (fun _ => []) (by decide)
  have hcut := noStatus_of_close "" hlex hwoven
    ((Json.infix_woven_iff open_ne open_marking hwoven).not.mpr (by decide))
    ((Json.infix_woven_iff close_ne close_marking hwoven).mpr (by decide))
  obtain ⟨block, hblock, hno⟩ := hcut
  exact parse_ne hblock hno (by decide) hparse

end ResultParser

end DiscordAgent
