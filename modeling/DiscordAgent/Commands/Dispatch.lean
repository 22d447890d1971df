import Mathlib.Data.List.TakeWhile
import DiscordAgent.Commands.UpdateRepo
import DiscordAgent.Model.Dispatch

/-!
# Scheduling a job

`cmd_dispatch` inserts the job and then prints the time it is scheduled for. The
parser accepts times that the calendar of `datetime` does not have.

Specification: `AllOrNothing`, a dispatch is rejected and inserts nothing, or it
returns 0 and inserts one job whose time can be printed.

Results:
* `beyond_iff`, `unreadable_iff`: which expressions parse to a time that cannot be
  printed, and on which the parser raises something else than `ValueError`.
* `dispatch_iff`: a dispatch is all or nothing exactly if its expression is neither,
  and all accepted times can be printed exactly if none lies beyond the calendar.
* `dispatch_infinite`: the job row that `--enqueue-at inf` leaves behind.
-/

namespace DiscordAgent

open Interleave Sql

/-! ## Decimal digits -/

namespace Py

variable {c : Char} {cs ds : List Char}

theorem exists_digitValue (h : isDigit c = true) : ∃ d, digitValue c = some d := by
  obtain ⟨z, hz, hc⟩ := List.any_eq_true.mp h
  have hsome : (digitZeros.find? fun z => z ≤ c.toNat && c.toNat ≤ z + 9).isSome = true :=
    List.find?_isSome.mpr ⟨z, hz, hc⟩
  obtain ⟨y, hy⟩ := Option.isSome_iff_exists.mp hsome
  exact ⟨c.toNat - y, by rw [digitValue, hy, Option.map_some]⟩

theorem isDigit_ne {x : Char} (h : isDigit c = true) (hx : isDigit x = false) : c ≠ x := by
  rintro rfl
  rw [h] at hx
  cases hx

theorem exists_intDigits (b : Bool) (h : ∀ c ∈ cs, isDigit c = true) (hne : b = false → cs ≠ []) :
    ∃ ds, intDigits b cs = some ds ∧ ds.length = cs.length := by
  induction cs generalizing b with
  | nil =>
    cases b with
    | false => exact absurd rfl (hne rfl)
    | true => exact ⟨[], rfl, rfl⟩
  | cons c cs ih =>
    obtain ⟨hc, hcs⟩ := List.forall_mem_cons.mp h
    obtain ⟨d, hd⟩ := exists_digitValue hc
    obtain ⟨ds, hds, hlen⟩ := ih true hcs (by simp)
    have hunder : c ≠ '_' := isDigit_ne hc (by decide)
    refine ⟨d :: ds, ?_, by simp [hlen]⟩
    rw [intDigits.eq_3 b c cs (by simpa using fun _ => hunder), hd, hds]
    rfl

theorem exists_optDigits (h : ∀ c ∈ cs, isDigit c = true) :
    ∃ ds, optDigits cs = some ds ∧ ds.length = cs.length := by
  unfold optDigits
  split_ifs with hnil
  · subst hnil
    exact ⟨[], rfl, rfl⟩
  · exact exists_intDigits false h fun _ => hnil

/-- Digits, and maybe a point and more of them. -/
theorem exists_decimal (hds : ∀ c ∈ ds, isDigit c = true) (hne : ds ≠ [])
    (h : cs = [] ∨ ∃ fs, cs = '.' :: fs ∧ ∀ c ∈ fs, isDigit c = true) :
    ∃ q, decimal (ds ++ cs) = some q := by
  have hdot : ∀ c ∈ ds, (c != '.') = true := by
    intro c hc
    simpa using isDigit_ne (hds c hc) (x := '.') (by decide)
  have hplain : ∀ c, isDigit c = true ∨ c = '.' → (c != 'e' && c != 'E') = true := by
    rintro c (hc | rfl)
    · have he := isDigit_ne hc (x := 'e') (by decide)
      have hE := isDigit_ne hc (x := 'E') (by decide)
      simp [he, hE]
    · rfl
  have hall : ∀ c ∈ ds ++ cs, (c != 'e' && c != 'E') = true := by
    intro c hc
    apply hplain
    rcases List.mem_append.mp hc with hc | hc
    · exact .inl (hds c hc)
    · rcases h with rfl | ⟨fs, rfl, hfs⟩
      · cases hc
      · rcases List.mem_cons.mp hc with rfl | hc
        · exact .inr rfl
        · exact .inl (hfs c hc)
  have hmantissa : (ds ++ cs).span (fun c => c != 'e' && c != 'E') = (ds ++ cs, []) := by
    rw [List.span_eq_takeWhile_dropWhile, List.takeWhile_eq_self_iff.mpr hall,
      List.dropWhile_eq_nil_iff.mpr hall]
  have hsplit : (ds ++ cs).span (· != '.') = (ds, cs) := by
    rw [List.span_eq_takeWhile_dropWhile, List.takeWhile_append_of_pos hdot,
      List.dropWhile_append_of_pos hdot]
    rcases h with rfl | ⟨fs, rfl, -⟩
    · simp
    · simp
  obtain ⟨whole, hwhole, hlen⟩ := exists_optDigits hds
  obtain ⟨fraction, hfraction⟩ : ∃ fraction, optDigits cs.tail = some fraction := by
    rcases h with rfl | ⟨fs, rfl, hfs⟩
    · exact ⟨[], rfl⟩
    · obtain ⟨fraction, hfraction, -⟩ := exists_optDigits hfs
      exact ⟨fraction, hfraction⟩
  have hwhole' : whole ≠ [] := by
    rintro rfl
    exact hne (List.length_eq_zero_iff.mp hlen.symm)
  refine ⟨natOf (whole ++ fraction) * 10 ^ ((0 : ℤ) - fraction.length), ?_⟩
  simp only [decimal, hmantissa, hsplit]
  rw [if_pos trivial, hwhole, hfraction]
  simp only [Option.bind_eq_bind, Option.bind_some, hwhole', false_and, if_false]

end Py

namespace Timeparse

variable {lib : TimeLib} {now : ℚ} {expr amount : List Char} {unit : Char} {v : WithTop ℚ}

/-! ## Relative amounts -/

theorem relative_some (h : relative expr = some (amount, unit)) :
    isUnit unit = true ∧ isAmount amount = true := by
  unfold relative at h
  split at h
  · split at h
    · split_ifs at h with hparts
      cases h
      simpa using hparts
    · cases h
  · cases h

/-- Every amount is a number. -/
theorem exists_amount (h : isAmount amount = true) : ∃ q, Py.decimal amount = some q := by
  simp only [isAmount, Bool.and_eq_true, Bool.not_eq_true', List.isEmpty_eq_false_iff] at h
  obtain ⟨hne, hrest⟩ := h
  rw [← List.takeWhile_append_dropWhile (p := Py.isDigit) (l := amount)]
  apply Py.exists_decimal (fun c hc => List.mem_takeWhile_imp hc) hne
  split at hrest
  · next hnil => exact .inl hnil
  · next fs hfs =>
    simp only [Bool.and_eq_true, List.all_eq_true] at hrest
    exact .inr ⟨fs, hfs, hrest.2⟩
  · cases hrest

/-- The one unit without seconds. -/
theorem unitSeconds_eq_none_iff (h : isUnit unit = true) :
    unitSeconds unit.toLower = none ↔ unit = 'ſ' := by
  constructor
  · intro hnone
    unfold isUnit Supervisor.foldCase at h
    split_ifs at h with hi hs hk
    · exact absurd h (by decide)
    · exact hs
    · exact absurd h (by decide)
    · generalize unit.toLower = c at h hnone
      have hmem : c = 'w' ∨ c = 'd' ∨ c = 'h' ∨ c = 'm' ∨ c = 's' := by simpa using h
      rcases hmem with rfl | rfl | rfl | rfl | rfl
      all_goals cases hnone
  · rintro rfl
    decide

/-! ## Specification -/

/-- The expression denotes a time beyond the calendar. -/
inductive Beyond (lib : TimeLib) (now : ℚ) (expr : List Char) : Prop
  | relative {amount : List Char} {unit : Char} {q seconds : ℚ}
      (h : relative expr = some (amount, unit)) (hq : Py.decimal amount = some q)
      (hunit : unitSeconds unit.toLower = some seconds)
      (hv : lib.endOfTime ≤ later now q seconds)
  | number {v : WithTop ℚ} (h : Timeparse.relative expr = none)
      (hnumber : (Py.float expr).bind epoch = some v) (hv : lib.endOfTime ≤ v)
  | iso {q : ℚ} (h : Timeparse.relative expr = none) (hnumber : (Py.float expr).bind epoch = none)
      (hiso : isoTimestamp lib (String.ofList expr) = .ok q) (hv : lib.endOfTime ≤ q)

/-- The expression is not read: it is an amount of `ſ`, or an ISO time from which
    the local time cannot be computed. -/
inductive Unreadable (lib : TimeLib) (expr : List Char) : Prop
  | unit {amount : List Char} (h : relative expr = some (amount, 'ſ'))
  | iso {e : TimeError} (h : relative expr = none) (hnumber : (Py.float expr).bind epoch = none)
      (hiso : isoTimestamp lib (String.ofList expr) = .error e) (he : e ≠ .valueError)

/-! ## The accepted and the displayable times -/

theorem format_coe (q : ℚ) : formatEnqueueAt lib (q : WithTop ℚ) =
    if q ≤ 0 then .ok "immediate"
    else if q < lib.endOfTime then .ok (lib.strftime q)
    else .error .valueError := rfl

theorem format_ok_iff : (∃ text, formatEnqueueAt lib v = .ok text) ↔ v < lib.endOfTime := by
  cases v with
  | top => simp [formatEnqueueAt]
  | coe q =>
    rw [WithTop.coe_lt_coe, format_coe]
    split_ifs with hzero hend
    · simpa using lt_of_le_of_lt hzero lib.endOfTime_pos
    · simpa using hend
    · simpa using hend

/-- What `parse_enqueue_at` does with a relative expression. -/
theorem parse_relative (lib : TimeLib) (now : ℚ) (h : relative expr = some (amount, unit)) :
    ∃ q, Py.decimal amount = some q ∧ parseStripped lib expr now =
      (unitSeconds unit.toLower).elim (.error .keyError) fun seconds =>
        .ok (later now q seconds) := by
  obtain ⟨q, hq⟩ := exists_amount (relative_some h).2
  refine ⟨q, hq, ?_⟩
  simp only [parseStripped, h, hq]
  cases unitSeconds unit.toLower with
  | none => rfl
  | some seconds => rfl

theorem parse_number (h : relative expr = none) (hv : (Py.float expr).bind epoch = some v) :
    parseStripped lib expr now = .ok v := by
  simp only [parseStripped, h, hv]

theorem parse_iso (lib : TimeLib) (now : ℚ) (h : relative expr = none)
    (hv : (Py.float expr).bind epoch = none) :
    parseStripped lib expr now =
      (isoTimestamp lib (String.ofList expr)).map fun q => (q : WithTop ℚ) := by
  simp only [parseStripped, h, hv]

theorem beyond_iff : Beyond lib now expr ↔
    ∃ v, parseStripped lib expr now = .ok v ∧ ¬ ∃ text, formatEnqueueAt lib v = .ok text := by
  simp only [format_ok_iff, not_lt]
  constructor
  · rintro (⟨h, hq, hunit, hv⟩ | ⟨h, hnumber, hv⟩ | ⟨h, hnumber, hiso, hv⟩)
    · obtain ⟨q', hq', hparse⟩ := parse_relative lib now h
      rw [hq] at hq'
      cases hq'
      rw [hunit] at hparse
      exact ⟨_, hparse, hv⟩
    · exact ⟨_, parse_number h hnumber, hv⟩
    · have hparse := parse_iso lib now h hnumber
      rw [hiso] at hparse
      exact ⟨_, hparse, WithTop.coe_le_coe.mpr hv⟩
  · rintro ⟨v, hparse, hv⟩
    cases h : relative expr with
    | some parts =>
      obtain ⟨q, hq, heq⟩ := parse_relative lib now h
      rw [hparse] at heq
      cases hunit : unitSeconds parts.2.toLower with
      | none =>
        rw [hunit] at heq
        cases heq
      | some seconds =>
        rw [hunit] at heq
        cases heq
        exact .relative h hq hunit hv
    | none =>
      cases hnumber : (Py.float expr).bind epoch with
      | some v' =>
        rw [parse_number h hnumber] at hparse
        cases hparse
        exact .number h hnumber hv
      | none =>
        rw [parse_iso lib now h hnumber] at hparse
        cases hiso : isoTimestamp lib (String.ofList expr) with
        | error e =>
          rw [hiso] at hparse
          cases hparse
        | ok q =>
          rw [hiso] at hparse
          cases hparse
          exact .iso h hnumber hiso (WithTop.coe_le_coe.mp hv)

theorem unreadable_iff (now : ℚ) : Unreadable lib expr ↔
    ∃ e, parseStripped lib expr now = .error e ∧ e ≠ .valueError := by
  constructor
  · rintro (⟨h⟩ | ⟨h, hnumber, hiso, he⟩)
    · obtain ⟨q, -, hparse⟩ := parse_relative lib now h
      rw [(unitSeconds_eq_none_iff (relative_some h).1).mpr rfl] at hparse
      exact ⟨.keyError, hparse, by decide⟩
    · have hparse := parse_iso lib now h hnumber
      rw [hiso] at hparse
      exact ⟨_, hparse, he⟩
  · rintro ⟨e, hparse, he⟩
    cases h : relative expr with
    | some parts =>
      obtain ⟨q, -, heq⟩ := parse_relative lib now h
      rw [hparse] at heq
      cases hunit : unitSeconds parts.2.toLower with
      | none =>
        have hlong := (unitSeconds_eq_none_iff (relative_some h).1).mp hunit
        exact .unit (h.trans (by rw [← hlong]))
      | some seconds =>
        rw [hunit] at heq
        cases heq
    | none =>
      cases hnumber : (Py.float expr).bind epoch with
      | some v =>
        rw [parse_number h hnumber] at hparse
        cases hparse
      | none =>
        rw [parse_iso lib now h hnumber] at hparse
        cases hiso : isoTimestamp lib (String.ofList expr) with
        | error e' =>
          rw [hiso] at hparse
          cases hparse
          exact .iso h hnumber hiso he
        | ok q =>
          rw [hiso] at hparse
          cases hparse

end Timeparse

namespace Orchestrator

variable {py : PyLib} {lib : TimeLib} {chatIdEnv : Option String} {args : DispatchArgs}
  {w : World} {ω : ℕ → Inputs}

/-- The outcome of a dispatch in the world `w` is all or nothing. -/
inductive AllOrNothing (lib : TimeLib) (w : World) :
    Except PyErr (Except TimeError ℕ) × World → Prop
  | rejected {w' : World} (h : w'.db.jobs.rows = w.db.jobs.rows) :
      AllOrNothing lib w (.ok (.ok 1), w')
  | scheduled {w' : World} {j : Job} {text : String} (h : w'.db.jobs.rows = w.db.jobs.rows ++ [j])
      (htext : Timeparse.formatEnqueueAt lib j.enqueueAt = .ok text) :
      AllOrNothing lib w (.ok (.ok 0), w')

/-- The expression that a request in the world `w` has parsed. -/
def DispatchArgs.expression (args : DispatchArgs) (w : World) : Option (List Char) := do
  let repoName ← args.repo.filter (· ≠ "")
  let _ ← args.task.filter (· ≠ "")
  let _ ← w.db.resolve repoName
  let expr ← args.enqueueAt.filter (· ≠ "")
  some (Py.stripChars expr.toList)

/-- The clock when the expression is parsed. -/
def DispatchArgs.clock (args : DispatchArgs) (w : World) (ω : ℕ → Inputs) : ℚ :=
  (ω (lookups w args.repo)).now

/-! ## `dispatch` alone -/

/-- `_enqueue_job` inserts a job, and returns its id unless the time of the job
    cannot be printed. -/
theorem eval_enqueueJob (lib : TimeLib) (repo : Repo) (task : String) (priority : ℤ)
    (notify : Option String) (v : WithTop ℚ) (ω : ℕ → Inputs) (w : World) : ∃ j w' r,
      (enqueueJob lib repo task priority notify v).eval exec ω w = (.ok r, w') ∧
        w'.db.jobs.rows = w.db.jobs.rows ++ [j] ∧ j.enqueueAt = v ∧
        (r = .ok j.id ∨ r = (Timeparse.formatEnqueueAt lib v).map fun _ => j.id) := by
  simp only [enqueueJob, Prog.bind_eq, Prog.perform_bind, Prog.eval, exec]
  by_cases hlater : ((ω (0 + 1)).now : WithTop ℚ) < v
  · exact ⟨_, _, _, rfl, rfl, rfl, .inr (if_pos hlater)⟩
  · exact ⟨_, _, _, rfl, rfl, rfl, .inl (if_neg hlater)⟩

/-- The exit code depends on the text of the time, and the job is there. -/
theorem enqueueJob_iff (repo : Repo) (task : String) (priority : ℤ) (notify : Option String)
    (v : WithTop ℚ) :
    AllOrNothing lib w (((enqueueJob lib repo task priority notify v).bind fun r => match r with
      | .error e => .ret (.error e)
      | .ok _ => .ret (.ok 0)).eval exec ω w) ↔
      ∃ text, Timeparse.formatEnqueueAt lib v = .ok text := by
  obtain ⟨j, w', r, heval, hrows, rfl, hr⟩ :=
    eval_enqueueJob lib repo task priority notify v ω w
  obtain ⟨k, hk⟩ := Prog.eval_bind_shift exec (enqueueJob lib repo task priority notify j.enqueueAt)
    (fun r => match r with
      | .error e => (.ret (.error e) : Py (Except TimeError ℕ))
      | .ok _ => .ret (.ok 0)) ω w
  rw [heval] at hk
  rw [hk]
  constructor
  · intro h
    cases r with
    | error e => cases h
    | ok id =>
      cases h with
      | scheduled hnew htext =>
        rw [hrows] at hnew
        cases List.append_cancel_left hnew
        exact ⟨_, htext⟩
  · rintro ⟨text, htext⟩
    rw [htext] at hr
    rcases hr with rfl | rfl
    · exact .scheduled hrows htext
    · exact .scheduled hrows htext

/-- A dispatch that rejects its expression inserts nothing. -/
theorem enqueue_iff (repo : Repo) (task : String) (priority : ℤ) (notify : Option String)
    (parsed : Except TimeError (WithTop ℚ)) :
    AllOrNothing lib w ((match parsed with
      | .error .valueError => .ret (.ok 1)
      | .error e => .ret (.error e)
      | .ok v => (enqueueJob lib repo task priority notify v).bind fun r => match r with
        | .error e => .ret (.error e)
        | .ok _ => .ret (.ok 0) : Py (Except TimeError ℕ)).eval exec ω w) ↔
      (∀ v, parsed = .ok v → ∃ text, Timeparse.formatEnqueueAt lib v = .ok text) ∧
        ∀ e, parsed = .error e → e = .valueError := by
  cases parsed with
  | error e =>
    cases e with
    | valueError => simpa using .rejected rfl
    | keyError =>
      simp only [reduceCtorEq, false_implies, implies_true, Except.error.injEq, forall_eq',
        and_false, iff_false]
      rintro ⟨⟩
    | overflowError =>
      simp only [reduceCtorEq, false_implies, implies_true, Except.error.injEq, forall_eq',
        and_false, iff_false]
      rintro ⟨⟩
  | ok v =>
    simp only [enqueueJob_iff, Except.ok.injEq, forall_eq', reduceCtorEq, false_implies,
      implies_true, and_true]

/-- A dispatch without an expression is all or nothing. -/
theorem dispatch_iff_of_none {r : Except PyErr (Except TimeError ℕ) × World} {p : List Char → Prop}
    (h : AllOrNothing lib w r) (hnone : args.expression w = none) :
    AllOrNothing lib w r ↔ ∀ expr, args.expression w = some expr → p expr := by
  refine iff_of_true h fun expr hexpr => ?_
  rw [hnone] at hexpr
  cases hexpr

/-- A dispatch is all or nothing exactly if the expression that it parses is read
    and denotes a time of the calendar; the times that are accepted can be printed
    exactly if they are such times. -/
theorem dispatch_iff :
    (AllOrNothing lib w ((cmdDispatch py lib chatIdEnv args).eval exec ω w) ↔
      ∀ expr, args.expression w = some expr →
        ¬ Timeparse.Beyond lib (args.clock w ω) expr ∧ ¬ Timeparse.Unreadable lib expr) ∧
    ∀ (expr : String) (now : ℚ),
      (∀ v, Timeparse.parseEnqueueAt lib expr now = .ok v →
        ∃ text, Timeparse.formatEnqueueAt lib v = .ok text) ↔
      ¬ Timeparse.Beyond lib now (Py.stripChars expr.toList) := by
  have hprint (expr : String) (now : ℚ) :
      (∀ v, Timeparse.parseEnqueueAt lib expr now = .ok v →
        ∃ text, Timeparse.formatEnqueueAt lib v = .ok text) ↔
      ¬ Timeparse.Beyond lib now (Py.stripChars expr.toList) := by
    rw [Timeparse.beyond_iff]
    unfold Timeparse.parseEnqueueAt
    push Not
    rfl
  have hread (expr : String) (now : ℚ) :
      (∀ e, Timeparse.parseEnqueueAt lib expr now = .error e → e = .valueError) ↔
      ¬ Timeparse.Unreadable lib (Py.stripChars expr.toList) := by
    rw [Timeparse.unreadable_iff now]
    unfold Timeparse.parseEnqueueAt
    push Not
    rfl
  refine ⟨?_, hprint⟩
  cases hrepo : args.repo.filter (· ≠ "") with
  | none =>
    simp only [cmdDispatch, hrepo]
    exact dispatch_iff_of_none (.rejected rfl)
      (by simp only [DispatchArgs.expression, hrepo, Option.bind_eq_bind, Option.bind_none])
  | some repoName =>
    have hname : args.repo = some repoName := (Option.filter_eq_some_iff.mp hrepo).1
    cases htask : args.task.filter (· ≠ "") with
    | none =>
      simp only [cmdDispatch, hrepo, htask]
      exact dispatch_iff_of_none (.rejected rfl) (by
        simp only [DispatchArgs.expression, hrepo, htask, Option.bind_eq_bind, Option.bind_some,
          Option.bind_none])
    | some task =>
      have hexpression : args.expression w = (w.db.resolve repoName).bind fun _ =>
          (args.enqueueAt.filter (· ≠ "")).map fun expr => Py.stripChars expr.toList := by
        simp only [DispatchArgs.expression, hrepo, htask, Option.bind_eq_bind, Option.bind_some,
          Option.map_eq_bind, Function.comp_def]
      simp only [cmdDispatch, hrepo, htask, Prog.bind_eq, eval_resolve_bind]
      cases hres : w.db.resolve repoName with
      | none => exact dispatch_iff_of_none (.rejected rfl) (by rw [hexpression, hres]; rfl)
      | some repo =>
        rw [hres, Option.bind_some] at hexpression
        simp only [Option.elim]
        cases hexpr : args.enqueueAt.filter (· ≠ "") with
        | none =>
          refine dispatch_iff_of_none ?_ (by rw [hexpression, hexpr]; rfl)
          simp only [DispatchArgs.enqueueTime, hexpr, Prog.ret_bind]
          exact (enqueueJob_iff ..).mpr ⟨"immediate", rfl⟩
        | some expr =>
          simp only [DispatchArgs.enqueueTime, hexpr, Prog.bind_eq, Prog.perform_bind,
            Prog.call_bind, Prog.ret_bind, Prog.eval, exec]
          refine (enqueue_iff ..).trans ?_
          rw [hexpression, hexpr, hprint, hread]
          simp only [Option.map_some, Option.some.injEq, forall_eq', DispatchArgs.clock, hname,
            Nat.zero_add]

/-- A calendar that ends with the year 9999, and no ISO time is accepted. -/
def plainTime : TimeLib where
  awareTimestamp _ _ := .error .valueError
  naiveTimestamp _ _ := .error .valueError
  endOfTime := 253402300800
  endOfTime_pos := by norm_num
  strftime _ := ""

/-- `dispatch main-repo t --enqueue-at inf`. -/
def infinitely : DispatchArgs :=
  { repo := some "main-repo", task := some "t", enqueueAt := some "inf" }

/-- The outcome of a dispatch. -/
def dispatched (args : DispatchArgs) (w : World) : Except PyErr (Except TimeError ℕ) × World :=
  (cmdDispatch Settings.plain.py plainTime none args).eval exec (fun _ => {}) w

/-- The command ends with an exception, and the job is queued. -/
theorem dispatch_infinite : (dispatched infinitely mainWorld).1 = .ok (.error .overflowError) ∧
    (dispatched infinitely mainWorld).2.db.jobs.rows.map Job.state = [.queued] ∧
    ¬ AllOrNothing plainTime mainWorld (dispatched infinitely mainWorld) := by
  have hexit : (dispatched infinitely mainWorld).1 = .ok (.error .overflowError) := by
    rfl
  refine ⟨hexit, by rfl, ?_⟩
  intro h
  generalize dispatched infinitely mainWorld = r at h hexit
  cases h with
  | rejected h => cases hexit
  | scheduled h htext => cases hexit

end Orchestrator

end DiscordAgent
