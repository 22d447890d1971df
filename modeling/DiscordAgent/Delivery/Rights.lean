import DiscordAgent.System.Effects

/-!
# The delivery right

Between two requeues of a job, five calls write the columns that decide who
tells the user about it: `mark_reported` of `report-done`, `claim_for_fallback`,
`mark_woken`, `incr_wake_attempts` and `set_undeliverable`. The first two are
compare-and-set updates whose row count says whether the caller has won.

Specification: `Right`, the two flags that the guards look at, with the calls
as a machine on them. `results_eq` says that the database refines it.

Main results:

* `right_granted_once`: at most one call of a sequence wins, unless a won claim
  is followed by a `report-done`, or by `set_undeliverable` and another claim.
* `right_granted_twice`: a won claim does not stop a later `report-done`.
-/

namespace DiscordAgent

namespace Delivery

/-- A call on the delivery columns of a job. -/
inductive RightCall where
  | reportDone (ts : ℚ)
  | claim
  | woken
  | attempt
  | undeliverable
  deriving DecidableEq

/-- The call on job `j`: whether it returned `True`, and the new database. -/
def RightCall.apply (j : ℕ) : RightCall → Db → Bool × Db
  | .reportDone ts, db => db.markReported j ts
  | .claim, db => db.claimForFallback j
  | .woken, db => (false, db.markWoken j)
  | .attempt, db => (false, db.incrWakeAttempts j)
  | .undeliverable, db => (false, db.setUndeliverable j)

/-- What the calls of a sequence return. -/
def results (j : ℕ) : List RightCall → Db → List Bool
  | [], _ => []
  | c :: cs, db => (c.apply j db).1 :: results j cs (c.apply j db).2

/-! ## Specification: the two flags -/

/-- What the guards of the two compare-and-set updates look at. -/
structure Right where
  reported : Bool
  claimed : Bool

namespace Right

/-- A call: whether it wins, and the new flags. -/
def step : Right → RightCall → Bool × Right
  | s, .reportDone _ => (!s.reported, { s with reported := true })
  | s, .claim => (!s.reported && !s.claimed, { s with claimed := s.claimed || !s.reported })
  | s, .woken => (false, s)
  | s, .attempt => (false, s)
  | s, .undeliverable => (false, { s with claimed := false })

/-- How many calls of a sequence win. -/
def grants : List RightCall → Right → ℕ
  | [], _ => 0
  | c :: cs, s => (s.step c).1.toNat + grants cs (s.step c).2

end Right

/-- The calls that let a second one win after a won claim: a `report-done`, or
    `set_undeliverable` and later a claim. -/
def Reopens (cs : List RightCall) : Prop :=
  (∃ ts, .reportDone ts ∈ cs) ∨ ∃ mid post, cs = mid ++ .claim :: post ∧ .undeliverable ∈ mid

/-- A claim that wins is followed by calls that reopen the right. The claim wins
    if no `report-done` comes before it and, on a job that is in `fallback` at
    the start, a `set_undeliverable` does. -/
def Doubles (claimed : Bool) (cs : List RightCall) : Prop :=
  ∃ pre rest, cs = pre ++ .claim :: rest ∧ (∀ ts, .reportDone ts ∉ pre) ∧
    (claimed = true → .undeliverable ∈ pre) ∧ Reopens rest

variable {c : RightCall} {cs : List RightCall} {claimed : Bool}

theorem not_reopens_nil : ¬ Reopens [] := by simp [Reopens]

theorem not_doubles_nil : ¬ Doubles claimed [] := by simp [Doubles]

theorem reopens_reportDone {ts : ℚ} : Reopens (.reportDone ts :: cs) := .inl ⟨ts, by simp⟩

theorem reopens_undeliverable :
    Reopens (.undeliverable :: cs) ↔ (∃ ts, .reportDone ts ∈ cs) ∨ .claim ∈ cs := by
  constructor
  · rintro (⟨ts, h⟩ | ⟨mid, post, h, -⟩)
    · exact .inl ⟨ts, by simpa using h⟩
    · have hmem : RightCall.claim ∈ RightCall.undeliverable :: cs := by simp [h]
      exact .inr (by simpa using hmem)
  · rintro (⟨ts, h⟩ | h)
    · exact .inl ⟨ts, by simp [h]⟩
    · obtain ⟨mid, post, rfl⟩ := List.append_of_mem h
      exact .inr ⟨.undeliverable :: mid, post, rfl, by simp⟩

/-- The other calls do not matter to whether the right is reopened. -/
theorem reopens_cons (hr : ∀ ts, c ≠ .reportDone ts) (hu : c ≠ .undeliverable) :
    Reopens (c :: cs) ↔ Reopens cs := by
  constructor
  · rintro (⟨ts, h⟩ | ⟨mid, post, h, hm⟩)
    · exact .inl ⟨ts, by simpa [(hr ts).symm] using h⟩
    · cases mid with
      | nil => cases hm
      | cons d mid =>
        obtain ⟨rfl, rfl⟩ := List.cons.inj h
        exact .inr ⟨mid, post, rfl, by simpa [hu.symm] using hm⟩
  · rintro (⟨ts, h⟩ | ⟨mid, post, rfl, hm⟩)
    · exact .inl ⟨ts, by simp [h]⟩
    · exact .inr ⟨c :: mid, post, rfl, by simp [hm]⟩

theorem Doubles.reopens (h : Doubles claimed cs) : Reopens cs := by
  obtain ⟨pre, rest, rfl, -, -, h⟩ := h
  rcases h with ⟨ts, h⟩ | ⟨mid, post, rfl, hm⟩
  · exact .inl ⟨ts, by simp [h]⟩
  · exact .inr ⟨pre ++ .claim :: mid, post, by simp, by simp [hm]⟩

theorem doubles_claim :
    Doubles claimed (.claim :: cs) ↔ (claimed = false ∧ Reopens cs) ∨ Doubles claimed cs := by
  constructor
  · rintro ⟨pre, rest, h, hrep, hund, hre⟩
    cases pre with
    | nil =>
      cases h
      refine .inl ⟨?_, hre⟩
      by_contra hc
      have := hund (by simpa using hc)
      cases this
    | cons d pre =>
      obtain ⟨rfl, rfl⟩ := List.cons.inj h
      refine .inr ⟨pre, rest, rfl, ?_, ?_, hre⟩
      · intro ts ht
        exact hrep ts (List.mem_cons_of_mem _ ht)
      · intro hc
        simpa using hund hc
  · rintro (⟨rfl, h⟩ | ⟨pre, rest, rfl, hrep, hund, hre⟩)
    · exact ⟨[], cs, rfl, by simp, by simp, h⟩
    · refine ⟨.claim :: pre, rest, rfl, by simpa using hrep, ?_, hre⟩
      intro hc
      exact List.mem_cons_of_mem _ (hund hc)

/-- A call other than a claim is passed over. -/
theorem doubles_cons (hc : c ≠ .claim) :
    Doubles claimed (c :: cs) ↔
      (∀ ts, c ≠ .reportDone ts) ∧ Doubles (claimed && decide (c ≠ .undeliverable)) cs := by
  constructor
  · rintro ⟨pre, rest, h, hrep, hund, hre⟩
    cases pre with
    | nil =>
      cases h
      exact absurd rfl hc
    | cons d pre =>
      obtain ⟨rfl, rfl⟩ := List.cons.inj h
      refine ⟨fun ts ht => hrep ts (by simp [ht]), pre, rest, rfl, ?_, ?_, hre⟩
      · intro ts ht
        exact hrep ts (List.mem_cons_of_mem _ ht)
      · intro hcl
        obtain ⟨h1, h2⟩ : claimed = true ∧ c ≠ .undeliverable := by simpa using hcl
        simpa [h2.symm] using hund h1
  · rintro ⟨hr, pre, rest, rfl, hrep, hund, hre⟩
    refine ⟨c :: pre, rest, rfl, ?_, ?_, hre⟩
    · intro ts ht
      rcases List.mem_cons.mp ht with h | h
      · exact hr ts h.symm
      · exact hrep ts h
    · intro hcl
      by_cases hu : c = .undeliverable
      · simp [hu]
      · exact List.mem_cons_of_mem _ (hund (by simp [hcl, hu]))

namespace Right

variable {s : Right}

@[simp] theorem step_reportDone (ts : ℚ) :
    s.step (.reportDone ts) = (!s.reported, { s with reported := true }) := rfl

@[simp] theorem step_claim : s.step .claim =
    (!s.reported && !s.claimed, { s with claimed := s.claimed || !s.reported }) := rfl

@[simp] theorem step_woken : s.step .woken = (false, s) := rfl

@[simp] theorem step_attempt : s.step .attempt = (false, s) := rfl

@[simp] theorem step_undeliverable :
    s.step .undeliverable = (false, { s with claimed := false }) := rfl

@[simp] theorem grants_nil : grants [] s = 0 := rfl

@[simp] theorem grants_cons : grants (c :: cs) s = (s.step c).1.toNat + grants cs (s.step c).2 :=
  rfl

/-- After a won `report-done` no call wins. -/
theorem grants_reported (cs : List RightCall) (claimed : Bool) :
    grants cs ⟨true, claimed⟩ = 0 := by
  induction cs generalizing claimed with
  | nil => rfl
  | cons c cs ih => cases c <;> simp [ih]

theorem one_le_grants_free (cs : List RightCall) :
    1 ≤ grants cs ⟨false, false⟩ ↔ (∃ ts, .reportDone ts ∈ cs) ∨ .claim ∈ cs := by
  induction cs with
  | nil => simp
  | cons c cs ih => cases c <;> simp_all

/-- After a won claim. -/
theorem one_le_grants_claimed (cs : List RightCall) :
    1 ≤ grants cs ⟨false, true⟩ ↔ Reopens cs := by
  induction cs with
  | nil => simp [not_reopens_nil]
  | cons c cs ih =>
    cases c with
    | reportDone ts => simp [reopens_reportDone]
    | undeliverable =>
      rw [reopens_undeliverable, ← one_le_grants_free]
      simp
    | claim | woken | attempt =>
      rw [reopens_cons (by simp) (by simp), ← ih]
      simp

theorem two_le_grants (cs : List RightCall) (claimed : Bool) :
    2 ≤ grants cs ⟨false, claimed⟩ ↔ Doubles claimed cs := by
  induction cs generalizing claimed with
  | nil => simp [not_doubles_nil]
  | cons c cs ih =>
    cases c with
    | reportDone ts =>
      rw [doubles_cons (by simp)]
      simp [grants_reported]
    | claim =>
      rw [doubles_claim]
      cases claimed with
      | true => simp [ih]
      | false =>
        -- the first claim wins, so one more win is enough
        have hone := one_le_grants_claimed cs
        have himp : Doubles false cs → Reopens cs := Doubles.reopens
        simp only [grants_cons, step_claim, Bool.not_false, Bool.and_self, Bool.toNat_true,
          Bool.or_true, true_and]
        rw [or_iff_left_of_imp himp, ← hone]
        omega
    | woken | attempt | undeliverable =>
      rw [doubles_cons (by simp), ← ih]
      simp

end Right

/-! ## The database refines the flags -/

/-- The flags of a job row. -/
def right (r : Job) : Right := ⟨r.reportedAt.isSome, r.wakeState == some .fallback⟩

variable {db : Db} {j : ℕ} {r : Job}

/-- Every call returns and writes what the machine on the flags says. -/
theorem apply_refines (hr : db.getJob j = some r) :
    (c.apply j db).1 = ((right r).step c).1 ∧
      ∃ r', (c.apply j db).2.getJob j = some r' ∧ right r' = ((right r).step c).2 := by
  cases c with
  | reportDone ts =>
    simp only [RightCall.apply, Db.markReported, hr, right]
    split_ifs with hp
    · exact ⟨by simp [hp], _, Db.getJob_updateJob_self hr, rfl⟩
    · obtain ⟨t, ht⟩ := Option.ne_none_iff_exists'.mp hp
      exact ⟨by simp [ht], r, hr, by simp [ht]⟩
  | claim =>
    simp only [RightCall.apply, Db.claimForFallback, hr, right]
    split_ifs with hp
    · exact ⟨by simp [hp.1, hp.2], _, Db.getJob_updateJob_self hr, by simp [hp.1]⟩
    · refine ⟨?_, r, hr, ?_⟩ <;> cases h : r.reportedAt <;> simp_all
  | woken =>
    refine ⟨rfl, _, Db.getJob_updateJob_self hr, ?_⟩
    by_cases hw : r.wakeState = none <;> simp [right, hw]
  | attempt => exact ⟨rfl, _, Db.getJob_updateJob_self hr, rfl⟩
  | undeliverable => exact ⟨rfl, _, Db.getJob_updateJob_self hr, by simp [right]⟩

/-- On a row the calls win as often as on its flags. -/
theorem results_eq (cs : List RightCall) (hr : db.getJob j = some r) :
    (results j cs db).count true = Right.grants cs (right r) := by
  induction cs generalizing db r with
  | nil => rfl
  | cons c cs ih =>
    obtain ⟨hres, r', hr', hright⟩ := apply_refines (c := c) hr
    rw [results, List.count_cons, ih hr', hres, hright, Right.grants_cons]
    cases ((right r).step c).1 <;> simp [Nat.add_comm]

/-- Without the row a call fails and creates none. -/
theorem apply_noJob (c : RightCall) (hn : db.getJob j = none) :
    (c.apply j db).1 = false ∧ (c.apply j db).2.getJob j = none := by
  have hupd : ∀ (f : Job → Job) (h : ∀ j, (f j).id = j.id),
      (db.updateJob j f h).getJob j = none := by
    intro f h
    rw [Db.getJob_updateJob, if_pos rfl, hn]
    rfl
  cases c with
  | reportDone ts => simp [RightCall.apply, Db.markReported, hn]
  | claim => simp [RightCall.apply, Db.claimForFallback, hn]
  | woken | attempt | undeliverable => exact ⟨rfl, hupd _ _⟩

theorem results_noJob (cs : List RightCall) (hn : db.getJob j = none) :
    (results j cs db).count true = 0 := by
  induction cs generalizing db with
  | nil => rfl
  | cons c cs ih =>
    obtain ⟨hres, hn'⟩ := apply_noJob c hn
    rw [results, List.count_cons, ih hn', hres]
    rfl

theorem right_granted_once (db : Db) (j : ℕ) (cs : List RightCall) :
    (results j cs db).count true ≤ 1 ↔
      ∀ r, db.getJob j = some r → r.reportedAt = none →
        ¬ Doubles (r.wakeState == some .fallback) cs := by
  cases hr : db.getJob j with
  | none => simp [results_noJob cs hr]
  | some r =>
    rw [results_eq cs hr, ← not_lt, Nat.lt_iff_add_one_le]
    cases hrep : r.reportedAt with
    | some t => simp [right, hrep, Right.grants_reported]
    | none => simp [right, hrep, Right.two_le_grants]

/-- A queued job that was killed: job 1 in `failed_permanent`. -/
def killedJob : Db :=
  ((default : Db).createJob Sys.oneJob 0).2.updateJobState 1 .failedPermanent none 1

/-- The Supervisor's claim has won; the Controller's `report-done` wins too. -/
theorem right_granted_twice : ¬ ∀ (db : Db) (j : ℕ) (cs : List RightCall),
    (results j cs db).count true ≤ 1 := by
  intro h
  have htwo : (results 1 [.claim, .reportDone 2] killedJob).count true = 2 := by decide +kernel
  have := h killedJob 1 [.claim, .reportDone 2]
  omega

end Delivery

end DiscordAgent
