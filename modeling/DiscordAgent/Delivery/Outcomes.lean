import DiscordAgent.Delivery.Marks
import DiscordAgent.System.Exceptions

/-!
# One notification outcome

The default mode: `auto_wake` is off and nobody calls `report-done`. Every
delivery-terminal job is then notified through the Supervisor's POSTs alone.
`Tick` is the invariant of a tick over its snapshot, `outcomeContract` what the
daemon guarantees between ticks.

Results:
* `Sys.delivered_once`: after every tick, each job that was delivery-terminal
  when the tick began is reported, undeliverable, or in `fallback` with a
  temporary failure in this tick; and within an episode at most one POST
  succeeds and none begins after the job was reported or given up.
-/

namespace DiscordAgent

open Interleave Orchestrator

variable {o : Op} {i : Inputs} {w : World} {j k : ℕ} {e : Entry}

namespace World

/-- POSTs are begun and answered only for jobs that the user has not been told
    about and that have not been given up. -/
def PostedOnce (w : World) : Prop := ∀ j newer e older, w.journal = newer ++ e :: older →
  (e = .postBegin j ∨ ∃ res, e = .postEnd j res) → ¬ Told j older ∧ ¬ GivenUp j older

end World

/-! ## The contract -/

/-- What the daemon guarantees: POSTs for open jobs only, a consistent state at
    the start of a tick, and that the other phases keep the state consistent. -/
structure Careful (o : Op) (s t : World) : Prop where
  post : ∀ j, ((∃ chat text, o = .postBegin j chat text) ∨ o = .postEnd j) →
    ¬ Told j s.journal ∧ ¬ GivenUp j s.journal ∧ s.Unreported j (some .fallback)
  list : o = .listUndeliveredTerminalJobs → ∀ j, s.Consistent j
  rest : s.phase ≠ .supervisor → (∀ j, s.Consistent j) → ∀ j, t.Consistent j

/-- The others leave the journal and the delivery columns alone. -/
def outcomeContract : Contract Op World where
  rely s t := t.phase = s.phase ∧ t.journal = s.journal ∧ s.KeepsMarks t
  refl _ := ⟨rfl, rfl, fun _ r hr => ⟨r, hr, rfl, rfl⟩⟩
  trans h h' := by
    refine ⟨h'.1.trans h.1, h'.2.1.trans h.2.1, fun j r hr => ?_⟩
    obtain ⟨r', hr', hm⟩ := h.2.2 j r hr
    obtain ⟨r'', hr'', hm'⟩ := h'.2.2 j r' hr'
    exact ⟨r'', hr'', hm'.1.trans hm.1, hm'.2.trans hm.2⟩
  assume _ _ := True
  guar := Careful

theorem World.PostedOnce.exec (h : w.PostedOnce) (hc : Careful o w (DiscordAgent.exec o i w).2) :
    (DiscordAgent.exec o i w).2.PostedOnce := by
  rcases exec_journal o i w with hj | ⟨e, hl, hj⟩
  · rw [World.PostedOnce, hj]
    exact h
  · intro j newer e' older heq he
    rw [hj] at heq
    cases newer with
    | nil =>
      obtain ⟨rfl, rfl⟩ := List.cons.inj heq
      rcases he with rfl | ⟨res, rfl⟩ <;> cases hl
      · exact (hc.post j (.inl ⟨_, _, rfl⟩)).imp_right And.left
      · exact (hc.post j (.inr rfl)).imp_right And.left
    | cons e'' newer =>
      obtain ⟨-, heq⟩ := List.cons.inj heq
      exact h j newer e' older heq he

/-! ## A tick -/

/-- Job `j` has its outcome of a tick that began with journal `B`. -/
def Resolved (B : List Entry) (w : World) (j : ℕ) : Prop :=
  ∃ r, w.db.getJob j = some r ∧ (r.reportedAt.isSome = true ∨ r.wakeState = some .undeliverable ∨
    (r.wakeState = some .fallback ∧ ∃ new res, w.journal = new ++ B ∧ .postEnd j res ∈ new ∧
      res.success = false ∧ res.permanent = false))

/-- In the middle of a tick that began with journal `B`: the jobs `xs` have not
    had their turn, the jobs of `S` that are not among them have their outcome.
    The jobs of `X` are having their turn. -/
structure Tick (S : Set ℕ) (B : List Entry) (X : Set ℕ) (xs : List Job) (w : World) : Prop where
  phase : w.phase = .supervisor
  since : ∃ new, w.journal = new ++ B
  consistent : ∀ j, j ∉ X → w.Consistent j
  nodup : (xs.map Job.id).Nodup
  now : ∀ j ∈ X, j ∉ xs.map Job.id
  snapshot : ∀ x ∈ xs, x.reportedAt = none ∧ w.Unreported x.id x.wakeState
  resolved : ∀ j ∈ S, j ∉ X → j ∈ xs.map Job.id ∨ Resolved B w j

section Tick

variable {S : Set ℕ} {B : List Entry} {X : Set ℕ} {xs : List Job} {s t : World}

theorem Resolved.of_marks (h : Resolved B s j) (hj : t.journal = s.journal)
    (hm : s.KeepsMarks t) : Resolved B t j := by
  obtain ⟨r, hr, hres⟩ := h
  obtain ⟨r', hr', hrep, hw⟩ := hm j r hr
  refine ⟨r', hr', ?_⟩
  rw [hrep, hw, hj]
  exact hres

theorem stable_tick (S : Set ℕ) (B : List Entry) (X : Set ℕ) (xs : List Job) :
    outcomeContract.Stable (Tick S B X xs) := by
  rintro s t ⟨hphase, hjournal, hmarks⟩ hs
  refine ⟨hphase.trans hs.phase, ?_, ?_, hs.nodup, hs.now, ?_, ?_⟩
  · rw [hjournal]
    exact hs.since
  · intro j hj
    exact (hs.consistent j hj).of_marks hjournal hmarks
  · intro x hx
    obtain ⟨hrep, hrow⟩ := hs.snapshot x hx
    exact ⟨hrep, hmarks.unreported hrow⟩
  · intro j hj hX
    exact (hs.resolved j hj hX).imp_right fun h => h.of_marks hjournal hmarks

/-- An operation of the turn of job `k`, and what it writes. -/
theorem journal_append (ho : o.delivers k) (h : ∃ new, w.journal = new ++ B) :
    ∃ new, (exec o i w).2.journal = new ++ B := by
  obtain ⟨new, hnew⟩ := h
  rcases journal_of_delivers (i := i) (w := w) ho with hj | ⟨e, -, hj⟩
  · exact ⟨new, hj.trans hnew⟩
  · exact ⟨e :: new, by rw [hj, hnew, List.cons_append]⟩

theorem Resolved.delivers (h : Resolved B w j) (ho : o.delivers k) (hk : j ≠ k) :
    Resolved B (exec o i w).2 j := by
  obtain ⟨r, hr, hres⟩ := h
  refine ⟨r, row_of_delivers ho hk hr, hres.imp_right (Or.imp_right ?_)⟩
  rintro ⟨hw, new, res, hnew, hmem, hres⟩
  refine ⟨hw, ?_⟩
  rcases journal_of_delivers (i := i) (w := w) ho with hj | ⟨e, -, hj⟩
  · exact ⟨new, res, hj.trans hnew, hmem, hres⟩
  · exact ⟨e :: new, res, by rw [hj, hnew, List.cons_append], by simp [hmem], hres⟩

theorem World.Consistent.delivers (h : w.Consistent j) (ho : o.delivers k) (hk : j ≠ k) :
    (exec o i w).2.Consistent j := by
  apply h.of_row
  · rcases journal_of_delivers (i := i) (w := w) ho with hj | ⟨e, hc, hj⟩ <;> rw [hj]
    · exact id
    · exact told_of_concerns hc hk.symm
  · rcases journal_of_delivers (i := i) (w := w) ho with hj | ⟨e, hc, hj⟩ <;> rw [hj]
    · exact id
    · exact givenUp_of_concerns hc hk.symm
  · intro r hr
    exact ⟨r, row_of_delivers ho hk hr, rfl, rfl⟩

/-- The turn of job `k` leaves the other jobs alone. -/
theorem Tick.delivers (h : Tick S B {k} xs w) (ho : o.delivers k) :
    Tick S B {k} xs (exec o i w).2 where
  phase := by rw [exec_phase]; exact h.phase
  since := journal_append ho h.since
  consistent j hj := (h.consistent j hj).delivers ho (by simpa using hj)
  nodup := h.nodup
  now := h.now
  snapshot x hx := by
    obtain ⟨hrep, r, hr, hrow⟩ := h.snapshot x hx
    refine ⟨hrep, r, row_of_delivers ho ?_ hr, hrow⟩
    rintro rfl
    exact h.now x.id rfl (List.mem_map_of_mem hx)
  resolved j hj hX := (h.resolved j hj hX).imp_right fun hr => hr.delivers ho (by simpa using hX)

/-- The turn of the first job begins. -/
theorem Tick.begin {x : Job} (h : Tick S B ∅ (x :: xs) w) : Tick S B {x.id} xs w where
  phase := h.phase
  since := h.since
  consistent j _ := h.consistent j (by simp)
  nodup := (List.nodup_cons.mp h.nodup).2
  now := by
    rintro j rfl
    exact (List.nodup_cons.mp h.nodup).1
  snapshot y hy := h.snapshot y (by simp [hy])
  resolved j hj hX := by
    apply (h.resolved j hj (by simp)).imp_left
    intro hmem
    exact (List.mem_cons.mp hmem).resolve_left (by simpa using hX)

/-- The turn of job `k` ends. -/
theorem Tick.finish (h : Tick S B {k} xs w) (hc : w.Consistent k) (hr : Resolved B w k) :
    Tick S B ∅ xs w where
  phase := h.phase
  since := h.since
  consistent j _ := by
    by_cases hj : j = k
    · rw [hj]
      exact hc
    · exact h.consistent j (by simpa using hj)
  nodup := h.nodup
  now := by simp
  snapshot := h.snapshot
  resolved j hj _ := by
    by_cases hk : j = k
    · right
      rw [hk]
      exact hr
    · exact h.resolved j hj (by simpa using hk)

theorem careful_of_tick (h : Tick S B X xs s)
    (hb : ∀ j chat text, o ≠ .postBegin j chat text) (he : ∀ j, o ≠ .postEnd j)
    (hl : o ≠ .listUndeliveredTerminalJobs) (t : World) : Careful o s t where
  post j ho := by
    rcases ho with ⟨chat, text, ho⟩ | ho
    · exact absurd ho (hb j chat text)
    · exact absurd ho (he j)
  list ho := absurd ho hl
  rest hp := absurd h.phase hp

/-- Job `k` has its turn and its POST may begin or is on its way. -/
structure Posting (S : Set ℕ) (B : List Entry) (k : ℕ) (xs : List Job) (w : World) : Prop where
  tick : Tick S B {k} xs w
  row : w.Unreported k (some .fallback)
  told : ¬ Told k w.journal
  givenUp : ¬ GivenUp k w.journal

/-- Job `k` has its turn and `res` is the outcome of its notification. -/
structure Posted (S : Set ℕ) (B : List Entry) (k : ℕ) (xs : List Job) (res : NotifyResult)
    (w : World) : Prop where
  tick : Tick S B {k} xs w
  row : w.Unreported k (some .fallback)
  told : res.success = false → ¬ Told k w.journal
  givenUp : ¬ GivenUp k w.journal
  failed : res.success = false → res.permanent = false →
    ∃ new, w.journal = new ++ B ∧ .postEnd k res ∈ new

theorem stable_posting (S : Set ℕ) (B : List Entry) (k : ℕ) (xs : List Job) :
    outcomeContract.Stable (Posting S B k xs) := by
  intro s t hst hs
  refine ⟨stable_tick _ _ _ _ s t hst hs.tick, hst.2.2.unreported hs.row, ?_, ?_⟩
  · rw [hst.2.1]
    exact hs.told
  · rw [hst.2.1]
    exact hs.givenUp

theorem stable_posted (S : Set ℕ) (B : List Entry) (k : ℕ) (xs : List Job) (res : NotifyResult) :
    outcomeContract.Stable (Posted S B k xs res) := by
  intro s t hst hs
  refine ⟨stable_tick _ _ _ _ s t hst hs.tick, hst.2.2.unreported hs.row, ?_, ?_, ?_⟩
  · rw [hst.2.1]
    exact hs.told
  · rw [hst.2.1]
    exact hs.givenUp
  · rw [hst.2.1]
    exact hs.failed

/-- The POST may begin and end. -/
theorem Posting.careful (h : Posting S B k xs s)
    (ho : (∃ chat text, o = .postBegin k chat text) ∨ o = .postEnd k) (t : World) :
    Careful o s t where
  post j hj := by
    obtain rfl : k = j := by
      rcases ho with ⟨_, _, rfl⟩ | rfl <;> rcases hj with ⟨_, _, hj⟩ | hj <;> cases hj <;> rfl
    exact ⟨h.told, h.givenUp, h.row⟩
  list hl := by
    subst hl
    rcases ho with ⟨_, _, ho⟩ | ho <;> cases ho
  rest hp := absurd h.tick.phase hp

theorem Posting.postBegin (h : Posting S B k xs s) (chat text : String) :
    Posting S B k xs (exec (.postBegin k chat text) i s).2 where
  tick := h.tick.delivers (.inr (.inl rfl))
  row := h.row
  told ht := by
    obtain ⟨-, ⟨_, he⟩ | ⟨_, -, he⟩ | ht⟩ := told_cons ht
    · cases he
    · cases he
    · exact h.told ht
  givenUp hg := by
    obtain ⟨-, he | hg⟩ := givenUp_cons hg
    · cases he
    · exact h.givenUp hg

theorem Posting.postEnd (h : Posting S B k xs s) :
    Posted S B k xs (NotifyResult.ofHttp i.http) (exec (.postEnd k) i s).2 where
  tick := h.tick.delivers (.inr (.inl rfl))
  row := h.row
  told hres ht := by
    obtain ⟨-, ⟨_, he⟩ | ⟨res, hs, he⟩ | ht⟩ := told_cons ht
    · cases he
    · cases he
      rw [hres] at hs
      cases hs
    · exact h.told ht
  givenUp hg := by
    obtain ⟨-, he | hg⟩ := givenUp_cons hg
    · cases he
    · exact h.givenUp hg
  failed _ _ := by
    obtain ⟨new, hnew⟩ := h.tick.since
    refine ⟨.postEnd k (NotifyResult.ofHttp i.http) :: new, ?_, List.mem_cons_self⟩
    simp [exec, hnew]

/-- `set_undeliverable` ends the turn of a job that the user was not told about. -/
theorem Tick.giveUp (h : Tick S B {k} xs s) (hrow : s.Unreported k (some .fallback))
    (htold : ¬ Told k s.journal) : Tick S B ∅ xs (exec (.setUndeliverable k) i s).2 := by
  obtain ⟨r, hr, -, -⟩ := hrow
  have hr' : (exec (.setUndeliverable k) i s).2.db.getJob k =
      some { r with wakeState := some .undeliverable } := Db.getJob_updateJob_self hr
  refine (h.delivers (o := .setUndeliverable k) (.inr (.inl rfl))).finish
    ⟨fun ht => ?_, fun _ => ⟨_, hr', rfl⟩⟩ ⟨_, hr', .inr (.inl rfl)⟩
  obtain ⟨-, ⟨_, he⟩ | ⟨_, -, he⟩ | ht⟩ := told_cons ht
  · cases he
  · cases he
  · exact absurd ht htold

/-- `mark_reported` after a successful POST ends the turn. -/
theorem Tick.report (h : Tick S B {k} xs s) (hrow : s.Unreported k (some .fallback))
    (hgiven : ¬ GivenUp k s.journal) :
    Tick S B ∅ xs (exec (.markReported .supervisor k) i s).2 := by
  obtain ⟨r, hr, hrep, -⟩ := hrow
  have hwin : (s.db.markReported k i.now).1 = true := by simp [Db.markReported, hr, hrep]
  have hj : (exec (.markReported .supervisor k) i s).2.journal =
      .reported .supervisor k :: s.journal := by simp [exec, World.logIf, hwin]
  have hdone := (reported_of_mark .supervisor hwin).1
  refine (h.delivers (o := .markReported .supervisor k) (.inr (.inl ⟨rfl, rfl⟩))).finish
    ⟨fun _ => hdone, fun hg => ?_⟩ ?_
  · rw [hj] at hg
    obtain ⟨-, he | hg⟩ := givenUp_cons hg
    · cases he
    · exact absurd hg hgiven
  · obtain ⟨r', hr', hsome⟩ := hdone
    exact ⟨r', hr', .inl hsome⟩

/-- A temporary failure ends the turn too. -/
theorem Posted.retryLater {res : NotifyResult} (h : Posted S B k xs res s)
    (hs : res.success = false) (hp : res.permanent = false) : Tick S B ∅ xs s := by
  obtain ⟨r, hr, -, hw⟩ := h.row
  obtain ⟨new, hnew, hmem⟩ := h.failed hs hp
  exact h.tick.finish ⟨fun ht => absurd ht (h.told hs), fun hg => absurd hg h.givenUp⟩
    ⟨r, hr, .inr (.inr ⟨hw, new, res, hnew, hmem, hs, hp⟩)⟩

/-- The notification. -/
theorem outcome_notify (cfg : Settings) (job : Job) :
    Triple exec outcomeContract (Posting S B job.id xs)
      (Supervisor.attemptFallbackNotify cfg job) (fun _ => Tick S B ∅ xs)
      fun _ => Tick S B ∅ xs := by
  have hend := stable_tick S B ∅ xs
  have hposting := stable_posting S B job.id xs
  have hposted := fun res => stable_posted S B job.id xs res
  unfold Supervisor.attemptFallbackNotify
  split
  · apply Triple.op hposting (fun _ => hend)
    intro s i h _
    constructor
    · exact careful_of_tick h.tick (by simp) (by simp) (by simp) _
    · exact h.tick.giveUp h.row h.told
  · next chat _ =>
    refine Triple.bind (M := Posted S B job.id xs) ?_ fun result => ?_
    · refine Triple.bind (M := fun _ => Posting S B job.id xs) ?_ fun tok => ?_
      · apply Triple.op hposting (fun _ => hposting)
        intro s i h _
        exact ⟨careful_of_tick h.tick (by simp) (by simp) (by simp) _, h⟩
      split
      · -- Without a token the failure is permanent.
        apply Triple.ret hposting
        intro s h
        refine ⟨h.tick, h.row, fun _ => h.told, h.givenUp, ?_⟩
        intro _ hp
        cases hp
      · refine Triple.bind (M := fun _ => Posting S B job.id xs) ?_ fun _ => ?_
        · apply Triple.op hposting (fun _ => hposting)
          intro s i h _
          exact ⟨h.careful (.inl ⟨_, _, rfl⟩) _, h.postBegin chat _⟩
        · apply Triple.op hposting hposted
          intro s i h _
          exact ⟨h.careful (.inr rfl) _, h.postEnd⟩
    · split_ifs with hs hp
      · refine Triple.bind (M := fun _ => Tick S B ∅ xs) ?_ fun _ => Triple.skip hend _
        apply Triple.op (hposted _) (fun _ => hend)
        intro s i h _
        constructor
        · exact careful_of_tick h.tick (by simp) (by simp) (by simp) _
        · exact h.tick.report h.row h.givenUp
      · apply Triple.op (hposted _) (fun _ => hend)
        intro s i h _
        constructor
        · exact careful_of_tick h.tick (by simp) (by simp) (by simp) _
        · exact h.tick.giveUp h.row (h.told (by simpa using hs))
      · apply Triple.ret (hposted _)
        intro s h
        exact h.retryLater (by simpa using hs) (by simpa using hp)

/-- The claim of a job that is in neither `fallback` nor `undeliverable` wins. -/
theorem Tick.claim {x : Job} (h : Tick S B ∅ (x :: xs) s)
    (hund : x.wakeState ≠ some .undeliverable) (hfb : x.wakeState ≠ some .fallback) :
    (s.db.claimForFallback x.id).1 = true ∧
      Posting S B x.id xs (exec (.claimForFallback x.id) i s).2 := by
  have hrow := (h.snapshot x (by simp)).2
  obtain ⟨htold, hgiven⟩ := (h.consistent x.id (by simp)).of_fallback hund hrow
  obtain ⟨r, hr, hrep, hw⟩ := hrow
  have hp : r.reportedAt = none ∧ r.wakeState ≠ some .fallback := ⟨hrep, by rw [hw]; exact hfb⟩
  have hwin : (s.db.claimForFallback x.id).1 = true := by simp [Db.claimForFallback, hr, hp]
  have hj : (exec (.claimForFallback x.id) i s).2.journal = .claimed x.id :: s.journal := by
    simp [exec, World.logIf, hwin]
  have hr' : (exec (.claimForFallback x.id) i s).2.db.getJob x.id =
      some { r with wakeState := some .fallback } := by
    simp only [exec, World.logIf_db, World.setDb_db, Db.claimForFallback, hr, if_pos hp]
    exact Db.getJob_updateJob_self hr
  refine ⟨hwin, h.begin.delivers (.inr (.inr rfl)), ⟨_, hr', hrep, rfl⟩, ?_, ?_⟩
  · intro ht
    rw [hj] at ht
    obtain ⟨-, ⟨_, he⟩ | ⟨_, -, he⟩ | ht⟩ := told_cons ht
    · cases he
    · cases he
    · exact htold ht
  · intro hg
    rw [hj] at hg
    obtain ⟨-, he | hg⟩ := givenUp_cons hg
    · cases he
    · exact hgiven hg

theorem keeps_of_read {I : World → Prop} (hI : ∀ w, I w → ∃ X xs, Tick S B X xs w)
    (h : o.isRead = true) : outcomeContract.Keeps exec I o := by
  intro s i hs _
  obtain ⟨X, xs, ht⟩ := hI s hs
  rw [exec_isRead h]
  refine ⟨careful_of_tick ht ?_ ?_ ?_ _, hs⟩
  · rintro j chat text rfl
    cases h
  · rintro j rfl
    cases h
  · rintro rfl
    cases h

/-- The turn of one job. -/
theorem outcome_drive {cfg : Settings} (hcfg : cfg.autoWake = false) (x : Job) (xs : List Job) :
    Triple exec outcomeContract (Tick S B ∅ (x :: xs)) (Supervisor.driveDelivery cfg x)
      (fun _ => Tick S B ∅ xs) fun _ => Tick S B ∅ xs := by
  refine Supervisor.triple_driveDelivery (stable_tick _ _ _ _) (stable_tick _ _ _ _)
    (fun hskip s hs => ?_) (keeps_of_read (fun w hw => ⟨_, _, hw⟩) rfl)
    (fun hauto => absurd hauto (by simp [hcfg])) (fun _ hfb => ?_) fun _ hund hfb => ?_
  · obtain ⟨hrep, r, hr, -, hw⟩ := hs.snapshot x (by simp)
    rcases hskip with hsome | hund | ⟨hauto, -⟩
    · simp [hrep] at hsome
    · exact hs.begin.finish (hs.consistent x.id (by simp)) ⟨r, hr, .inr (.inl (hw.trans hund))⟩
    · simp [hcfg] at hauto
  · refine (outcome_notify cfg x).pre fun s hs => ?_
    have hrow := (hs.snapshot x (by simp)).2
    rw [hfb] at hrow
    obtain ⟨htold, hgiven⟩ := (hs.consistent x.id (by simp)).of_fallback (by simp) hrow
    exact ⟨hs.begin, hrow, htold, hgiven⟩
  · refine Supervisor.triple_claimAndFallback (stable_tick _ _ _ _) (stable_tick _ _ _ _)
      (stable_posting S B x.id xs) (fun s i hs _ => ⟨?_, ?_⟩)
      (keeps_of_read (fun w hw => ⟨_, _, hw.tick⟩) rfl) fun job' hid => ?_
    · exact careful_of_tick hs (by simp) (by simp) (by simp) _
    · obtain ⟨hwin, hposting⟩ := hs.claim (i := i) hund hfb
      rw [if_pos hwin]
      exact hposting
    · rw [← hid]
      exact outcome_notify cfg job'

/-- The listing: every delivery-terminal job is listed or reported. -/
theorem Tick.listed (hp : s.phase = .supervisor) (hc : ∀ j, s.Consistent j) :
    Tick {j | ∃ r, s.db.getJob j = some r ∧ r.state.deliveryTerminal = true}
      (exec .listUndeliveredTerminalJobs i s).2.journal ∅ s.db.listUndeliveredTerminalJobs
      (exec .listUndeliveredTerminalJobs i s).2 where
  phase := hp
  since := ⟨[], rfl⟩
  consistent j _ := by
    constructor
    · intro ht
      obtain ⟨-, ⟨_, he⟩ | ⟨_, -, he⟩ | ht⟩ := told_cons ht
      · cases he
      · cases he
      · exact (hc j).told ht
    · intro hg
      obtain ⟨-, he | hg⟩ := givenUp_cons hg
      · cases he
      · exact (hc j).givenUp hg
  nodup := nodup_undelivered s.db
  now := by simp
  snapshot x hx := by
    obtain ⟨hr, -, hrep⟩ := mem_undelivered hx
    exact ⟨hrep, x, hr, hrep, rfl⟩
  resolved j hj _ := by
    obtain ⟨r, hr, hst⟩ := hj
    cases hrep : r.reportedAt with
    | some t => exact .inr ⟨r, hr, .inl (by simp [hrep])⟩
    | none =>
      have hlisted : r ∈ s.db.listUndeliveredTerminalJobs := by
        apply Sql.mem_orderBy.mpr
        apply List.mem_filter.mpr
        exact ⟨Sql.Table.mem_of_get? hr, by simp [hst, hrep]⟩
      exact .inl (List.mem_map.mpr ⟨r, hlisted, Db.getJob_id hr⟩)

end Tick

/-- A tick of the Supervisor. -/
theorem outcome_tick {cfg : Settings} (hcfg : cfg.autoWake = false) :
    Triple exec outcomeContract (fun w => w.phase = .supervisor ∧ ∀ j, w.Consistent j)
      (Supervisor.tick cfg) (fun _ w => ∀ j, w.Consistent j) fun _ _ => True := by
  refine (Supervisor.triple_tick (J := fun jobs w => ∃ S B, Tick S B ∅ jobs w)
    (fun jobs => ?_) (fun job jobs => ?_) ?_ fun s i hs _ => ?_).post (fun _ w hw j => ?_)
    fun _ _ h => h
  · rintro s t hst ⟨S, B, hs⟩
    exact ⟨S, B, stable_tick S B ∅ jobs s t hst hs⟩
  · rintro s ⟨S, B, hs⟩
    have hdrive := outcome_drive (S := S) (B := B) hcfg job jobs
    exact hdrive.post (fun _ _ h => ⟨S, B, h⟩) (fun _ _ h => ⟨S, B, h⟩) s hs
  · rintro s t ⟨hphase, hjournal, hmarks⟩ hs
    exact ⟨hphase.trans hs.1, fun j => (hs.2 j).of_marks hjournal hmarks⟩
  · refine ⟨⟨?_, fun _ => hs.2, fun hp => absurd hs.1 hp⟩, _, _, Tick.listed hs.1 hs.2⟩
    rintro j (⟨_, _, ho⟩ | ho) <;> cases ho
  · obtain ⟨S, B, hw⟩ := hw
    exact hw.consistent j (by simp)

namespace Sys

variable {cfg : Settings} {c c₁ c' : Sys} {e : Event}

/-- Nobody calls `report-done`, and the daemon is not killed during a tick of
    the Supervisor. -/
def defaultMode (c : Sys) : Event → Bool
  | .run t _ =>
    match c.next? t with
    | some (.markReported .reportDone _) => false
    | _ => true
  | .restart _ => c.shared.phase != .supervisor
  | _ => true

/-- The same, up to the end of the current phase. -/
def sameTick (c : Sys) : Event → Bool
  | .next | .restart _ => false
  | e => c.defaultMode e

theorem rely_of_other (hc : c.Footprint) {t : Tid} (ht : t ≠ .daemon)
    (hok : c.defaultMode (.run t i) = true) (hn : c.next? t = some o) :
    outcomeContract.rely c.shared (exec o i c.shared).2 := by
  have hp := hc.next? hn
  have hne : ∀ j, o ≠ .markReported .reportDone j := by
    rintro j rfl
    simp [defaultMode, hn] at hok
  refine ⟨exec_phase _ _ _, (journal_of_other ht hp).resolve_right ?_, ?_⟩
  · rintro ⟨l, ho, -⟩
    exact hne l ho
  · intro j r hr
    obtain ⟨r', hr', hs⟩ := exec_job o i hr
    exact ⟨r', hr', marks_of_other ht hp hne hs⟩

/-- The contract along the runs in the default mode. -/
def outcomeProof (cfg : Settings) (hcfg : cfg.autoWake = false) :
    DaemonProof cfg (fun c e => c.defaultMode e = true) where
  K := outcomeContract
  inv w := w.PostedOnce ∧ (w.phase ≠ .supervisor → ∀ j, w.Consistent j)
  post _ w := ∀ j, w.Consistent j
  other {c t i o} hc hi ht hok hn := by
    have hr := rely_of_other (i := i) hc ht hok hn
    refine ⟨⟨?_, ?_⟩, hr⟩
    · rw [World.PostedOnce, hr.2.1]
      exact hi.1
    · intro hp j
      rw [exec_phase] at hp
      exact (hi.2 hp j).of_marks hr.2.1 hr.2.2
  assume _ _ _ _ := trivial
  own {o i w} hi _ hg := by
    refine ⟨hi.1.exec hg, ?_⟩
    intro hp
    rw [exec_phase] at hp
    exact hg.rest hp (hi.2 hp)
  enter {c p} _ hi hc := by
    have hc' : ∀ j, (c.shared.enter p).Consistent j := by
      intro j
      exact (hc j).of_marks rfl (World.keepsMarks_of_same rfl)
    refine ⟨⟨hi.1, fun _ => hc'⟩, ?_⟩
    by_cases hp : p = .supervisor
    · subst hp
      have hstable : outcomeContract.Stable fun w => ∀ j, w.Consistent j := by
        intro s t hst hs j
        exact (hs j).of_marks hst.2.1 hst.2.2
      exact ((outcome_tick hcfg).bind fun _ => Triple.ret hstable fun _ h => h) _ ⟨rfl, hc'⟩
    · have hstable : outcomeContract.Stable fun w => w.phase = p ∧ ∀ j, w.Consistent j := by
        intro s t hst hs
        exact ⟨hst.1.trans hs.1, fun j => (hs.2 j).of_marks hst.2.1 hst.2.2⟩
      refine (Triple.of_emits hstable ((emits_phaseProg cfg p).mono fun o ho => ?_)).post
        (fun _ _ h => h.2) (fun _ _ _ => trivial) _ ⟨rfl, hc'⟩
      intro s i hs _
      have hend : ∀ j, (exec o i s).2.Consistent j := by
        intro j
        exact consistent_of_phase hp ho (hs.2 j)
      refine ⟨⟨?_, fun _ => hs.2, fun _ _ => hend⟩, ?_, hend⟩
      · rintro j (⟨_, _, rfl⟩ | rfl)
        · exact absurd (ho.home rfl) hp
        · exact absurd (ho.home rfl) hp
      · rw [exec_phase]
        exact hs.1
  reap hi := ⟨⟨hi.1, fun hp j => (hi.2 hp j).of_marks rfl (World.keepsMarks_of_same rfl)⟩, rfl, rfl,
    World.keepsMarks_of_same rfl⟩
  reboot {c environ} _ hi hok := by
    have hp : c.shared.phase ≠ .supervisor := by simpa [defaultMode] using hok
    have hc : ∀ j, (c.shared.reboot environ).Consistent j := by
      intro j
      exact (hi.2 hp j).of_marks rfl (World.keepsMarks_of_same rfl)
    refine ⟨⟨hi.1, fun _ => hc⟩, ?_⟩
    intro w hw j
    exact (hc j).of_marks hw.2.1 hw.2.2

/-- The contract along one tick, from its listing on. -/
def tickProof (cfg : Settings) (S : Set ℕ) (B : List Entry) :
    DaemonProof cfg (fun c e => c.sameTick e = true) where
  K := outcomeContract
  inv _ := True
  post _ w := ∀ j ∈ S, Resolved B w j
  other hc _ ht hok hn := ⟨trivial, rely_of_other hc ht hok hn⟩
  assume _ _ _ _ := trivial
  own _ _ _ := trivial
  enter hok := by simp [sameTick] at hok
  reap _ := ⟨trivial, rfl, rfl, World.keepsMarks_of_same rfl⟩
  reboot _ _ hok := by simp [sameTick] at hok

theorem noRaise_sameTick (hc : (c.prog .daemon).NoRaise)
    (h : Runs cfg (fun c e => c.sameTick e = true) c c') : (c'.prog .daemon).NoRaise := by
  refine h.invariant (I := fun c => (c.prog .daemon).NoRaise) (fun c e c' hc hok he => ?_) hc
  cases e with
  | run t i => exact Pool.noRaise_step he hc
  | next => simp [sameTick] at hok
  | exit a code result rl =>
    obtain ⟨w, -, -, rfl⟩ := step_exit he
    exact hc
  | invoke n cmd =>
    cases he
    exact hc
  | restart environ => simp [sameTick] at hok

/-- After the listing every delivery-terminal job will have its outcome. -/
theorem good_listed (hcfg : cfg.autoWake = false) (hf : c.Footprint)
    (hc : ∀ j, c.shared.Consistent j) (hp : c.prog .daemon = Daemon.phaseProg cfg .supervisor)
    (h : step cfg c (.run .daemon i) = some c₁) :
    (tickProof cfg {j | ∃ r, c.shared.db.getJob j = some r ∧ r.state.deliveryTerminal = true}
      c₁.shared.journal).Good c₁ := by
  refine ⟨hf.step h, trivial, ?_⟩
  have hphase : c.shared.phase = .supervisor := by
    have hlist := hf.next? (t := .daemon) (o := .listUndeliveredTerminalJobs)
      (by rw [Pool.next?, hp]; rfl)
    exact (home_of_performs hlist rfl).2
  obtain ⟨o, k, hcall, -, hs, hk, -⟩ := Pool.step_cases h
  rw [hp] at hcall
  cases hcall
  rw [hk, hs]
  refine ((Supervisor.triple_jobs (stable_tick _ _ _) (outcome_drive hcfg) _).bind fun _ => ?_) _
    (Tick.listed hphase hc)
  apply Triple.ret (stable_tick _ _ _ _)
  intro w hw j hj
  exact (hw.resolved j hj (by simp)).resolve_left (by simp)

/-- In the default mode every tick of the Supervisor ends with an outcome for
    each job that was delivery-terminal when it began, and the POSTs of an
    episode stop once the user was told or the job was given up. -/
theorem delivered_once (hcfg : cfg.autoWake = false) {db : Db} {environ : Environ}
    (h : Runs cfg (fun c e => c.defaultMode e = true) (boot db environ) c) :
    (∀ i c₁ c', c.prog .daemon = Daemon.phaseProg cfg .supervisor →
      step cfg c (.run .daemon i) = some c₁ →
      Runs cfg (fun c e => c.sameTick e = true) c₁ c' →
      (∀ e, c'.prog .daemon ≠ .raise e) ∧
        (c'.prog .daemon = .ret .idle → ∀ j r, c.shared.db.getJob j = some r →
          r.state.deliveryTerminal = true → Resolved c₁.shared.journal c'.shared j)) ∧
    (∀ j newer e older, c.shared.journal = newer ++ e :: older →
      (e = .postBegin j ∨ ∃ res, e = .postEnd j res) → ¬ Told j older ∧ ¬ GivenUp j older) ∧
    ∀ j chat text, c.next? .daemon = some (.postBegin j chat text) →
      c.shared.Unreported j (some .fallback) := by
  have hboot : (boot db environ).shared.PostedOnce ∧
      ((boot db environ).shared.phase ≠ .supervisor → ∀ j, (boot db environ).shared.Consistent j) :=
    ⟨fun _ newer _ _ hj => (by cases newer <;> cases hj), fun _ _ => World.consistent_of_nil rfl⟩
  have hgood := (outcomeProof cfg hcfg).sound (DaemonProof.good_boot hboot
    fun w hw j => World.consistent_of_nil hw.2.1) h
  refine ⟨?_, hgood.inv.1, ?_⟩
  · intro i c₁ c' hp hstep hrun
    have hlist : c.next? .daemon = some .listUndeliveredTerminalJobs := by
      rw [Pool.next?, hp]
      rfl
    have hok : c.defaultMode (.run .daemon i) = true := by simp [defaultMode, hlist]
    have hc := (hgood.guarantee hok hlist).list rfl
    have hend := (tickProof cfg _ _).sound (good_listed hcfg hgood.footprint hc hp hstep) hrun
    have hno : (c'.prog .daemon).NoRaise :=
      noRaise_sameTick (Pool.noRaise_step hstep (by
        rw [hp]
        exact Daemon.noRaise_phaseProg cfg (by decide))) hrun
    constructor
    · intro e he
      rw [he] at hno
      exact hno
    · intro he j r hr hst
      have hwp := hend.wp
      rw [he] at hwp
      exact hwp c'.shared (outcomeContract.refl _) j ⟨r, hr, hst⟩
  · intro j chat text hn
    have hok : c.defaultMode (.run .daemon {}) = true := by simp [defaultMode, hn]
    exact ((hgood.guarantee hok hn).post j (.inl ⟨chat, text, rfl⟩)).2.2

/-- A tick with one undelivered job, whose POST is not answered. -/
theorem delivered_once_killed : ∃ c c₁ c' : Sys,
    step Settings.plain c (.run .daemon noAnswer) = some c₁ ∧ c'.prog .daemon = .ret .idle ∧
      Resolved c₁.shared.journal c'.shared 1 := by
  obtain ⟨c₀, hrun, hp⟩ := exists_run defaultMode killJob
    (fun c₀ => c₀.returned .supervisor && (step Settings.plain c₀ .next).any fun c =>
      (c.shared.db.getJob 1).any (·.state.deliveryTerminal) &&
        (step Settings.plain c (.run .daemon noAnswer)).any fun c₁ =>
          (runList (step Settings.plain) sameTick c₁ (daemonSteps 6 noAnswer)).any
            fun c' => c'.returned .idle) (by decide +kernel)
  obtain ⟨hret, hp⟩ := Bool.and_eq_true_iff.mp hp
  obtain ⟨c, hnext, hp⟩ := (Option.any_eq_true _ _).mp hp
  obtain ⟨hjob, hp⟩ := Bool.and_eq_true_iff.mp hp
  obtain ⟨r, hr, hst⟩ := (Option.any_eq_true _ _).mp hjob
  obtain ⟨c₁, hlist, hp⟩ := (Option.any_eq_true _ _).mp hp
  obtain ⟨c', hrun', hidle⟩ := Run.exists_of_runList hp
  have hprog : c.prog .daemon = Daemon.phaseProg Settings.plain .supervisor := by
    obtain ⟨p, hret', -, rfl⟩ := step_next hnext
    obtain rfl := Prog.ret.inj ((prog_of_returned hret).symm.trans hret')
    exact Pool.load_prog_self _ _ _
  have hend := prog_of_returned hidle
  have htick := (delivered_once rfl (hrun.tail rfl hnext)).1 noAnswer c₁ c' hprog hlist hrun'
  exact ⟨c, c₁, c', hlist, hend, htick.2 hend 1 r hr hst⟩

end Sys

end DiscordAgent
