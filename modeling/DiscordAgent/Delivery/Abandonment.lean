import DiscordAgent.Delivery.Reposts
import DiscordAgent.Interleave.Monitor

/-!
# Abandoned deliveries

`set_undeliverable` ends the delivery of a job. The Supervisor calls it for a
job without a chat id, without a token, and after an answer that
`notify_discord_result` takes for permanent: every status but 200, 201, 429, 500,
502, 503 and 504.

Results:
* `HttpOutcome.expected_iff`: which answers are classified by their meaning.
* `Sys.abandoned`: along every run with such answers only, a job becomes
  `undeliverable` for a permanent cause only, and after every other failure it
  stays claimed and is posted again in the next tick.
* `Sys.abandoned_unlisted`: a POST that is answered with 501.
-/

namespace DiscordAgent

open Interleave

/-! ## Answers -/

namespace HttpOutcome

/-- Discord has taken the message. -/
def delivered : HttpOutcome → Bool
  | .response status => status == 200 || status == 201
  | _ => false

/-- Discord has answered with a 4xx status other than 429. -/
def rejected : HttpOutcome → Bool
  | .response status | .httpError status _ => 400 ≤ status && status < 500 && status != 429
  | .exception _ => false

/-- Neither. -/
def temporary (h : HttpOutcome) : Bool := !h.delivered && !h.rejected

/-- No status outside 200, 201, 4xx, 500, 502, 503 and 504. -/
def expected : HttpOutcome → Bool
  | .response status => status == 200 || status == 201 || (HttpOutcome.response status).rejected
  | .httpError code reason =>
    code ∈ [429, 500, 502, 503, 504] || (HttpOutcome.httpError code reason).rejected
  | .exception _ => true

theorem success_ofHttp (h : HttpOutcome) : (NotifyResult.ofHttp h).success = h.delivered := by
  cases h with
  | response status =>
    simp only [NotifyResult.ofHttp]
    split_ifs with hs
    · simpa [delivered] using hs
    · simpa [delivered] using hs
  | httpError code reason =>
    simp only [NotifyResult.ofHttp]
    split_ifs <;> rfl
  | exception message => rfl

/-- The expected answers are those that are a permanent failure exactly if
    Discord has rejected the message. -/
theorem expected_iff (h : HttpOutcome) :
    h.expected = true ↔ (NotifyResult.ofHttp h).permanent = h.rejected := by
  cases h with
  | response status =>
    simp only [NotifyResult.ofHttp]
    split_ifs with hs
    · rcases hs with rfl | rfl <;> decide
    · have hs' : (status == 200 || status == 201) = false := by simpa using hs
      simp only [expected, hs', Bool.false_or]
      exact eq_comm
  | httpError code reason =>
    simp only [NotifyResult.ofHttp]
    split_ifs with hc
    · have hrej : (httpError code reason).rejected = false := by
        simp only [List.mem_cons, List.not_mem_nil, or_false] at hc
        rcases hc with rfl | rfl | rfl | rfl | rfl <;> rfl
      simp [expected, hc, hrej]
    · simp only [expected, hc, decide_false, Bool.false_or]
      exact eq_comm
  | exception message => simp [expected, rejected, NotifyResult.ofHttp]

end HttpOutcome

/-! ## What a tick learns -/

/-- The rows that a tick has read, whether its last look for a token was in
    vain, and the last answer to a POST. -/
structure Learned where
  rows : List Job := []
  noToken : Bool := false
  answer : Option (ℕ × NotifyResult) := none

namespace Learned

/-- An operation has answered. -/
def next (m : Learned) : (o : Op) → o.Res → Learned
  | .listUndeliveredTerminalJobs, jobs => { m with rows := jobs }
  | .getJob _, job => { m with rows := job.toList ++ m.rows }
  | .loadToken, token => { m with noToken := (token.filter (· ≠ "")).isNone }
  | .postEnd jobId, result => { m with answer := some (jobId, result) }
  | _, _ => m

/-- Why job `j` may be given up. -/
def Cause (m : Learned) (j : ℕ) : Prop :=
  (∃ r ∈ m.rows, r.id = j ∧ r.notifyChatId.filter (· ≠ "") = none) ∨ m.noToken = true ∨
    ∃ result, m.answer = some (j, result) ∧ result.permanent = true

/-- Outside the loop of the tick the rows are still unread. -/
theorem mem_rows_next {m : Learned} {o : Op} {r : o.Res} {job : Job} (h : job ∈ m.rows)
    (ho : o ≠ .listUndeliveredTerminalJobs) : job ∈ (m.next o r).rows := by
  cases o with
  | listUndeliveredTerminalJobs => exact absurd rfl ho
  | getJob j => exact List.mem_append_right _ h
  | _ => exact h

end Learned

/-- Only the causes that the tick has learned make it give a job up. -/
def causeMonitor : Monitor Op Op.Res Learned where
  answers
    | .getJob jobId, job => ∀ r ∈ job, r.id = jobId
    | _, _ => True
  ok m
    | .setUndeliverable jobId => m.Cause jobId
    | _ => True
  next := Learned.next

theorem causeMonitor_answers (o : Op) (i : Inputs) (w : World) :
    causeMonitor.answers o (exec o i w).1 := by
  cases o with
  | getJob jobId => exact fun r hr => Db.getJob_id hr
  | _ => trivial

namespace Supervisor

variable {cfg : Settings} {job : Job} {jobs : List Job} {m : Learned}

/-- The rows of the jobs are read. -/
def Read (jobs : List Job) (m : Learned) : Prop := ∀ job ∈ jobs, job ∈ m.rows

/-- What an operation that only asks leaves of the rows. -/
theorem follows_asks {α : Type} {p : Py α} (hp : p.Emits fun o => o.wakes job.id)
    (hjobs : Read jobs m) :
    p.Follows causeMonitor (fun _ => Read jobs) (fun _ => Read jobs) m := by
  refine Prog.follows_of_emits hp (fun o m ho hm => ?_) hjobs
  have hlist : o ≠ .listUndeliveredTerminalJobs := by
    rintro rfl
    simp [Op.wakes, Op.isRead] at ho
  refine ⟨?_, fun r _ x hx => Learned.mem_rows_next (hm x hx) hlist⟩
  cases o with
  | setUndeliverable k => simp [Op.wakes, Op.isRead] at ho
  | _ => trivial

theorem follows_notifyDiscordResult (text chatId : String) (hjobs : Read jobs m) :
    (notifyDiscordResult job.id chatId text).Follows causeMonitor
      (fun result m' => Read jobs m' ∧ (result.permanent = true → m'.Cause job.id))
      (fun _ => Read jobs) m := by
  unfold notifyDiscordResult
  refine Prog.Follows.bind
    (R := fun token m' => Read jobs m' ∧ m'.noToken = (token.filter (· ≠ "")).isNone)
    (Prog.follows_perform trivial fun token _ => ⟨hjobs, rfl⟩) fun token m' hm' => ?_
  obtain ⟨hread, htoken⟩ := hm'
  split
  · next hnone =>
    refine ⟨hread, fun _ => .inr (.inl ?_)⟩
    rw [htoken, hnone]
    rfl
  · refine ⟨trivial, fun _ _ => ⟨trivial, fun result _ => ⟨hread, fun hperm => ?_⟩⟩⟩
    exact .inr (.inr ⟨result, rfl, hperm⟩)

theorem follows_notify (hjobs : Read (job :: jobs) m) :
    (attemptFallbackNotify cfg job).Follows causeMonitor (fun _ => Read jobs) (fun _ => Read jobs)
      m := by
  have hjob : job ∈ m.rows := hjobs job List.mem_cons_self
  have hrest : Read jobs m := fun x hx => hjobs x (List.mem_cons_of_mem job hx)
  unfold attemptFallbackNotify
  split
  · next hchat => exact ⟨.inl ⟨job, hjob, rfl, hchat⟩, fun _ _ => hrest⟩
  · next chat _ =>
    refine Prog.Follows.bind (follows_notifyDiscordResult _ chat hrest) fun result m' hm' => ?_
    obtain ⟨hread, hcause⟩ := hm'
    split_ifs with hs hp
    · exact ⟨trivial, fun _ _ => hread⟩
    · exact ⟨hcause hp, fun _ _ => hread⟩
    · exact hread

theorem follows_claim (hjobs : Read (job :: jobs) m) :
    (claimAndFallback cfg job).Follows causeMonitor (fun _ => Read jobs) (fun _ => Read jobs)
      m := by
  refine ⟨trivial, fun won _ => ?_⟩
  have hrest : Read jobs m := fun x hx => hjobs x (List.mem_cons_of_mem job hx)
  cases won with
  | false => exact hrest
  | true =>
    refine ⟨trivial, fun fresh _ => follows_notify ?_⟩
    have hrows : ∀ x ∈ m.rows, x ∈ (m.next (.getJob job.id) fresh).rows := fun x hx =>
      List.mem_append_right _ hx
    intro x hx
    rcases List.mem_cons.mp hx with rfl | hx
    · cases fresh with
      | none => exact hrows job (hjobs job List.mem_cons_self)
      | some r => exact List.mem_cons_self
    · exact hrows x (hrest x hx)

theorem follows_tryWake (hjobs : Read (job :: jobs) m) :
    (tryWake cfg job).Follows causeMonitor (fun _ => Read jobs) (fun _ => Read jobs) m := by
  have hrest : ∀ m, Read (job :: jobs) m → Read jobs m := fun m hm x hx =>
    hm x (List.mem_cons_of_mem job hx)
  have hread : ∀ o : Op, o.isRead = true → o.wakes job.id := fun _ h => .inl h
  have hasks : ∀ {α : Type} {p : Py α} {m}, p.Emits (fun o => o.wakes job.id) →
      Read (job :: jobs) m → p.Follows causeMonitor (fun _ => Read (job :: jobs))
        (fun _ => Read jobs) m := fun hp hm =>
    (follows_asks hp hm).mono (fun _ _ h => h) fun _ => hrest
  have hgive : ∀ m, Read (job :: jobs) m →
      ((claimAndFallback cfg job).bind fun _ => .ret false).Follows causeMonitor
        (fun _ => Read jobs) (fun _ => Read jobs) m := by
    intro m hm
    exact (follows_claim hm).bind fun _ _ h => h
  unfold tryWake
  split
  · exact hrest m hjobs
  · refine Prog.Follows.bind (hasks (emits_loadPane hread) hjobs) fun pane m hm => ?_
    cases pane with
    | none => exact hgive m hm
    | some pane =>
      refine Prog.Follows.bind (hasks (emits_paneExists hread pane) hm) fun found m hm => ?_
      split
      · exact hgive m hm
      · refine Prog.Follows.bind (hasks (emits_isPaneBusy hread pane) hm) fun busy m hm => ?_
        split
        · exact hrest m hm
        · refine Prog.Follows.bind (hasks (emits_read hread rfl) hm) fun repo m hm => ?_
          exact (hasks (emits_sendWake _ _ _) hm).mono (fun _ => hrest) fun _ _ h => h

theorem follows_drive (hjobs : Read (job :: jobs) m) :
    (driveDelivery cfg job).Follows causeMonitor (fun _ => Read jobs) (fun _ => Read jobs) m := by
  have hrest : Read jobs m := fun x hx => hjobs x (List.mem_cons_of_mem job hx)
  refine ⟨trivial, fun now _ => ?_⟩
  show Prog.Follows _ _ _ (if job.reportedAt.isSome then _ else _) m
  simp only []
  split_ifs
  · exact hrest
  · exact hrest
  · exact follows_notify hjobs
  · exact follows_claim hjobs
  · exact follows_claim hjobs
  · exact (follows_tryWake hjobs).bind fun _ _ h => h
  · exact hrest

/-- A tick gives a job up for a cause that it has learned. -/
theorem follows_tick (cfg : Settings) (m : Learned) :
    (tick cfg).Follows causeMonitor (fun _ _ => True) (fun _ _ => True) m := by
  refine ⟨trivial, fun jobs _ => ?_⟩
  refine (Prog.follows_forEach (J := Read) (E := fun _ _ => True) (fun job jobs m hm => ?_) jobs _
    fun job hj => hj).mono (fun _ _ _ => trivial) fun _ _ _ => trivial
  exact (follows_drive hm).tryCatch fun _ _ h => h

end Supervisor

/-! ## Runs -/

/-- The chat id of a job never changes. -/
theorem JobStep.notifyChatId {o : Op} {i : Inputs} {r r' : Job} (h : JobStep i o r r') :
    r'.notifyChatId = r.notifyChatId := by
  cases h <;> rfl

/-- Only `set_undeliverable` makes a job `undeliverable`. -/
theorem JobStep.setUndeliverable {o : Op} {i : Inputs} {r r' : Job} (h : JobStep i o r r')
    (hr : r.wakeState ≠ some .undeliverable) (hr' : r'.wakeState = some .undeliverable) :
    o = .setUndeliverable r.id := by
  cases h with
  | undeliverable => rfl
  | transition current new result =>
    simp only [Job.transition] at hr'
    split_ifs at hr'
    exact absurd hr' hr
  | claim | wake => cases hr'
  | _ => exact absurd hr' hr

namespace Sys

variable {cfg : Settings} {c c' : Sys} {e : Event} {j : ℕ}

/-- Every POST has one of the expected outcomes. -/
def expectedAnswer (c : Sys) : Event → Bool
  | .run t i =>
    match c.next? t with
    | some (.postEnd _) => i.http.expected
    | _ => true
  | _ => true

/-- What has happened in the current phase: whether the last look for a token was
    in vain, and the last answer to a POST. -/
structure Posts where
  noToken : Bool := false
  answer : Option (ℕ × HttpOutcome) := none

/-- The next event. -/
def Posts.update (c : Sys) (e : Event) (g : Posts) : Posts :=
  match e with
  | .run .daemon i =>
    match c.next? .daemon with
    | some .loadToken =>
      { g with noToken := ((loadToken c.shared.environ i.envFile).filter (· ≠ "")).isNone }
    | some (.postEnd j) => { g with answer := some (j, i.http) }
    | _ => g
  | .next | .restart _ => {}
  | _ => g

/-- What the monitor has learned is what has happened. -/
structure Learnt (m : Learned) (g : Posts) (w : World) : Prop where
  token : m.noToken = g.noToken
  answer : ∀ j result, m.answer = some (j, result) →
    ∃ h, g.answer = some (j, h) ∧ h.expected = true ∧ result = NotifyResult.ofHttp h
  rows : ∀ x ∈ m.rows, ∃ r, w.db.getJob x.id = some r ∧ r.notifyChatId = x.notifyChatId

variable {m : Learned} {g : Posts} {w : World} {o : Op} {i : Inputs} {t : Tid}

theorem Learnt.exec_rows (h : Learnt m g w) (o : Op) (i : Inputs) : ∀ x ∈ m.rows,
    ∃ r, (exec o i w).2.db.getJob x.id = some r ∧ r.notifyChatId = x.notifyChatId := by
  intro x hx
  obtain ⟨r, hr, hchat⟩ := h.rows x hx
  obtain ⟨r', hr', hs⟩ := exec_job o i hr
  exact ⟨r', hr', hs.notifyChatId.trans hchat⟩

/-- An operation of the daemon. -/
theorem Learnt.own (h : Learnt m g c.shared) (hn : c.next? .daemon = some o)
    (hok : c.expectedAnswer (.run .daemon i) = true) :
    Learnt (m.next o (exec o i c.shared).1) (Posts.update c (.run .daemon i) g)
      (exec o i c.shared).2 := by
  have hrows := h.exec_rows o i
  unfold Posts.update
  simp only [hn]
  cases o with
  | listUndeliveredTerminalJobs =>
    refine ⟨h.token, h.answer, fun x hx => ?_⟩
    exact ⟨x, (mem_undelivered hx).1, rfl⟩
  | getJob j =>
    refine ⟨h.token, h.answer, fun x hx => ?_⟩
    rcases List.mem_append.mp hx with hx | hx
    · have hget : c.shared.db.getJob j = some x := Option.mem_toList.mp hx
      exact ⟨x, by rw [Db.getJob_id hget]; exact hget, rfl⟩
    · exact hrows x hx
  | loadToken => exact ⟨rfl, h.answer, hrows⟩
  | postEnd j =>
    have hexp : i.http.expected = true := by simpa [expectedAnswer, hn] using hok
    refine ⟨h.token, ?_, hrows⟩
    rintro k result hans
    cases hans
    exact ⟨i.http, rfl, hexp, rfl⟩
  | _ => exact ⟨h.token, h.answer, hrows⟩

/-- The invariant of the history. -/
def Explained (c : Sys) (g : Posts) : Prop :=
  ∃ m, Learnt m g c.shared ∧ (c.shared.phase = .supervisor →
    (c.prog .daemon).Follows causeMonitor (fun _ _ => True) (fun _ _ => True) m)

theorem explained_new (cfg : Settings) (hp : c.shared.phase = .supervisor →
    c.prog .daemon = Daemon.phaseProg cfg .supervisor) : c.Explained {} := by
  refine ⟨{}, ⟨rfl, fun _ _ h => (by cases h), fun _ h => (by cases h)⟩, fun hsup => ?_⟩
  rw [hp hsup]
  exact (Supervisor.follows_tick cfg {}).bind fun _ _ _ => trivial

theorem Explained.step (hg : c.Explained g) (hok : c.expectedAnswer e = true)
    (h : step cfg c e = some c') : c'.Explained (Posts.update c e g) := by
  obtain ⟨m, hm, hfol⟩ := hg
  cases e with
  | run t i =>
    obtain ⟨o, k, -, hn, hs, -, hother⟩ := Pool.step_cases h
    by_cases ht : t = .daemon
    · subst ht
      refine ⟨m.next o (exec o i c.shared).1, ?_, fun hp => ?_⟩
      · rw [hs]
        exact hm.own hn hok
      · rw [hs, exec_phase] at hp
        exact (Pool.follows_step h hn (causeMonitor_answers o i c.shared) (hfol hp)).2
    · have hg' : Posts.update c (.run t i) g = g := by
        cases t with
        | daemon => exact absurd rfl ht
        | _ => rfl
      rw [hg']
      refine ⟨m, ⟨hm.token, hm.answer, ?_⟩, ?_⟩
      · rw [hs]
        exact hm.exec_rows o i
      · rw [hs, exec_phase, hother _ (Ne.symm ht)]
        exact hfol
  | next =>
    obtain ⟨p, -, -, rfl⟩ := step_next h
    refine explained_new cfg fun hp => ?_
    obtain rfl : p = .supervisor := hp
    exact Pool.load_prog_self _ _ _
  | exit a code result rl =>
    obtain ⟨w, -, -, rfl⟩ := step_exit h
    exact ⟨m, ⟨hm.token, hm.answer, hm.rows⟩, hfol⟩
  | invoke n cmd =>
    cases h
    exact ⟨m, ⟨hm.token, hm.answer, hm.rows⟩, hfol⟩
  | restart environ =>
    cases h
    exact explained_new cfg fun hp => by cases hp

/-- Why job `j` is given up. -/
theorem Explained.cause (hg : c.Explained g) (hf : c.Footprint)
    (hn : c.next? .daemon = some (.setUndeliverable j)) {r : Job}
    (hr : c.shared.db.getJob j = some r) :
    r.notifyChatId.filter (· ≠ "") = none ∨ g.noToken = true ∨
      ∃ h, g.answer = some (j, h) ∧ h.rejected = true := by
  obtain ⟨m, hm, hfol⟩ := hg
  obtain ⟨k, hprog⟩ := Pool.exists_of_next? hn
  have hfol := hfol (home_of_performs (hf.next? hn) rfl).2
  rw [hprog] at hfol
  obtain ⟨x, hx, rfl, hchat⟩ | htoken | ⟨result, hans, hperm⟩ : m.Cause j := hfol.1
  · obtain ⟨r', hr', hsame⟩ := hm.rows x hx
    rw [hr] at hr'
    cases hr'
    exact .inl (by rw [hsame]; exact hchat)
  · exact .inr (.inl (hm.token.symm.trans htoken))
  · obtain ⟨h, hg, hexp, rfl⟩ := hm.answer j result hans
    refine .inr (.inr ⟨h, hg, ?_⟩)
    rw [← h.expected_iff.mp hexp]
    exact hperm

/-- Job `j` becomes `undeliverable`. -/
def GivesUp (c c' : Sys) (j : ℕ) : Prop := ∃ r r', c.shared.db.getJob j = some r ∧
  c'.shared.db.getJob j = some r' ∧ r.wakeState ≠ some .undeliverable ∧
    r'.wakeState = some .undeliverable

theorem GivesUp.next? (hf : c.Footprint) (h : step cfg c e = some c') (hj : GivesUp c c' j) :
    c.next? .daemon = some (.setUndeliverable j) := by
  obtain ⟨r, r', hr, hr', hne, hund⟩ := hj
  obtain ⟨s, hs, hkeep⟩ := hf.job h hr
  rw [hr'] at hs
  cases hs
  rcases hkeep with rfl | ⟨t, i, o, -, hn, hp, hstep⟩
  · exact absurd hund hne
  · have ho := hstep.setUndeliverable hne hund
    rw [Db.getJob_id hr] at ho
    subst ho
    obtain ⟨rfl, -⟩ := home_of_performs hp rfl
    exact hn

/-- A temporary failure makes the job wait, unless the user has been told. -/
theorem waits_of_temporary (hexp : i.http.expected = true) (htemp : i.http.temporary = true) :
    retryOf j (exec (.postEnd j) i w).2.journal = .told ∨
      retryOf j (exec (.postEnd j) i w).2.journal = .failed := by
  have hres : (NotifyResult.ofHttp i.http).success = false ∧
      (NotifyResult.ofHttp i.http).permanent = false := by
    rw [HttpOutcome.success_ofHttp, i.http.expected_iff.mp hexp]
    simpa [HttpOutcome.temporary] using htemp
  simp only [exec, World.log_journal, retryOf, Retry.after, hres, Bool.or_self,
    Bool.false_eq_true, if_false, true_and]
  split_ifs with hr
  · exact .inr rfl
  · exact .inl (by simpa using hr)

/-- With expected answers only, a job is given up for want of a chat id or of a
    token or because Discord has rejected its message. After any other failure
    it waits: it stays claimed, and no tick ends before its next POST, unless it
    is given up for such a cause, reported or requeued. -/
theorem abandoned {db : Db} {environ : Environ}
    (h : Run (watch (step cfg) Posts.update)
      (fun s e => s.1.fresh e = true ∧ s.1.expectedAnswer e = true)
      (boot db environ, {}) (c, g)) :
    (∀ e c' j r, step cfg c e = some c' → GivesUp c c' j → c.shared.db.getJob j = some r →
      r.notifyChatId.filter (· ≠ "") = none ∨ g.noToken = true ∨
        ∃ h, g.answer = some (j, h) ∧ h.rejected = true) ∧
    (∀ i c' j, c.expectedAnswer (.run .daemon i) = true →
      step cfg c (.run .daemon i) = some c' → c.next? .daemon = some (.postEnd j) →
      i.http.temporary = true →
      retryOf j c'.shared.journal = .told ∨ retryOf j c'.shared.journal = .failed) ∧
    (∀ j, retryOf j c.shared.journal = .failed ∨ retryOf j c.shared.journal = .owed →
      ∃ r, c.shared.db.getJob j = some r ∧ r.reportedAt = none ∧
        r.wakeState = some .fallback) ∧
    ∀ p, c.prog .daemon = .ret p → c.shared.phase = .supervisor →
      ∀ j, retryOf j c.shared.journal ≠ .owed := by
  have hboot : (repostProof cfg).Good (boot db environ) := by
    refine DaemonProof.good_boot ?_ fun w hw hsup => by cases hw.1.symm.trans hsup
    intro j hj
    exact absurd hj (World.not_waits (.inr rfl))
  have hi : (repostProof cfg).Good c ∧ c.Explained g := by
    refine h.watch_invariant (I := fun c g => (repostProof cfg).Good c ∧ c.Explained g) ?_
      ⟨hboot, explained_new cfg fun hp => by cases hp⟩
    rintro c g e c' ⟨hgood, hg⟩ ⟨hfresh, hexp⟩ hs
    exact ⟨hgood.step hfresh hs, hg.step hexp hs⟩
  obtain ⟨hgood, hg⟩ := hi
  refine ⟨?_, ?_, fun j hj => (hgood.inv j hj).1, ?_⟩
  · intro e c' j r hs hj hr
    exact hg.cause hgood.footprint (hj.next? hgood.footprint hs) hr
  · intro i c' j hok hs hn htemp
    have hshared := Pool.shared_step hs hn
    rw [hshared]
    refine waits_of_temporary ?_ htemp
    simpa [expectedAnswer, hn] using hok
  · intro p hp hsup
    have hwp := hgood.wp
    rw [hp] at hwp
    exact hwp c.shared ((repostProof cfg).K.refl _) hsup

/-- The POST about job 1 is not answered. -/
theorem abandoned_noAnswer : ∃ (c : Sys) (r : Job), retryOf 1 c.shared.journal = .failed ∧
    c.shared.db.getJob 1 = some r ∧ r.reportedAt = none ∧ r.wakeState = some .fallback := by
  have hlist : (runList (watch (step Settings.plain) Posts.update)
      (fun s e => s.1.fresh e && s.1.expectedAnswer e) (boot default fun _ => none, {})
      (killedTick ++ daemonSteps 7 noAnswer)).any
        (fun s => retryOf 1 s.1.shared.journal == .failed) = true := by decide +kernel
  obtain ⟨⟨c, g⟩, hrun, hfailed⟩ := Run.exists_of_runList hlist
  have hret := eq_of_beq hfailed
  have hrun' := hrun.mono fun _ _ hok => (Bool.and_eq_true _ _).mp hok
  obtain ⟨-, -, hheld, -⟩ := abandoned hrun'
  obtain ⟨r, hr, hrep, hw⟩ := hheld 1 (.inl hret)
  exact ⟨c, r, hret, hr, hrep, hw⟩

/-- What the daemon sees when there is a token and Discord answers with 501. -/
def notImplemented : Inputs :=
  { envFile := some "DISCORD_BOT_TOKEN=t", http := .httpError 501 "Not Implemented" }

/-- Job 1 has a chat id and there is a token, and a POST that Discord answers
    with 501 makes it `undeliverable`. -/
theorem abandoned_unlisted : ¬ ∀ (cfg : Settings) (db : Db) (environ : Environ) (c : Sys)
    (g : Posts), Run (watch (step cfg) Posts.update) (fun s e => s.1.fresh e = true)
      (boot db environ, {}) (c, g) →
    ∀ e c' j r, step cfg c e = some c' → GivesUp c c' j → c.shared.db.getJob j = some r →
      r.notifyChatId.filter (· ≠ "") = none ∨ g.noToken = true ∨
        ∃ h, g.answer = some (j, h) ∧ h.rejected = true := by
  intro hall
  have hlist : (runList (watch (step Settings.plain) Posts.update) (fun s e => s.1.fresh e)
      (boot default fun _ => none, {}) (killedTick ++ daemonSteps 7 notImplemented)).any
        (fun s => s.2.noToken == false && s.2.answer == some (1, notImplemented.http) &&
          (s.1.shared.db.getJob 1).any (fun r => r.notifyChatId == some "42" &&
            r.wakeState == some .fallback) &&
          (step Settings.plain s.1 (.run .daemon {})).any fun c' =>
            (c'.shared.db.getJob 1).any fun r => r.wakeState == some .undeliverable) = true := by
    decide +kernel
  obtain ⟨⟨c, g⟩, hrun, hs⟩ := Run.exists_of_runList hlist
  simp only [Bool.and_eq_true, beq_iff_eq, Option.any_eq_true] at hs
  obtain ⟨⟨⟨htoken, hans⟩, r, hr, hchat, hw⟩, c', hstep, r', hr', hund⟩ := hs
  have hgives : GivesUp c c' 1 := ⟨r, r', hr, hr', by rw [hw]; decide, hund⟩
  rcases hall _ _ _ c g hrun _ c' 1 r hstep hgives hr with hnone | hno | ⟨h, hh, hrej⟩
  · rw [hchat] at hnone
    exact absurd hnone (by decide)
  · rw [htoken] at hno
    cases hno
  · rw [hans] at hh
    cases hh
    exact absurd hrej (by decide)

end Sys

end DiscordAgent
