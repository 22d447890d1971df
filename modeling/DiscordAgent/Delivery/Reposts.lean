import DiscordAgent.Delivery.Marks
import DiscordAgent.Delivery.Bookkeeping

/-!
# Temporary failures of a POST

A POST that fails without `permanent` leaves its job in `fallback`, and the next
tick posts it again. The journal says which jobs are waiting for that.

* `retryOf`: what the journal says about a job.
* `World.RetriesHeld`: a job that waits for its next POST is still claimed.
* `Sys.repostProof`: this holds along every run with atomic `transition_job`s, and
  no tick ends while a job of an earlier tick waits.
-/

namespace DiscordAgent

open Interleave

/-! ## What the journal says -/

/-- What has become of the POSTs of a job since it was last queued. -/
inductive Retry where
  | idle
  /-- The last POST has failed in the current tick. -/
  | failed
  /-- It has failed in an earlier tick. -/
  | owed
  | told
  deriving DecidableEq

/-- The next entry of the journal. -/
def Retry.after (j : ℕ) (r : Retry) : Entry → Retry
  | .requeued k => if k = j then idle else r
  | .reported _ k => if k = j then told else r
  | .listed _ => if r = failed then owed else r
  | .postBegin k | .undeliverable k => if k = j ∧ r ≠ told then idle else r
  | .postEnd k res =>
    if k = j ∧ r ≠ told then (if res.success || res.permanent then idle else failed) else r
  | _ => r

/-- What the journal says about job `j`. -/
def retryOf (j : ℕ) : List Entry → Retry
  | [] => .idle
  | e :: es => (retryOf j es).after j e

variable {o : Op} {i : Inputs} {w : World} {j k : ℕ} {e : Entry} {es : List Entry} {x : Job}
  {xs : List Job} {X : Set ℕ} {res : NotifyResult}

theorem retryOf_cons : retryOf j (e :: es) = (retryOf j es).after j e := rfl

theorem retry_of_concerns (hc : e.concerns k) (hk : k ≠ j) :
    retryOf j (e :: es) = retryOf j es := by
  rw [retryOf_cons]
  unfold Retry.after
  cases e with
  | claimed | typed => rfl
  | postBegin l | undeliverable l | postEnd l res =>
    obtain rfl : l = k := hc
    simp [hk]
  | reported by_ l =>
    obtain rfl : l = k := hc.2
    simp [hk]
  | _ => exact hc.elim

theorem retry_of_silent (hs : e.silent) :
    retryOf j (e :: es) = retryOf j es ∨ retryOf j (e :: es) = .idle := by
  rw [retryOf_cons]
  unfold Retry.after
  cases e with
  | requeued l =>
    simp only []
    split_ifs
    · exact .inr rfl
    · exact .inl rfl
  | recovery | recovered | stopped => exact .inl rfl
  | _ => exact hs.elim

theorem retry_postBegin :
    retryOf j (.postBegin j :: es) = .told ∨ retryOf j (.postBegin j :: es) = .idle := by
  by_cases h : retryOf j es = .told
  · exact .inl ((if_neg fun hne => hne.2 h).trans h)
  · exact .inr (if_pos ⟨rfl, h⟩)

theorem retry_undeliverable :
    retryOf j (.undeliverable j :: es) = .told ∨ retryOf j (.undeliverable j :: es) = .idle :=
  retry_postBegin

theorem retry_postBegin_told (h : retryOf j es = .told) :
    retryOf j (.postBegin j :: es) = .told := (if_neg fun hne => hne.2 h).trans h

theorem retry_postEnd_told (h : retryOf j es = .told) :
    retryOf j (.postEnd j res :: es) = .told := (if_neg fun hne => hne.2 h).trans h

theorem retry_postEnd : retryOf j (.postEnd j res :: es) ≠ .owed := by
  by_cases h : retryOf j es = .told
  · rw [retry_postEnd_told h]
    exact Retry.noConfusion
  · have hsent : retryOf j (.postEnd j res :: es) =
        if res.success || res.permanent then .idle else .failed := if_pos ⟨rfl, h⟩
    rw [hsent]
    split_ifs
    · exact Retry.noConfusion
    · exact Retry.noConfusion

namespace World

/-- Job `j` is claimed and unreported, in a delivery-terminal state. -/
def Held (w : World) (j : ℕ) : Prop := w.Unreported j (some .fallback) ∧ w.Terminal j

/-- Job `j` has a failed POST and waits for the next one. -/
def Waits (w : World) (j : ℕ) : Prop :=
  retryOf j w.journal = .failed ∨ retryOf j w.journal = .owed

/-- A job that waits for its next POST is held. -/
def RetriesHeld (w : World) : Prop := ∀ j, w.Waits j → w.Held j

theorem Waits.not_told (h : w.Waits j) : retryOf j w.journal ≠ .told := by
  intro ht
  rcases h with h | h
  · rw [ht] at h
    cases h
  · rw [ht] at h
    cases h

theorem not_waits (h : retryOf j w.journal = .told ∨ retryOf j w.journal = .idle) :
    ¬ w.Waits j := by
  intro hw
  rcases h with h | h
  · exact hw.not_told h
  · rcases hw with hw | hw
    · rw [h] at hw
      cases hw
    · rw [h] at hw
      cases hw

end World

theorem ne_owed (h : retryOf j es = .told ∨ retryOf j es = .idle) : retryOf j es ≠ .owed := by
  intro ho
  rw [ho] at h
  rcases h with h | h <;> cases h

/-! ## The contract -/

/-- The others leave delivery-terminal jobs in such a state, and write what a
    report of the user means. -/
def repostContract : Contract Op World where
  rely s t := t.phase = s.phase ∧ ∀ j, (s.Terminal j → t.Terminal j) ∧
    (retryOf j t.journal = .told ∨
      (retryOf j t.journal = retryOf j s.journal ∧
        ∀ wake, s.Unreported j wake → t.Unreported j wake))
  refl s := ⟨rfl, fun j => ⟨id, .inr ⟨rfl, fun _ h => h⟩⟩⟩
  trans {s t u} h h' := by
    refine ⟨h'.1.trans h.1, fun j => ⟨fun hj => (h'.2 j).1 ((h.2 j).1 hj), ?_⟩⟩
    rcases (h'.2 j).2 with hu | ⟨hu, hrow'⟩
    · exact .inl hu
    · rw [hu]
      rcases (h.2 j).2 with ht | ⟨ht, hrow⟩
      · exact .inl ht
      · exact .inr ⟨ht, fun wake hj => hrow' wake (hrow wake hj)⟩
  assume := Op.timely
  guar _ _ t := t.RetriesHeld

theorem World.Held.rely {s t : World} (h : s.Held j) (hst : repostContract.rely s t)
    (hj : retryOf j t.journal ≠ .told) : t.Held j :=
  ⟨((hst.2 j).2.resolve_left hj).2 _ h.1, (hst.2 j).1 h.2⟩

theorem stable_retriesHeld : repostContract.Stable World.RetriesHeld := by
  intro s t hst hs j hj
  have hret := ((hst.2 j).2.resolve_left hj.not_told).1
  refine (hs j ?_).rely hst hj.not_told
  unfold World.Waits at hj ⊢
  rw [hret] at hj
  exact hj

/-! ## A tick -/

/-- Row `x` of the listing is what the Supervisor takes it for. -/
structure Listed (x : Job) (w : World) : Prop where
  reportedAt : x.reportedAt = none
  terminal : w.Terminal x.id
  owed : retryOf x.id w.journal = .owed → x.wakeState = some .fallback
  claimed : x.wakeState = some .fallback → retryOf x.id w.journal ≠ .told →
    w.Unreported x.id (some .fallback)

/-- In the middle of a tick: the jobs `xs` have not had their turn, and every job
    of an earlier tick that waits is among them. The jobs of `X` are having
    their turn. -/
structure Owing (X : Set ℕ) (xs : List Job) (w : World) : Prop where
  phase : w.phase = .supervisor
  held : w.RetriesHeld
  nodup : (xs.map Job.id).Nodup
  now : ∀ j ∈ X, j ∉ xs.map Job.id
  listed : ∀ j, j ∉ X → retryOf j w.journal = .owed → j ∈ xs.map Job.id
  snapshot : ∀ x ∈ xs, Listed x w

theorem owed_of_rely {s t : World} (hst : repostContract.rely s t)
    (hj : retryOf j t.journal = .owed) : retryOf j s.journal = .owed := by
  rw [← hj]
  refine ((hst.2 j).2.resolve_left ?_).1.symm
  rw [hj]
  simp

theorem stable_listed (x : Job) : repostContract.Stable (Listed x) := by
  intro s t hst hs
  refine ⟨hs.reportedAt, (hst.2 x.id).1 hs.terminal, fun hj => hs.owed (owed_of_rely hst hj), ?_⟩
  intro hfb hj
  obtain ⟨hret, hrow⟩ := (hst.2 x.id).2.resolve_left hj
  rw [hret] at hj
  exact hrow _ (hs.claimed hfb hj)

theorem stable_owing (X : Set ℕ) (xs : List Job) : repostContract.Stable (Owing X xs) := by
  intro s t hst hs
  refine ⟨hst.1.trans hs.phase, stable_retriesHeld s t hst hs.held, hs.nodup, hs.now, ?_, ?_⟩
  · intro j hX hj
    exact hs.listed j hX (owed_of_rely hst hj)
  · intro x hx
    exact stable_listed x s t hst (hs.snapshot x hx)

theorem retry_delivers (ho : o.delivers k) (hk : k ≠ j) :
    retryOf j (exec o i w).2.journal = retryOf j w.journal := by
  rcases journal_of_delivers (i := i) (w := w) ho with hj | ⟨e, hc, hj⟩
  · rw [hj]
  · rw [hj, retry_of_concerns hc hk]

theorem Op.delivers.not_transition (ho : o.delivers k) (l : ℕ) (current new : JobState)
    (result : Option String) : o ≠ .updateJobState l current new result := by
  rintro rfl
  simp [Op.delivers, Op.wakes, Op.notifies, Op.isRead] at ho

theorem World.Terminal.delivers (h : w.Terminal j) (ho : o.delivers k) :
    (DiscordAgent.exec o i w).2.Terminal j :=
  h.exec (timely_of_ne ho.not_transition) fun _ _ => ho.not_transition _ _ _ _

/-- An operation of the turn of another job. -/
theorem Listed.delivers (h : Listed x w) (ho : o.delivers k) (hk : k ≠ x.id) :
    Listed x (exec o i w).2 := by
  refine ⟨h.reportedAt, h.terminal.delivers ho, ?_, ?_⟩
  · rw [retry_delivers ho hk]
    exact h.owed
  · rw [retry_delivers ho hk]
    intro hfb hj
    obtain ⟨r, hr, hrow⟩ := h.claimed hfb hj
    exact ⟨r, row_of_delivers ho hk.symm hr, hrow⟩

/-- An operation of the turn of job `k`. -/
theorem Owing.delivers (h : Owing {k} xs w) (ho : o.delivers k)
    (hk : (exec o i w).2.Waits k → (exec o i w).2.Held k) : Owing {k} xs (exec o i w).2 where
  phase := by
    rw [exec_phase]
    exact h.phase
  held := by
    intro j hj
    by_cases hjk : j = k
    · subst hjk
      exact hk hj
    · have hw : w.Waits j := by
        unfold World.Waits at hj ⊢
        rw [retry_delivers ho (Ne.symm hjk)] at hj
        exact hj
      obtain ⟨⟨r, hr, hrow⟩, hterm⟩ := h.held j hw
      exact ⟨⟨r, row_of_delivers ho hjk hr, hrow⟩, hterm.delivers ho⟩
  nodup := h.nodup
  now := h.now
  listed j hX hj := by
    rw [retry_delivers ho (Ne.symm (by simpa using hX))] at hj
    exact h.listed j hX hj
  snapshot x hx := by
    apply (h.snapshot x hx).delivers ho
    rintro rfl
    exact h.now x.id rfl (List.mem_map_of_mem hx)

/-- The turn of the first job begins. -/
theorem Owing.begin (h : Owing ∅ (x :: xs) w) : Owing {x.id} xs w where
  phase := h.phase
  held := h.held
  nodup := (List.nodup_cons.mp h.nodup).2
  now := by
    rintro j rfl
    exact (List.nodup_cons.mp h.nodup).1
  listed j hX hj := by
    have hmem := h.listed j (by simp) hj
    exact (List.mem_cons.mp hmem).resolve_left (by simpa using hX)
  snapshot y hy := h.snapshot y (List.mem_cons_of_mem x hy)

/-- The turn of job `k` ends. -/
theorem Owing.finish (h : Owing {k} xs w) (hk : retryOf k w.journal ≠ .owed) : Owing ∅ xs w where
  phase := h.phase
  held := h.held
  nodup := h.nodup
  now := by simp
  listed j _ hj := by
    refine h.listed j ?_ hj
    rintro rfl
    exact hk hj
  snapshot := h.snapshot

/-! ## The turn of a job -/

theorem exec_markReported_lost {by_ : Reporter} (h : (w.db.markReported k i.now).1 = false) :
    (exec (.markReported by_ k) i w).2 = w := by
  have hdb : (w.db.markReported k i.now).2 = w.db := by
    unfold Db.markReported at h ⊢
    split at h
    · split_ifs at h ⊢
      rfl
    · rfl
  simp [exec, World.logIf, World.setDb, h, hdb]

theorem exec_claimForFallback_lost (h : (w.db.claimForFallback k).1 = false) :
    (exec (.claimForFallback k) i w).2 = w := by
  have hdb : (w.db.claimForFallback k).2 = w.db := by
    unfold Db.claimForFallback at h ⊢
    split at h
    · split_ifs at h ⊢
      rfl
    · rfl
  simp [exec, World.logIf, World.setDb, h, hdb]

/-- A claim that wins holds the job. -/
theorem unreported_of_claim (h : (w.db.claimForFallback k).1 = true) :
    (exec (.claimForFallback k) i w).2.Unreported k (some .fallback) := by
  unfold World.Unreported
  simp only [exec, World.logIf_db, World.setDb_db]
  unfold Db.claimForFallback at h ⊢
  split at h
  · next r hr =>
    split_ifs at h with hp
    refine ⟨{ r with wakeState := some .fallback }, ?_, hp.1, rfl⟩
    simp only [if_pos hp]
    exact Db.getJob_updateJob_self hr
  · cases h

/-- Job `k` has its turn and is held, unless the user has been told. -/
structure Ready (k : ℕ) (xs : List Job) (w : World) : Prop where
  owing : Owing {k} xs w
  terminal : w.Terminal k
  row : retryOf k w.journal ≠ .told → w.Unreported k (some .fallback)

/-- Job `k` has its turn and `res` is the outcome of its notification. -/
structure Answered (k : ℕ) (xs : List Job) (res : NotifyResult) (w : World) : Prop
    extends Ready k xs w where
  posted : res ≠ NotifyResult.noToken → retryOf k w.journal ≠ .owed

theorem stable_ready (k : ℕ) (xs : List Job) : repostContract.Stable (Ready k xs) := by
  intro s t hst hs
  refine ⟨stable_owing _ _ s t hst hs.owing, (hst.2 k).1 hs.terminal, ?_⟩
  intro hj
  obtain ⟨hret, hrow⟩ := (hst.2 k).2.resolve_left hj
  rw [hret] at hj
  exact hrow _ (hs.row hj)

theorem stable_answered (k : ℕ) (xs : List Job) (res : NotifyResult) :
    repostContract.Stable (Answered k xs res) := by
  intro s t hst hs
  refine ⟨stable_ready k xs s t hst hs.toReady, ?_⟩
  intro hres hj
  exact hs.posted hres (owed_of_rely hst hj)

theorem Ready.postBegin (h : Ready k xs w) (chat text : String) :
    Ready k xs (exec (.postBegin k chat text) i w).2 where
  owing := by
    refine h.owing.delivers (o := .postBegin k chat text) (.inr (.inl rfl)) fun hw => ?_
    exact absurd hw (World.not_waits retry_postBegin)
  terminal := h.terminal.delivers (o := .postBegin k chat text) (.inr (.inl rfl))
  row hj := h.row fun ht => hj (retry_postBegin_told ht)

theorem Ready.postEnd (h : Ready k xs w) :
    Answered k xs (NotifyResult.ofHttp i.http) (exec (.postEnd k) i w).2 where
  owing := by
    refine h.owing.delivers (o := .postEnd k) (.inr (.inl rfl)) fun hw => ?_
    have hrow := h.row fun ht => hw.not_told (retry_postEnd_told ht)
    exact ⟨hrow, h.terminal.delivers (o := .postEnd k) (.inr (.inl rfl))⟩
  terminal := h.terminal.delivers (o := .postEnd k) (.inr (.inl rfl))
  row hj := h.row fun ht => hj (retry_postEnd_told ht)
  posted _ := retry_postEnd

theorem Owing.giveUp (h : Owing {k} xs w) : Owing ∅ xs (exec (.setUndeliverable k) i w).2 := by
  refine (h.delivers (o := .setUndeliverable k) (.inr (.inl rfl)) fun hw => ?_).finish ?_
  · exact absurd hw (World.not_waits retry_undeliverable)
  · exact ne_owed retry_undeliverable

/-- `mark_reported` ends the turn, whoever wins. -/
theorem Answered.report (h : Answered k xs res w) (hres : res ≠ NotifyResult.noToken) :
    Owing ∅ xs (exec (.markReported .supervisor k) i w).2 := by
  have ho : (Op.markReported .supervisor k).delivers k := .inr (.inl ⟨rfl, rfl⟩)
  cases hwin : (w.db.markReported k i.now).1 with
  | true =>
    have hj : retryOf k (exec (.markReported .supervisor k) i w).2.journal = .told := by
      simp [exec, World.logIf, hwin, retryOf, Retry.after]
    refine (h.owing.delivers ho fun hw => absurd hj hw.not_told).finish ?_
    rw [hj]
    simp
  | false =>
    rw [exec_markReported_lost hwin]
    exact h.owing.finish (h.posted hres)

/-- The notification. -/
theorem repost_notify (cfg : Settings) (job : Job) :
    Triple exec repostContract (Ready job.id xs) (Supervisor.attemptFallbackNotify cfg job)
      (fun _ => Owing ∅ xs) fun _ => Owing ∅ xs := by
  have hend := stable_owing ∅ xs
  have hready := stable_ready job.id xs
  have hanswered := fun res => stable_answered job.id xs res
  have hgiveUp : ∀ s i, Owing {job.id} xs s →
      (exec (.setUndeliverable job.id) i s).2.RetriesHeld ∧
        Owing ∅ xs (exec (.setUndeliverable job.id) i s).2 := by
    intro s i h
    exact ⟨h.giveUp.held, h.giveUp⟩
  unfold Supervisor.attemptFallbackNotify
  split
  · apply Triple.op hready (fun _ => hend)
    intro s i h _
    exact hgiveUp s i h.owing
  · next chat _ =>
    refine Triple.bind (M := Answered job.id xs) ?_ fun result => ?_
    · refine Triple.bind (M := fun _ => Ready job.id xs) ?_ fun token => ?_
      · apply Triple.op hready (fun _ => hready)
        intro s i h _
        exact ⟨h.owing.held, h⟩
      split
      · apply Triple.ret hready
        intro s h
        exact ⟨h, fun hne => absurd rfl hne⟩
      · refine Triple.bind (M := fun _ => Ready job.id xs) ?_ fun _ => ?_
        · apply Triple.op hready (fun _ => hready)
          intro s i h _
          exact ⟨(h.postBegin chat _).owing.held, h.postBegin chat _⟩
        · apply Triple.op hready hanswered
          intro s i h _
          exact ⟨h.postEnd.owing.held, h.postEnd⟩
    · split_ifs with hs hp
      · refine Triple.bind (M := fun _ => Owing ∅ xs) ?_ fun _ => Triple.skip hend _
        apply Triple.op (hanswered _) (fun _ => hend)
        intro s i h _
        have hreport := h.report (i := i) fun hres => by
          rw [hres] at hs
          cases hs
        exact ⟨hreport.held, hreport⟩
      · apply Triple.op (hanswered _) (fun _ => hend)
        intro s i h _
        exact hgiveUp s i h.owing
      · apply Triple.ret (hanswered _)
        intro s h
        apply h.owing.finish
        apply h.posted
        rintro rfl
        exact hp rfl

/-- Job `x` of the listing has its turn. -/
def HasTurn (x : Job) (xs : List Job) (w : World) : Prop := Owing {x.id} xs w ∧ Listed x w

theorem stable_hasTurn (x : Job) (xs : List Job) : repostContract.Stable (HasTurn x xs) :=
  (stable_owing _ _).and (stable_listed x)

/-- A job that is not in `fallback` need not be posted again. -/
theorem HasTurn.settled (h : HasTurn x xs w) (hfb : x.wakeState ≠ some .fallback) :
    retryOf x.id w.journal ≠ .owed := fun ho => hfb (h.2.owed ho)

theorem HasTurn.finish (h : HasTurn x xs w) (hfb : x.wakeState ≠ some .fallback) : Owing ∅ xs w :=
  h.1.finish (h.settled hfb)

theorem HasTurn.ready (h : HasTurn x xs w) (hfb : x.wakeState = some .fallback) : Ready x.id xs w :=
  ⟨h.1, h.2.terminal, h.2.claimed hfb⟩

theorem HasTurn.claim (h : HasTurn x xs w) (hfb : x.wakeState ≠ some .fallback) :
    if (w.db.claimForFallback x.id).1 then Ready x.id xs (exec (.claimForFallback x.id) i w).2
    else Owing ∅ xs (exec (.claimForFallback x.id) i w).2 := by
  split_ifs with hwin
  · have hrow := unreported_of_claim (i := i) hwin
    have hterm : (exec (.claimForFallback x.id) i w).2.Terminal x.id :=
      h.2.terminal.delivers (.inr (.inr rfl))
    exact ⟨h.1.delivers (.inr (.inr rfl)) fun _ => ⟨hrow, hterm⟩, hterm, fun _ => hrow⟩
  · rw [exec_claimForFallback_lost (by simpa using hwin)]
    exact h.finish hfb

theorem retry_wakes (ho : o.wakes k) :
    retryOf j (exec o i w).2.journal = retryOf j w.journal := by
  rcases journal_of_wakes (i := i) (w := w) ho with hj | hj
  · rw [hj]
  · rw [hj]
    rfl

/-- Waking the Controller keeps the claim of a job. -/
theorem unreported_of_wakes (h : w.Unreported k (some .fallback)) (ho : o.wakes k) :
    (exec o i w).2.Unreported k (some .fallback) := by
  obtain ⟨r, hr, hrep, hw⟩ := h
  obtain ⟨r', hr', hs⟩ := exec_job o i hr
  refine ⟨r', hr', ?_⟩
  cases hs with
  | keep => exact ⟨hrep, hw⟩
  | attempt => exact ⟨hrep, hw⟩
  | wake hnone =>
    rw [hw] at hnone
    cases hnone
  | _ => simp [Op.wakes, Op.isRead] at ho

theorem HasTurn.wakes (h : HasTurn x xs w) (ho : o.wakes x.id) : HasTurn x xs (exec o i w).2 := by
  have hret := retry_wakes (j := x.id) (i := i) (w := w) ho
  have hterm : (exec o i w).2.Terminal x.id := h.2.terminal.delivers (.inl ho)
  constructor
  · refine h.1.delivers (.inl ho) fun hw => ⟨unreported_of_wakes (h.1.held x.id ?_).1 ho, hterm⟩
    unfold World.Waits at hw ⊢
    rw [hret] at hw
    exact hw
  · refine ⟨h.2.reportedAt, hterm, ?_, ?_⟩
    · rw [hret]
      exact h.2.owed
    · rw [hret]
      intro hfb hj
      exact unreported_of_wakes (h.2.claimed hfb hj) ho

theorem keeps_hasTurn (ho : o.wakes x.id) : repostContract.Keeps exec (HasTurn x xs) o := by
  intro s i hs _
  exact ⟨(hs.wakes ho).1.held, hs.wakes ho⟩

/-- The turn of one job. -/
theorem repost_drive (cfg : Settings) (x : Job) (xs : List Job) :
    Triple exec repostContract (Owing ∅ (x :: xs)) (Supervisor.driveDelivery cfg x)
      (fun _ => Owing ∅ xs) fun _ => Owing ∅ xs := by
  suffices h : Triple exec repostContract (HasTurn x xs) (Supervisor.driveDelivery cfg x)
      (fun _ => Owing ∅ xs) fun _ => Owing ∅ xs from
    h.pre fun s hs => ⟨hs.begin, hs.snapshot x List.mem_cons_self⟩
  refine Supervisor.triple_driveDelivery (stable_hasTurn x xs) (stable_owing _ _)
    (fun hskip s hs => ?_) (keeps_hasTurn (.inl rfl)) (fun _ o ho => keeps_hasTurn ho)
    (fun _ hfb => (repost_notify cfg x).pre fun s hs => hs.ready hfb) fun _ _ hfb => ?_
  · apply hs.finish
    rcases hskip with hrep | hund | ⟨-, hfb⟩
    · rw [hs.2.reportedAt] at hrep
      cases hrep
    · rw [hund]
      simp
    · exact hfb
  · refine Supervisor.triple_claimAndFallback (stable_hasTurn x xs) (stable_owing _ _)
      (stable_ready x.id xs) (fun s i hs _ => ?_) (fun s i hs _ => ⟨hs.owing.held, hs⟩)
      fun job' hid => ?_
    · have hclaim := hs.claim (i := i) hfb
      refine ⟨?_, hclaim⟩
      split_ifs at hclaim
      · exact hclaim.owing.held
      · exact hclaim.held
    · rw [← hid]
      exact repost_notify cfg job'

/-! ## The tick -/

theorem retry_listed :
    retryOf j (.listed ids :: es) =
      if retryOf j es = .failed then .owed else retryOf j es := rfl

/-- The listing contains every job that waits. -/
theorem Owing.list (hp : w.phase = .supervisor) (hh : w.RetriesHeld) :
    Owing ∅ w.db.listUndeliveredTerminalJobs (exec .listUndeliveredTerminalJobs i w).2 := by
  have hwaits : ∀ j, (exec .listUndeliveredTerminalJobs i w).2.Waits j → w.Waits j := by
    intro j hj
    simp only [World.Waits, exec, World.log_journal, retry_listed] at hj
    unfold World.Waits
    split_ifs at hj with hf
    · exact .inl hf
    · exact hj
  refine ⟨hp, fun j hj => hh j (hwaits j hj), nodup_undelivered w.db, by simp, ?_, ?_⟩
  · intro j _ hj
    obtain ⟨⟨r, hr, hrep, -⟩, r', hr', hst⟩ := hh j (hwaits j (.inr hj))
    rw [hr] at hr'
    cases hr'
    have hmem : r ∈ w.db.listUndeliveredTerminalJobs :=
      Sql.mem_orderBy.mpr (List.mem_filter.mpr ⟨Sql.Table.mem_of_get? hr, by simp [hst, hrep]⟩)
    exact List.mem_map.mpr ⟨r, hmem, Db.getJob_id hr⟩
  · intro x hx
    obtain ⟨hget, hst, hrep⟩ := mem_undelivered hx
    refine ⟨hrep, ⟨x, hget, hst⟩, fun hj => ?_, fun hfb _ => ⟨x, hget, hrep, hfb⟩⟩
    obtain ⟨⟨r, hr, -, hw⟩, -⟩ := hh x.id (hwaits x.id (.inr hj))
    rw [hget] at hr
    cases hr
    exact hw

/-- A tick ends without a job that has waited since an earlier one. -/
theorem repost_tick (cfg : Settings) :
    Triple exec repostContract (fun w => w.phase = .supervisor ∧ w.RetriesHeld)
      (Supervisor.tick cfg) (fun _ => Owing ∅ []) fun _ _ => True := by
  refine Supervisor.triple_tick (J := Owing ∅) (stable_owing ∅) (repost_drive cfg) ?_ ?_
  · intro s t hst hs
    exact ⟨hst.1.trans hs.1, stable_retriesHeld s t hst hs.2⟩
  · intro s i hs _
    have hlist := Owing.list (i := i) hs.1 hs.2
    exact ⟨hlist.held, hlist⟩

/-! ## The other phases and threads -/

/-- Outside the Supervisor's phase a job keeps waiting or is requeued. -/
theorem retry_of_phase {p : Phase} (hp : p ≠ .supervisor) (h : p.performs o)
    (hj : (exec o i w).2.Waits j) : w.Waits j := by
  rcases journal_of_phase (i := i) (w := w) hp h with hsame | ⟨e, hs, hcons⟩
  · unfold World.Waits at hj ⊢
    rw [hsame] at hj
    exact hj
  · unfold World.Waits
    have hor : retryOf j (e :: w.journal) = retryOf j w.journal ∨
        retryOf j (e :: w.journal) = .idle := retry_of_silent hs
    rcases hor with hret | hret
    · rw [← hret, ← hcons]
      exact hj
    · refine absurd hj (World.not_waits (.inr ?_))
      rw [hcons]
      exact hret

theorem retriesHeld_of_phase {p : Phase} (hp : p ≠ .supervisor) (h : p.performs o)
    (ho : o.timely w) (hh : w.RetriesHeld) : (exec o i w).2.RetriesHeld := by
  intro j hj
  have hq : ∀ current result, o ≠ .updateJobState j current .queued result := by
    rintro current result rfl
    refine absurd hj (World.not_waits (.inr ?_))
    simp [exec, World.logIf, retryOf, Retry.after]
  obtain ⟨⟨r, hr, hrep, hw⟩, hterm⟩ := hh j (retry_of_phase hp h hj)
  obtain ⟨r', hr', hs⟩ := exec_job o i hr
  rcases marks_of_phase hp h hs with hm | ⟨current, result, hreq⟩
  · exact ⟨⟨r', hr', hm.1.trans hrep, hm.2.trans hw⟩, hterm.exec ho hq⟩
  · rw [Db.getJob_id hr] at hreq
    exact absurd hreq (hq current result)

namespace Sys

variable {cfg : Settings} {c c' : Sys} {t : Tid}

/-- What `report-done` and the readers do to one job. -/
theorem retry_of_other (ht : t ≠ .daemon) (h : c.performs t o) (j : ℕ) :
    retryOf j (exec o i c.shared).2.journal = .told ∨
      (retryOf j (exec o i c.shared).2.journal = retryOf j c.shared.journal ∧
        ∀ wake, c.shared.Unreported j wake → (exec o i c.shared).2.Unreported j wake) := by
  by_cases hm : ∃ l, o = .markReported .reportDone l
  · obtain ⟨l, rfl⟩ := hm
    cases hwin : (c.shared.db.markReported l i.now).1 with
    | false =>
      rw [exec_markReported_lost hwin]
      exact .inr ⟨rfl, fun _ h => h⟩
    | true =>
      have hj : (exec (.markReported .reportDone l) i c.shared).2.journal =
          .reported .reportDone l :: c.shared.journal := by
        simp [exec, World.logIf, hwin]
      rw [hj, retryOf_cons]
      by_cases hl : l = j
      · left
        simp [Retry.after, hl]
      · refine .inr ⟨by simp [Retry.after, hl], ?_⟩
        rintro wake ⟨r, hr, hrow⟩
        obtain ⟨r', hr', hs⟩ := exec_job (.markReported .reportDone l) i hr
        cases hs with
        | keep => exact ⟨_, hr', hrow⟩
        | report => exact absurd (Db.getJob_id hr) hl
  · have hsame : (exec o i c.shared).2.journal = c.shared.journal := by
      apply (journal_of_other ht h).resolve_right
      rintro ⟨l, ho, -⟩
      exact hm ⟨l, ho⟩
    rw [hsame]
    refine .inr ⟨rfl, ?_⟩
    rintro wake ⟨r, hr, hrep, hw⟩
    obtain ⟨r', hr', hs⟩ := exec_job o i hr
    obtain ⟨hrep', hw'⟩ := marks_of_other ht h (fun l ho => hm ⟨l, ho⟩) hs
    exact ⟨r', hr', hrep'.trans hrep, hw'.trans hw⟩

theorem rely_repost (hc : c.Footprint) (ht : t ≠ .daemon) (hok : c.fresh (.run t i) = true)
    (hn : c.next? t = some o) : repostContract.rely c.shared (exec o i c.shared).2 := by
  have hp := hc.next? hn
  refine ⟨exec_phase _ _ _, fun j => ⟨fun hj => ?_, retry_of_other ht hp j⟩⟩
  exact hj.exec (timely_of_fresh hc hok hn) (ne_requeue_of_other ht hp j)

/-- The contract along the runs with atomic `transition_job`s. -/
def repostProof (cfg : Settings) : DaemonProof cfg (fun c e => c.fresh e = true) where
  K := repostContract
  inv := World.RetriesHeld
  post _ w := w.phase = .supervisor → ∀ j, retryOf j w.journal ≠ .owed
  other hc hi ht hok hn := by
    have hr := rely_repost hc ht hok hn
    exact ⟨stable_retriesHeld _ _ hr hi, hr⟩
  assume hc _ hok hn := timely_of_fresh hc hok hn
  own _ _ hg := hg
  enter {c p} _ hi _ := by
    refine ⟨hi, ?_⟩
    by_cases hp : p = .supervisor
    · subst hp
      refine ((repost_tick cfg).bind fun _ => Triple.ret (stable_owing ∅ []) ?_) _ ⟨rfl, hi⟩
      intro w hw _ j hj
      cases hw.listed j (by simp) hj
    · have hstable : repostContract.Stable fun w => w.phase = p ∧ w.RetriesHeld := by
        intro s t hst hs
        exact ⟨hst.1.trans hs.1, stable_retriesHeld s t hst hs.2⟩
      refine (Triple.of_emits hstable ((emits_phaseProg cfg p).mono fun o ho => ?_)).post
        (fun _ w hw hsup => absurd (hw.1.symm.trans hsup) hp) (fun _ _ _ => trivial) _ ⟨rfl, hi⟩
      intro s i hs ha
      have hheld := retriesHeld_of_phase (i := i) hp ho ha hs.2
      exact ⟨hheld, (exec_phase _ _ _).trans hs.1, hheld⟩
  reap hi := ⟨hi, rfl, fun _ => ⟨id, .inr ⟨rfl, fun _ h => h⟩⟩⟩
  reboot _ hi _ := by
    refine ⟨hi, ?_⟩
    intro w hw hsup
    cases hw.1.symm.trans hsup

end Sys

end DiscordAgent
