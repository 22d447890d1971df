import DiscordAgent.Interleave.Trace
import DiscordAgent.System.Basic

/-!
# Keystroke injection is fail-closed

The Supervisor types into the Controller's pane with `tmux send-keys`. Eight
checks stand before it, spread over `_drive_delivery`, `_try_wake`, `_load_pane`,
`_pane_exists` and `_is_pane_busy`.

Specification: `Supervisor.Checked`, the eight checks as facts about the job
snapshot and about the answers that the outside gave on the way.

Main result:

* `Supervisor.checked_of_sendKeys`: whatever the answers are, a `send-keys`
  command of one `_drive_delivery` step comes after all eight checks.
-/

namespace DiscordAgent

open Interleave

/-- The answers that a program got so far. -/
abbrev Answers := List ((o : Op) × o.Res)

namespace Op

/-- The pane that the operation types into. -/
def keysTo : Op → Option String
  | tmux (.sendText pane _ _) | tmux (.sendEnter pane) => some pane
  | _ => none

end Op

/-! ## Stripped lines -/

namespace Py

theorem stripChars_getLast {cs : List Char} {c : Char} (h : (stripChars cs).getLast? = some c) :
    isSpace c = false := by
  rw [stripChars, List.getLast?_reverse] at h
  have := List.head?_dropWhile_not isSpace (cs.dropWhile isSpace).reverse
  rw [h] at this
  simpa using this

/-- A stripped line that matches the prompt is the prompt. -/
theorem eq_of_isIdlePrompt {s : String} (h : Supervisor.isIdlePrompt (strip s) = true) :
    strip s = "claude>" := by
  unfold Supervisor.isIdlePrompt at h
  simp only [Bool.and_eq_true, List.isPrefixOf_iff_prefix, strip, String.toList_ofList] at h
  obtain ⟨⟨rest, hrest⟩, hspace⟩ := h
  rw [← hrest, List.drop_left] at hspace
  have hnil : rest = [] := by
    by_contra hne
    obtain ⟨c, hc⟩ := Option.ne_none_iff_exists'.mp (mt List.getLast?_eq_none_iff.mp hne)
    have hmem : c ∈ rest := List.mem_of_getLast? hc
    have hlast : (stripChars s.toList).getLast? = some c := by
      rw [← hrest, List.getLast?_append, hc]
      rfl
    have hsp : isSpace c = true := List.all_eq_true.mp hspace c hmem
    rw [stripChars_getLast hlast] at hsp
    cases hsp
  rw [strip, ← hrest, hnil, List.append_nil]
  rfl

end Py

namespace Supervisor

/-- The last captured line that is not blank, stripped. -/
def lastLine (stdout : String) : Option String :=
  (((Py.splitLines stdout).map Py.strip).filter (· ≠ "")).getLast?

/-- The time from which `_drive_delivery` counts the grace period. -/
def graceStart (job : Job) : ℚ := (job.terminalAt.filter (· ≠ 0)).getD job.updatedAt

/-- The eight checks for a job snapshot and a pane, on the answers so far. -/
structure Checked (cfg : Settings) (job : Job) (es : Answers) (pane : String) : Prop where
  autoWake : cfg.autoWake = true
  unreported : job.reportedAt = none
  undelivered : job.wakeState ≠ some .fallback ∧ job.wakeState ≠ some .undeliverable
  inGrace : ∃ now : ℚ, ⟨.time, now⟩ ∈ es ∧ now - graceStart job ≤ cfg.wakeGraceSeconds
  attemptsLeft : (job.wakeAttempts : ℤ) < cfg.maxWakeAttempts
  paneFile : (∃ text, ⟨.readPaneFile, .ok text⟩ ∈ es ∧ Py.strip text = pane) ∧
    ∃ digits : List Char, pane = String.ofList ('%' :: digits) ∧ digits ≠ [] ∧
      ∀ d ∈ digits, Py.isDigit d = true
  listed : ∃ stdout, ⟨.tmux .listPanes, .ok stdout⟩ ∈ es ∧ pane ∈ Py.splitWords stdout
  notInMode : ∃ stdout, ⟨.tmux (.displayMode pane), .ok stdout⟩ ∈ es ∧ Py.strip stdout = "0"
  idle : ∃ stdout, ⟨.tmux (.capturePane pane), .ok stdout⟩ ∈ es ∧
    lastLine stdout = some "claude>"

/-! ## What types nothing -/

/-- The operation types nothing. -/
def silent (o : Op) : Prop := o.keysTo = none

theorem silent_op {o : Op} (h : o.keysTo = none) : (op o).Emits silent := Prog.emits_perform h

theorem silent_attemptFallbackNotify (cfg : Settings) (job : Job) :
    (attemptFallbackNotify cfg job).Emits silent := by
  unfold attemptFallbackNotify
  split
  · exact silent_op rfl
  · refine Prog.Emits.bind ?_ fun result => ?_
    · refine (silent_op rfl).bind fun token => ?_
      split
      · trivial
      · exact (silent_op rfl).bind fun _ => silent_op rfl
    · split
      · exact (silent_op rfl).bind fun _ => trivial
      · split
        · exact silent_op rfl
        · trivial

theorem silent_claimAndFallback (cfg : Settings) (job : Job) :
    (claimAndFallback cfg job).Emits silent := by
  refine (silent_op rfl).bind fun ok => ?_
  split
  · exact (silent_op rfl).bind fun fresh => silent_attemptFallbackNotify cfg _
  · trivial

theorem silent_loadPane : loadPane.Emits silent := by
  refine (silent_op rfl).bind fun text => ?_
  split <;> trivial

theorem silent_paneExists (pane : String) : (paneExists pane).Emits silent := by
  refine (silent_op rfl).bind fun panes => ?_
  cases panes <;> trivial

theorem silent_isPaneBusy (pane : String) : (isPaneBusy pane).Emits silent := by
  refine (silent_op rfl).bind fun mode => ?_
  cases mode with
  | raised e => trivial
  | ok mode =>
    simp only []
    split
    · trivial
    · refine (silent_op rfl).bind fun out => ?_
      cases out <;> trivial

/-- What `_try_wake` sends goes to the pane that it has checked. -/
theorem keysTo_sendWake (job : Job) (pane repoName : String) :
    (sendWake job pane repoName).Emits
      fun o => ∀ target, o.keysTo = some target → target = pane := by
  refine Prog.Emits.tryCatch ?_ fun e => ?_
  · refine (Prog.emits_perform ?_).bind fun text => ?_
    · intro target h
      cases h
      rfl
    · cases text with
      | raised e => trivial
      | ok out =>
        refine (Prog.emits_perform ?_).bind fun enter => ?_
        · intro target h
          cases h
          rfl
        · cases enter with
          | raised e => trivial
          | ok out =>
            refine (Prog.emits_perform ?_).bind fun _ =>
              (Prog.emits_perform ?_).bind fun _ => trivial
            · intro target h
              cases h
            · intro target h
              cases h
  · split <;> trivial

/-! ## What the checks have seen -/

variable {cfg : Settings} {job : Job} {es : Answers} {pane : String} {o : Op}

/-- A program that types nothing does not reach a `send-keys`. -/
theorem not_reaches_of_silent {α : Type} {p : Py α} (hp : p.Emits silent)
    (hkeys : o.keysTo = some pane) : ¬ p.Reaches o es := by
  intro h
  have ho : o.keysTo = none := h.of_emits hp
  rw [hkeys] at ho
  cases ho

theorem isPaneId_spec (h : isPaneId pane = true) :
    ∃ digits : List Char, pane = String.ofList ('%' :: digits) ∧ digits ≠ [] ∧
      ∀ d ∈ digits, Py.isDigit d = true := by
  unfold isPaneId at h
  split at h
  · next digits hpane =>
    simp only [Bool.and_eq_true, Bool.not_eq_true', List.isEmpty_eq_false_iff,
      List.all_eq_true] at h
    refine ⟨digits, ?_, h⟩
    rw [← hpane, String.ofList_toList]
  · cases h

theorem ends_loadPane (h : loadPane.Ends (.ok (some pane)) es) :
    (∃ text, ⟨.readPaneFile, .ok text⟩ ∈ es ∧ Py.strip text = pane) ∧ isPaneId pane = true := by
  obtain ⟨r, es₁, es₂, rfl, h₁, h₂⟩ := Prog.ends_bind h
  obtain rfl := Prog.ends_perform h₁
  split at h₂
  · next text =>
    obtain ⟨rfl, hx⟩ := h₂
    have hfilter : (some (Py.strip text)).filter (fun pane => isPaneId pane) = some pane :=
      (Except.ok.inj hx).symm
    obtain ⟨hstrip, hid⟩ := Option.filter_eq_some_iff.mp hfilter
    exact ⟨⟨text, by simp, Option.some.inj hstrip⟩, hid⟩
  · cases h₂.2
  · cases h₂.2

theorem ends_paneExists (h : (paneExists pane).Ends (.ok true) es) :
    ∃ stdout, ⟨.tmux .listPanes, .ok stdout⟩ ∈ es ∧ pane ∈ Py.splitWords stdout := by
  obtain ⟨r, es₁, es₂, rfl, h₁, h₂⟩ := Prog.ends_bind h
  obtain rfl := Prog.ends_perform h₁
  cases r with
  | raised e => cases h₂.2
  | ok stdout =>
    obtain ⟨rfl, hx⟩ := h₂
    refine ⟨stdout, by simp, ?_⟩
    have hin : (Py.splitWords stdout).contains pane = true := (Except.ok.inj hx).symm
    exact List.contains_iff_mem.mp hin

theorem ends_isPaneBusy (h : (isPaneBusy pane).Ends (.ok false) es) :
    (∃ stdout, ⟨.tmux (.displayMode pane), .ok stdout⟩ ∈ es ∧ Py.strip stdout = "0") ∧
      ∃ stdout, ⟨.tmux (.capturePane pane), .ok stdout⟩ ∈ es ∧
        lastLine stdout = some "claude>" := by
  obtain ⟨mode, es₁, es₂, rfl, h₁, h₂⟩ := Prog.ends_bind h
  obtain rfl := Prog.ends_perform h₁
  cases mode with
  | raised e => cases h₂.2
  | ok mode =>
    simp only [] at h₂
    split_ifs at h₂ with hmode
    · cases h₂.2
    · have hmode : Py.strip mode = "0" := not_not.mp hmode
      obtain ⟨out, es₃, es₄, rfl, h₃, h₄⟩ := Prog.ends_bind h₂
      obtain rfl := Prog.ends_perform h₃
      cases out with
      | raised e => cases h₄.2
      | ok stdout =>
        refine ⟨⟨mode, by simp, hmode⟩, stdout, by simp, ?_⟩
        have hall : (lastLine stdout).all (fun line => !isIdlePrompt line) = false :=
          (Except.ok.inj h₄.2).symm
        cases hline : lastLine stdout with
        | none =>
          rw [hline] at hall
          cases hall
        | some line =>
          rw [hline] at hall
          have hidle : isIdlePrompt line = true := by simpa using hall
          obtain ⟨s, -, rfl⟩ := List.mem_map.mp (List.mem_filter.mp (List.mem_of_getLast? hline)).1
          rw [Py.eq_of_isIdlePrompt hidle]

/-! ## The two drivers -/

/-- A `send-keys` of `_try_wake` comes after the four checks of the pane. -/
theorem reaches_tryWake (h : (tryWake cfg job).Reaches o es) (hkeys : o.keysTo = some pane) :
    (∃ text, ⟨.readPaneFile, .ok text⟩ ∈ es ∧ Py.strip text = pane) ∧ isPaneId pane = true ∧
      (∃ stdout, ⟨.tmux .listPanes, .ok stdout⟩ ∈ es ∧ pane ∈ Py.splitWords stdout) ∧
      (∃ stdout, ⟨.tmux (.displayMode pane), .ok stdout⟩ ∈ es ∧ Py.strip stdout = "0") ∧
      ∃ stdout, ⟨.tmux (.capturePane pane), .ok stdout⟩ ∈ es ∧
        lastLine stdout = some "claude>" := by
  have hgive : ∀ es, ¬ ((claimAndFallback cfg job).bind fun _ => (.ret false : Py Bool)).Reaches
      o es := by
    intro es
    apply not_reaches_of_silent _ hkeys
    exact (silent_claimAndFallback cfg job).bind fun _ => trivial
  unfold tryWake at h
  split at h
  · exact h.elim
  · rcases Prog.reaches_bind h with h | ⟨found, es₁, es₂, rfl, hload, h⟩
    · exact absurd h (not_reaches_of_silent silent_loadPane hkeys)
    · cases found with
      | none => exact absurd h (hgive _)
      | some found =>
        obtain ⟨⟨text, htext, hstrip⟩, hid⟩ := ends_loadPane hload
        rcases Prog.reaches_bind h with h | ⟨there, es₃, es₄, rfl, hexists, h⟩
        · exact absurd h (not_reaches_of_silent (silent_paneExists found) hkeys)
        · cases there with
          | false => exact absurd h (hgive _)
          | true =>
            obtain ⟨list, hlist, hmem⟩ := ends_paneExists hexists
            rcases Prog.reaches_bind h with h | ⟨busy, es₅, es₆, rfl, hbusy, h⟩
            · exact absurd h (not_reaches_of_silent (silent_isPaneBusy found) hkeys)
            · cases busy with
              | true => exact h.elim
              | false =>
                obtain ⟨⟨mode, hmode, hzero⟩, capture, hcapture, hline⟩ := ends_isPaneBusy hbusy
                rcases Prog.reaches_bind h with h | ⟨repo, es₇, es₈, rfl, -, h⟩
                · obtain ⟨rfl, -⟩ := Prog.reaches_perform h
                  cases hkeys
                · -- the commands go to the pane that was checked
                  have hpane : pane = found := h.of_emits (keysTo_sendWake _ _ _) pane hkeys
                  subst hpane
                  refine ⟨⟨text, ?_, hstrip⟩, hid, ⟨list, ?_, hmem⟩, ⟨mode, ?_, hzero⟩,
                    capture, ?_, hline⟩
                  · simp [htext]
                  · simp [hlist]
                  · simp [hmode]
                  · simp [hcapture]

theorem checked_of_sendKeys (cfg : Settings) (job : Job) (es : Answers) (o : Op) (pane : String)
    (hkeys : o.keysTo = some pane) (h : (driveDelivery cfg job).Reaches o es) :
    Checked cfg job es pane := by
  rcases Prog.reaches_bind h with hfirst | ⟨now, es₁, es₂, hes, htime, hrest⟩
  · obtain ⟨rfl, -⟩ := Prog.reaches_perform hfirst
    cases hkeys
  · rw [Prog.ends_perform htime] at hes
    subst hes
    simp only [] at hrest
    split_ifs at hrest with hrep hund hfb hauto hgrace hleft
    · exact hrest.elim
    · exact hrest.elim
    · exact absurd hrest (not_reaches_of_silent (silent_attemptFallbackNotify cfg job) hkeys)
    · exact absurd hrest (not_reaches_of_silent (silent_claimAndFallback cfg job) hkeys)
    · exact absurd hrest (not_reaches_of_silent (silent_claimAndFallback cfg job) hkeys)
    · rcases Prog.reaches_bind hrest with hwake | ⟨_, es₃, es₄, rfl, -, hend⟩
      · obtain ⟨⟨text, htext, hstrip⟩, hid, ⟨list, hlist, hmem⟩, ⟨mode, hmode, hzero⟩,
          capture, hcapture, hline⟩ := reaches_tryWake hwake hkeys
        exact
          { autoWake := by simpa using hauto
            unreported := by simpa using hrep
            undelivered := ⟨hfb, hund⟩
            inGrace := ⟨now, by simp, not_lt.mp hgrace⟩
            attemptsLeft := hleft
            paneFile := ⟨⟨text, by simp [htext], hstrip⟩, isPaneId_spec hid⟩
            listed := ⟨list, by simp [hlist], hmem⟩
            notInMode := ⟨mode, by simp [hmode], hzero⟩
            idle := ⟨capture, by simp [hcapture], hline⟩ }
      · exact hend.elim
    · exact hrest.elim

/-- An undelivered job that terminated at 100 s. -/
def endedJob : Job :=
  ⟨1, 1, "fix the build", .succeeded, 0, 2, 0, 100, none, some "42", none, 0, ((0 : ℚ) : WithTop ℚ),
    some 100, none, 0, none⟩

/-- The answers that lead to a wake of `endedJob` at 150 s in pane `%3`. -/
def idleAnswers : Answers :=
  [⟨.time, (150 : ℚ)⟩, ⟨.readPaneFile, .ok "%3\n"⟩, ⟨.tmux .listPanes, .ok "%0\n%3\n"⟩,
    ⟨.tmux (.displayMode "%3"), .ok "0\n"⟩,
    ⟨.tmux (.capturePane "%3"), .ok "done\n\nclaude> \n"⟩, ⟨.getRepoById 1, none⟩]

theorem checked_of_wake : ∃ msg,
    (driveDelivery { Settings.plain with autoWake := true } endedJob).Reaches
      (.tmux (.sendText "%3" 1 msg)) idleAnswers ∧
    Checked { Settings.plain with autoWake := true } endedJob idleAnswers "%3" := by
  have h : (driveDelivery { Settings.plain with autoWake := true } endedJob).Reaches
      (.tmux (.sendText "%3" 1 (wakeText endedJob "?"))) idleAnswers := by
    refine Exists.intro (150 : ℚ) ⟨rfl, ?_⟩
    simp only [Prog.ret_bind]
    rw [if_neg (by decide), if_neg (by decide), if_neg (by decide), if_neg (by decide),
      if_neg (by decide +kernel), if_pos (by decide)]
    refine Exists.intro (.ok "%3\n") ⟨rfl, ?_⟩
    refine Exists.intro (.ok "%0\n%3\n") ⟨rfl, ?_⟩
    refine Exists.intro (.ok "0\n") ⟨rfl, ?_⟩
    refine Exists.intro (.ok "done\n\nclaude> \n") ⟨rfl, ?_⟩
    exact Exists.intro none ⟨rfl, rfl⟩
  exact ⟨_, h, checked_of_sendKeys _ _ _ _ _ rfl h⟩

end Supervisor

end DiscordAgent
