import DiscordAgent.Service.Exclusion

/-!
# The end of a daemon

`stop` signals the daemon that it has found in the pid file and asks
`is_daemon_running` until that answers with nothing. The daemon finishes its tick,
stops its workers and removes its pid file.

Specification: `Service.undisturbed`, as for the exclusion of two daemons.

Results:
* `Service.stop_waits`: when `stop` returns 0, the daemon whose pid file it has
  signalled is gone, or has run `stop_all` and removed the file.
* `Service.status_sees_daemon`: a `status` or a `start` that is asked while a daemon
  has its pid in the file finds this daemon.
-/

namespace DiscordAgent

open Interleave HostProg

/-- Where a command can end that finds a daemon. -/
def HostCmd.Ends : HostCmd → HostStage → Prop
  | .start _, s => s = .exit 1 ∨ s = .fork ∨ s = .loop
  | .stop, _ => True
  | .status, s => ∃ r, s = .report r

namespace Look

/-- What the process has seen last is not the file `f`, or it is and names no process. -/
def Misses (l : Look) (f : PidFile) : Prop :=
  match l with
  | absent | stale _ => True
  | read f' | alive f' => f' ≠ f
  | _ => False

/-- The inode of the pid file that the process has written. -/
def wrote : Look → Option ℕ
  | holding ino _ | removed ino => some ino
  | _ => none

/-- The process has stopped its workers. -/
def Finished (l : Look) : Prop := ∃ ino, l = holding ino true ∨ l = removed ino

theorem Clear.not_finished {l : Look} (h : l.Clear) : ¬ l.Finished := by
  rintro ⟨ino, hl⟩
  rcases h with rfl | ⟨f, rfl, -⟩ <;> rcases hl with hl | hl <;> cases hl

end Look

namespace Service

variable {c c' : Service} {g g' : ℕ → Track} {p q : ℕ} {o : HostOp} {i : HostInputs}
  {e : HostEvent} {f : PidFile}

/-! ## How a daemon comes to hold the file -/

/-- An operation makes nobody the owner of the pid file, unless it writes to an empty
    one. -/
theorem holds_run (hs : Pool.step hostExec c q i = some c') (hn : c.next? q = some o)
    (h : c.Sound g) (hlive : (c.shared.processes q).isSome)
    (hok : undisturbed (c, g) (.run q i) = true) {ino : ℕ}
    (hp : c'.Holds (learn c (.run q i) g) p ino) :
    c.Holds g p ino ∨ c.shared.pidFile = some ⟨ino, ""⟩ := by
  have hshared := Pool.shared_step hs hn
  have hallows := h.allows hlive hs hn
  by_cases ho : o.changesFile = true
  · have hprocesses : c'.shared.processes = c.shared.processes := by
      rw [hshared]
      cases o with
      | openPidFile =>
        simp only [hostExec, Host.openPidFile]
        split <;> rfl
      | writePidFile n text => rfl
      | unlinkPidFile => rfl
      | _ => cases ho
    cases o with
    | openPidFile =>
      exact .inl (holds_other hn hprocesses (by rw [learn_self hn]; rfl) hp).2
    | unlinkPidFile =>
      refine .inl (holds_other hn hprocesses ?_ hp).2
      rw [learn_self hn]
      rcases hallows with ⟨f, hl⟩ | ⟨n, hl⟩ <;> rw [hl] <;> rfl
    | writePidFile n text =>
      obtain ⟨hl, rfl⟩ := hallows
      by_cases hpq : p = q
      · subst hpq
        have hheld := hp.2
        rw [learn_self hn] at hheld
        cases hheld
        exact .inr (expects_of_undisturbed hn rfl hok (by rw [hl]; rfl))
      · obtain ⟨hplive, hheld⟩ := hp
        rw [learn_other hn hpq] at hheld
        exact .inl ⟨hprocesses ▸ hplive, hheld⟩
    | _ => cases ho
  · refine .inl (holds_quiet hs hn (Bool.not_eq_true _ ▸ ho) hp)

theorem holds_step (h : c.Sound g) (hok : undisturbed (c, g) e = true)
    (hs : step c e = some c') {ino : ℕ} (hp : c'.Holds (learn c e g) p ino) :
    c.Holds g p ino ∨ c.shared.pidFile = some ⟨ino, ""⟩ := by
  have hremove : ∀ r, Holds { c with shared := c.shared.remove r } g p ino → c.Holds g p ino :=
    fun r hr => ⟨(Host.within_remove c.shared r).isSome hr.1, hr.2⟩
  have hlaunch : ∀ (d : Service) r q prog (t : Track), t.look.held = none →
      d.shared = c.shared → (d.launch r q prog).Holds (Function.update g r t) p ino →
        c.Holds g p ino := by
    rintro d r q prog t ht hd ⟨hlive, hheld⟩
    by_cases hpr : p = r
    · rw [hpr, Function.update_self, ht] at hheld
      cases hheld
    · rw [Function.update_of_ne hpr] at hheld
      have hsame : (d.launch r q prog).shared.processes p = d.shared.processes p :=
        (Host.add_processes _ _ _ _).trans (if_neg hpr)
      rw [hsame, hd] at hlive
      exact ⟨hlive, hheld⟩
  cases move_of_step hs with
  | operation hlive hs =>
    obtain ⟨o, -, -, hn, -, -, -⟩ := Pool.step_cases hs
    exact holds_run hs hn h hlive hok hp
  | round => exact .inl hp
  | ended => exact .inl (hremove _ hp)
  | @fork q child hlive hprog =>
    have htracks := h.tracks q hlive
    rw [hprog] at htracks
    have hclear : (g q).look.Clear := htracks
    exact .inl (hlaunch _ child {} (detached child) { look := (g q).look } hclear.held rfl hp)
  | spawn => exact .inl (hlaunch c _ {} _ {} rfl rfl hp)
  | foreign => exact .inl (hlaunch c _ _ _ {} rfl rfl hp)
  | die => exact .inl (hremove _ hp)

/-! ## When a daemon is gone -/

/-- No daemon has `f` as its pid file any more. -/
def Gone (c : Service) (g : ℕ → Track) (f : PidFile) : Prop :=
  ∀ p ino, c.Holds g p ino → f ≠ ⟨ino, toString p⟩

/-- A daemon whose file some process has seen does not come back. -/
theorem Gone.step (hg : c.Gone g f) (h : c.Sound g) (hsaw : (g q).Saw f)
    (hok : undisturbed (c, g) e = true) (hs : step c e = some c') : c'.Gone (learn c e g) f := by
  intro p ino hp hf
  rcases holds_step h hok hs hp with hp' | hfile
  · exact hg p ino hp' hf
  · obtain ⟨hpos, hlt⟩ := (h.step hok hs).pids p hp.1
    subst hf
    exact h.mute q _ _ hsaw hfile rfl (PidFile.mute_empty ino) p hpos hlt rfl

/-- The daemon of every other file is gone. -/
theorem Sound.gone_of_file (h : c.Sound g) (hne : c.shared.pidFile ≠ some f) : c.Gone g f := by
  rintro p ino hp rfl
  exact hne (h.owner p ino hp)

/-- The daemon of a file that is no pid of a process is gone. -/
theorem Sound.gone_of_kill (h : c.Sound g) {pid : ℤ} {err : HostErr} (hread : readPid f = .ok pid)
    (hkill : c.shared.kill i pid = .error err) : c.Gone g f := by
  rintro p ino hp rfl
  rw [readPid_toString (h.pids p hp.1).2] at hread
  cases hread
  rw [h.kill_owner hp i] at hkill
  cases hkill

theorem Sound.gone_of_unreadable (h : c.Sound g) (hread : ∀ pid : ℕ, 0 < pid →
    readPid f ≠ .ok (pid : ℤ)) : c.Gone g f := by
  rintro p ino hp rfl
  obtain ⟨hpos, hlt⟩ := h.pids p hp.1
  exact hread p hpos (readPid_toString hlt)

/-- The rounds of `stop`: once what it sees is not the file of the daemon that it has
    signalled, the daemon is gone. -/
structure Waits (c : Service) (g : ℕ → Track) : Prop where
  sound : c.Sound g
  gone : ∀ q f, (c.shared.processes q).isSome → (g q).signalled = some f →
    (g q).look.Misses f → c.Gone g f
  cleaned : ∀ p q, c.shared.processes p = some q → (g p).look.Finished → q.cleaned = true

/-- An operation of process `q` itself. -/
theorem Waits.misses_next (h : c.Waits g) (hlive : (c.shared.processes q).isSome)
    (hallows : (g q).look.Allows q o)
    (hf : (g q).target o (hostExec o i c.shared).1 = some f)
    (hm : ((g q).look.next o (hostExec o i c.shared).1).Misses f) :
    c.Gone g f := by
  cases o with
  | pidFileExists =>
    refine h.sound.gone_of_file fun hfile => ?_
    rw [Look.pidFileExists_some hfile] at hm
    exact hm.elim
  | readPidFile =>
    cases hfile : c.shared.pidFile with
    | none =>
      refine h.sound.gone_of_file fun hsome => ?_
      rw [hfile] at hsome
      cases hsome
    | some f' =>
      rw [Look.readPidFile_some hfile, Look.next_readPidFile] at hm
      by_cases hff : f' = f
      · subst hff
        split_ifs at hm with hread
        · exact absurd rfl hm
        · refine h.sound.gone_of_unreadable fun pid _ hpid => ?_
          rw [hpid] at hread
          exact hread rfl
      · refine h.sound.gone_of_file fun hsome => ?_
        rw [hfile] at hsome
        exact hff (Option.some.inj hsome)
  | probe pid =>
    obtain ⟨f', hl, hpid⟩ := hallows
    by_cases hff : f' = f
    · subst hff
      cases hkill : c.shared.kill i pid with
      | ok a =>
        have hm : ((g q).look.next (.probe pid) (c.shared.kill i pid)).Misses f' := hm
        rw [hl, hkill] at hm
        exact absurd rfl hm
      | error err => exact h.sound.gone_of_kill hpid hkill
    · exact h.gone q f hlive hf (by rw [hl]; exact hff)
  | unlinkPidFile =>
    rcases hallows with ⟨f', hl⟩ | ⟨ino, hl⟩
    · exact h.gone q f hlive hf (by rw [hl]; trivial)
    · rw [hl] at hm
      exact hm.elim
  | openPidFile => exact hm.elim
  | writePidFile ino text => exact hm.elim
  | terminate pid =>
    have hsame : (g q).look.Misses f := hm
    cases hkill : c.shared.kill i pid with
    | error err => exact h.gone q f hlive (by simpa [hostExec, hkill, Track.target] using hf) hsame
    | ok a =>
      simp only [hostExec, hkill, Track.target] at hf
      split at hf
      · next f' hl =>
        cases hf
        rw [hl] at hsame
        exact absurd rfl hsame
      · exact h.gone q f hlive hf hsame
  | stopAll pid =>
    refine h.gone q f hlive hf ?_
    generalize (g q).look = l at hm ⊢
    cases l with
    | holding ino b => exact hm.elim
    | _ => exact hm
  | _ => exact h.gone q f hlive hf hm

/-- An operation of process `p` lets it finish. -/
theorem finished_next {l : Look} (hallows : l.Allows p o) {r : o.Res} (h : (l.next o r).Finished) :
    l.Finished ∨ o = .stopAll p := by
  obtain ⟨ino, h⟩ := h
  cases o with
  | stopAll pid =>
    obtain ⟨rfl, -⟩ := hallows
    exact .inr rfl
  | unlinkPidFile =>
    rcases hallows with ⟨f', rfl⟩ | ⟨n, rfl⟩
    · rcases h with h | h <;> cases h
    · exact .inl ⟨n, .inl rfl⟩
  | pidFileExists => cases r <;> rcases h with h | h <;> cases h
  | readPidFile =>
    cases r with
    | error err => rcases h with h | h <;> cases h
    | ok f' =>
      rw [Look.next_readPidFile] at h
      split_ifs at h <;> rcases h with h | h <;> cases h
  | probe pid =>
    obtain ⟨f', rfl, -⟩ := hallows
    cases r with
    | ok a => rcases h with h | h <;> cases h
    | error err =>
      rw [Look.next_probe_error] at h
      split_ifs at h <;> rcases h with h | h <;> cases h
  | openPidFile => rcases h with h | h <;> cases h
  | writePidFile n text => rcases h with h | h <;> cases h
  | _ => exact .inl ⟨ino, h⟩

/-- Process `p` starts with nothing that `stop` or `stop_all` has done. -/
theorem Waits.launch (h : c.Waits g) {d : Service} {prog : HostProg HostStage} {r : Process}
    {t : Track} (hd : d.shared = c.shared)
    (hsound : (d.launch p r prog).Sound (Function.update g p t))
    (hsig : t.signalled = none) (hfin : ¬ t.look.Finished)
    (hgone : ∀ q f, (g q).Saw f → c.Gone g f → (d.launch p r prog).Gone (Function.update g p t) f) :
    (d.launch p r prog).Waits (Function.update g p t) := by
  have hprocess : ∀ q, q ≠ p → (d.launch p r prog).shared.processes q = c.shared.processes q := by
    intro q hq
    exact ((Host.add_processes _ _ _ _).trans (if_neg hq)).trans (by rw [hd])
  refine ⟨hsound, ?_, ?_⟩
  · intro q f hlive hq hm
    by_cases hqp : q = p
    · rw [hqp, Function.update_self, hsig] at hq
      cases hq
    · rw [hprocess q hqp] at hlive
      rw [Function.update_of_ne hqp] at hq hm
      exact hgone q f (.inr hq) (h.gone q f hlive hq hm)
  · intro q q' hq' hf
    by_cases hqp : q = p
    · rw [hqp, Function.update_self] at hf
      exact absurd hf hfin
    · rw [hprocess q hqp] at hq'
      rw [Function.update_of_ne hqp] at hf
      exact h.cleaned q q' hq' hf

/-- A process ends or is killed. -/
theorem Waits.remove (h : c.Waits g) (p : ℕ)
    (hsound : Sound { c with shared := c.shared.remove p } g) :
    Waits { c with shared := c.shared.remove p } g := by
  have hw := Host.within_remove c.shared p
  refine ⟨hsound, ?_, ?_⟩
  · intro q f hlive hq hm r ino hr
    exact h.gone q f (hw.isSome hlive) hq hm r ino ⟨hw.isSome hr.1, hr.2⟩
  · intro q q' hq' hf
    obtain ⟨r, hr, -, hcleaned⟩ := hw q q' hq'
    exact hcleaned (h.cleaned q r hr hf)

theorem Waits.step (h : c.Waits g) (hok : undisturbed (c, g) e = true)
    (hs : step c e = some c') : c'.Waits (learn c e g) := by
  have hsound := h.sound.step hok hs
  have hgone : ∀ q f, (g q).Saw f → c.Gone g f → c'.Gone (learn c e g) f :=
    fun q f hsaw hg => hg.step h.sound hsaw hok hs
  cases move_of_step hs with
  | @operation p i _ hlive hstep =>
    obtain ⟨o, -, -, hn, -, -, -⟩ := Pool.step_cases hstep
    have hallows := h.sound.allows hlive hstep hn
    have hw := Host.exec_within o i c.shared
    rw [← Pool.shared_step hstep hn] at hw
    refine ⟨hsound, ?_, ?_⟩
    · intro q f hqlive hq hm
      by_cases hqp : q = p
      · subst hqp
        rw [learn_run hn, Function.update_self] at hq hm
        exact hgone q f (Look.saw_of_target hq) (h.misses_next hlive hallows hq hm)
      · rw [learn_other hn hqp] at hq hm
        exact hgone q f (.inr hq) (h.gone q f (hw.isSome hqlive) hq hm)
    · intro q q' hq' hf
      obtain ⟨r, hr, -, hcleaned⟩ := hw q q' hq'
      by_cases hqp : q = p
      · subst hqp
        rw [learn_self hn] at hf
        rcases finished_next hallows hf with hf | rfl
        · exact hcleaned (h.cleaned q r hr hf)
        · rw [Pool.shared_step hstep hn] at hq'
          have hq' : (c.shared.modify q fun q => { q with cleaned := true }).processes q =
              some q' := hq'
          rw [Host.modify_processes, if_pos rfl] at hq'
          obtain ⟨-, -, rfl⟩ := Option.map_eq_some_iff.mp hq'
          rfl
      · rw [learn_other hn hqp] at hf
        exact hcleaned (h.cleaned q r hr hf)
  | round => exact ⟨hsound, h.gone, h.cleaned⟩
  | ended => exact h.remove _ hsound
  | @fork q child hlive hprog =>
    have htracks := h.sound.tracks q hlive
    rw [hprog] at htracks
    have hclear : (g q).look.Clear := htracks
    exact h.launch rfl hsound rfl hclear.not_finished hgone
  | spawn =>
    exact h.launch rfl hsound rfl (by rintro ⟨ino, hl | hl⟩ <;> cases hl) hgone
  | foreign =>
    exact h.launch rfl hsound rfl (by rintro ⟨ino, hl | hl⟩ <;> cases hl) hgone
  | die => exact h.remove _ hsound

theorem waits_boot (file : Option String) : (boot file).Waits fun _ => {} where
  sound := sound_boot file
  gone q f hq := by cases hq
  cleaned p q hq := by cases hq

/-- When `stop` has signalled the daemon of a pid file and returns 0, that daemon is
    gone, or it has run `stop_all` and removed its file. -/
theorem stop_waits {file : Option String} (hrun : Runs (fun s e => undisturbed s e = true)
      (boot file, fun _ => {}) (c, g)) (hlive : (c.shared.processes q).isSome)
    (hexit : c.prog q = .ret (.exit 0)) (hsig : (g q).signalled = some f) {r : Process} {ino : ℕ}
    (hp : c.shared.processes p = some r) (hwrote : (g p).look.wrote = some ino)
    (hf : f = ⟨ino, toString p⟩) : (g p).look = .removed ino ∧ r.cleaned = true := by
  have h : c.Waits g := hrun.watch_invariant (I := Waits) (fun _ _ _ _ hi hok hs => hi.step hok hs)
    (waits_boot file)
  have hknows : HostStage.Knows (.exit 0) (g q) := by
    have htracks := h.sound.tracks q hlive
    rw [hexit] at htracks
    exact htracks
  have hgone : c.Gone g f := by
    rcases hknows.2 (by simp [hsig]) rfl with hl | ⟨f', hl, hzero⟩
    · exact h.gone q f hlive hsig (by rw [hl]; trivial)
    · by_cases hff : f' = f
      · subst hff
        refine h.sound.gone_of_unreadable fun pid hpos hpid => ?_
        rw [hzero] at hpid
        have h0 : (0 : ℤ) = pid := Except.ok.inj hpid
        omega
      · exact h.gone q f hlive hsig (by rw [hl]; exact hff)
  have hremoved : (g p).look = .removed ino := by
    cases hl : (g p).look with
    | holding n b =>
      rw [hl] at hwrote
      cases hwrote
      exact absurd hf (hgone p ino ⟨by simp [hp], by rw [hl]; rfl⟩)
    | removed n =>
      rw [hl] at hwrote
      cases hwrote
      rfl
    | _ =>
      rw [hl] at hwrote
      cases hwrote
  exact ⟨hremoved, h.cleaned p r hp ⟨ino, .inr hremoved⟩⟩

/-- Where the program of process `q` has ended. -/
def arrived (s : Service × (ℕ → Track)) (q : ℕ) : Option HostStage :=
  match s.1.prog q with
  | .ret stage => some stage
  | _ => none

theorem arrived_eq_some {s : Service × (ℕ → Track)} {stage : HostStage}
    (h : arrived s q = some stage) : s.1.prog q = .ret stage := by
  unfold arrived at h
  split at h
  · next hr =>
    cases h
    exact hr
  · cases h

/-- Command 12 stops the daemon of `startUp`: it signals it in its fourth operation, the
    daemon runs its `finally`, and the next operation of the command finds no file. -/
def stopping : List HostEvent :=
  startUp ++ .spawn 12 .stop :: steps 12 4 ++ .next 10 :: steps 10 2 ++ steps 12 1

/-- Command 12 has returned 0 for daemon 10, which is still in its process table. -/
def stopped (s : Service × (ℕ → Track)) : Bool :=
  decide (arrived s 12 = some (.exit 0)) && (s.1.shared.processes 12).isSome &&
    decide ((s.2 12).signalled = some ⟨1, toString 10⟩) &&
      (s.1.shared.processes 10).isSome && decide ((s.2 10).look.wrote = some 1)

theorem stop_waits_stopping : ∃ c g r, Runs (fun s e => undisturbed s e = true)
    (boot (some "7"), fun _ => {}) (c, g) ∧ c.shared.processes 10 = some r ∧
      (g 10).look = .removed 1 ∧ r.cleaned = true := by
  have hlist : (runList (watch step learn) undisturbed (boot (some "7"), fun _ => {})
      stopping).any stopped = true := by decide +kernel
  obtain ⟨⟨c, g⟩, hrun, hc⟩ := Run.exists_of_runList hlist
  simp only [stopped, Bool.and_eq_true, decide_eq_true_eq] at hc
  obtain ⟨⟨⟨⟨hexit, hlive⟩, hsig⟩, hdaemon⟩, hwrote⟩ := hc
  obtain ⟨r, hr⟩ := Option.isSome_iff_exists.mp hdaemon
  exact ⟨c, g, r, hrun, hr,
    stop_waits hrun hlive (arrived_eq_some hexit) hsig hr hwrote rfl⟩

/-! ## What a command sees while a daemon runs -/

theorem returns_prog (cmd : HostCmd) : (cmd.prog p).Returns cmd.Ends := by
  cases cmd with
  | start foreground =>
    refine Prog.returns_bind _ fun existing => ?_
    split_ifs
    · exact .inl rfl
    · exact Prog.returns_bind _ fun _ _ _ => .inr (.inr rfl)
    · exact .inr (.inl rfl)
  | stop => exact Prog.returns_of _ fun _ => trivial
  | status => exact Prog.returns_bind _ fun r => ⟨r, rfl⟩

/-- A command that asks for the daemon while process `p` has its pid in the file. -/
structure Sees (cmd : HostCmd) (f : PidFile) (q : ℕ) (prog : HostProg HostStage) (t : Track) :
    Prop where
  look : t.look = .nothing ∨ t.look = .read f ∨ t.look = .alive f
  prog : prog.Follows (pidMonitor q) (fun s t => s.Knows t ∧ cmd.Ends s) (fun _ _ => True) t

/-- Nothing that it can do next shows another picture. -/
theorem Sound.sees_next (h : c.Sound g) {ino : ℕ} (hp : c.Holds g p ino)
    (hallows : (g q).look.Allows q o)
    (hl : (g q).look = .nothing ∨ (g q).look = .read ⟨ino, toString p⟩ ∨
      (g q).look = .alive ⟨ino, toString p⟩) :
    (g q).look.next o (hostExec o i c.shared).1 = .nothing ∨
      (g q).look.next o (hostExec o i c.shared).1 = .read ⟨ino, toString p⟩ ∨
        (g q).look.next o (hostExec o i c.shared).1 = .alive ⟨ino, toString p⟩ := by
  have hfile := h.owner p ino hp
  have hread := h.readPid_owner hp hfile
  have hheld : (g q).look.held = none := by
    rcases hl with hl | hl | hl <;> rw [hl] <;> rfl
  cases o with
  | pidFileExists =>
    left
    rw [Look.pidFileExists_some hfile]
    rfl
  | readPidFile =>
    right
    left
    rw [Look.readPidFile_some hfile, Look.next_readPidFile, hread]
    rfl
  | probe pid =>
    obtain ⟨f', hl', hpid⟩ := hallows
    rw [hl'] at hl ⊢
    rcases hl with hl | hl | hl <;> cases hl
    rw [hread] at hpid
    cases hpid
    right
    right
    exact congrArg (Look.next _ (.probe p)) (h.kill_owner hp i)
  | unlinkPidFile =>
    rcases hallows with ⟨f', hl'⟩ | ⟨n, hl'⟩ <;> rw [hl'] at hl <;> rcases hl with hl | hl | hl <;>
      cases hl
  | openPidFile =>
    rcases hallows with hl' | ⟨f', hl', hzero⟩ <;> rw [hl'] at hl <;>
      rcases hl with hl | hl | hl <;> cases hl
    rw [hread] at hzero
    have hpos := (h.pids p hp.1).1
    have hzero : (p : ℤ) = 0 := Except.ok.inj hzero
    omega
  | writePidFile n text =>
    obtain ⟨hl', -⟩ := hallows
    rw [hl'] at hl
    rcases hl with hl | hl | hl <;> cases hl
  | stopAll pid =>
    obtain ⟨-, n, b, hl'⟩ := hallows
    rw [hl'] at hheld
    cases hheld
  | _ => exact hl

/-- While process `p` has its pid in the file, a command `q` goes on seeing it. -/
theorem Sees.step {cmd : HostCmd} {ino : ℕ} (h : c.Sound g) (hok : undisturbed (c, g) e = true)
    (hp : c.Holds g p ino) (hlive : (c.shared.processes q).isSome)
    (hq : Sees cmd ⟨ino, toString p⟩ q (c.prog q) (g q)) (hs : step c e = some c') :
    Sees cmd ⟨ino, toString p⟩ q (c'.prog q) (learn c e g q) := by
  have hfile := h.owner p ino hp
  have hbusy : ∀ child, c.free child = true → q ≠ child := by
    rintro child hfree rfl
    rw [(free_iff.mp hfree).1] at hlive
    cases hlive
  -- where the program of `q` is not at
  have hclear : ¬ (g q).look.Clear := by
    rintro (hl | ⟨f', hl, hzero⟩)
    · rcases hq.look with hl' | hl' | hl' <;> rw [hl] at hl' <;> cases hl'
    · rcases hq.look with hl' | hl' | hl' <;> rw [hl] at hl' <;> cases hl'
      rw [h.readPid_owner hp hfile] at hzero
      have hpos := (h.pids p hp.1).1
      have hzero : (p : ℤ) = 0 := Except.ok.inj hzero
      omega
  cases move_of_step hs with
  | @operation r i _ hrlive hstep =>
    obtain ⟨o, -, -, hn, -, -, hother⟩ := Pool.step_cases hstep
    by_cases hqr : q = r
    · subst hqr
      have hallows := h.allows hrlive hstep hn
      refine ⟨?_, ?_⟩
      · rw [learn_self hn]
        exact h.sees_next hp hallows hq.look
      · rw [learn_run hn, Function.update_self]
        exact (Pool.follows_step hstep hn (answers_exec o i _) hq.prog).2
    · rw [learn_other hn hqr, hother q hqr]
      exact hq
  | @round r proc hr hloop =>
    by_cases hqr : q = r
    · subst hqr
      have hprog := hq.prog
      rw [hloop] at hprog
      obtain ⟨⟨⟨n, hn⟩, -⟩, -⟩ := hprog
      rcases hq.look with hl | hl | hl <;> rw [hn] at hl <;> cases hl
    · rw [Pool.load_prog_of_ne _ _ hqr]
      exact hq
  | ended => exact hq
  | @fork r child hrlive hfork hfree =>
    have hqchild := hbusy child hfree
    by_cases hqr : q = r
    · subst hqr
      have hprog := hq.prog
      rw [hfork] at hprog
      exact absurd hprog.1 hclear
    · have hprog : (launch (Pool.load c r (.ret (.exit 0))) child {} (detached child)).prog q =
          c.prog q := (Pool.load_prog_of_ne _ _ hqchild).trans (Pool.load_prog_of_ne c _ hqr)
      have hsame : learn c (.fork r child) g q = g q := Function.update_of_ne hqchild _ _
      rw [hprog, hsame]
      exact hq
  | @spawn r cmd' hfree =>
    rw [Service.launch, Pool.load_prog_of_ne _ _ (hbusy r hfree)]
    have hsame : learn c (.spawn r cmd') g q = g q := Function.update_of_ne (hbusy r hfree) _ _
    rw [hsame]
    exact hq
  | @foreign r proc hfree =>
    rw [Service.launch, Pool.load_prog_of_ne _ _ (hbusy r hfree)]
    have hsame : learn c (.foreign r proc) g q = g q := Function.update_of_ne (hbusy r hfree) _ _
    rw [hsame]
    exact hq
  | die => exact hq

/-- While process `p` has its pid in the file, a `status` that is asked and answered
    names `p`, and a `start` refuses: it does not fork, enter the loop or return 0. -/
theorem status_sees_daemon {file : Option String} {s₀ s₁ s : Service × (ℕ → Track)} {ino : ℕ}
    {cmd : HostCmd} {stage : HostStage}
    (hrun₀ : Runs (fun s e => undisturbed s e = true) (boot file, fun _ => {}) s₀)
    (hspawn : watch step learn s₀ (.spawn q cmd) = some s₁)
    (hrun : Runs (fun s e => undisturbed s e = true ∧ s.1.Holds s.2 p ino ∧
      (s.1.shared.processes q).isSome) s₁ s)
    (hp : s.1.Holds s.2 p ino) (hstage : s.1.prog q = .ret stage) :
    (cmd = .status → stage = .report (some p)) ∧
      (∀ foreground, cmd = .start foreground → stage = .exit 1) := by
  obtain ⟨c₁, g₁⟩ := s₁
  obtain ⟨hs, hg⟩ := watch_step hspawn
  have hstart : Sees cmd ⟨ino, toString p⟩ q (c₁.prog q) (g₁ q) := by
    have hg : g₁ = learn s₀.1 (.spawn q cmd) s₀.2 := hg
    have hsame : learn s₀.1 (.spawn q cmd) s₀.2 q = {} := Function.update_self _ _ _
    rw [hg, hsame]
    have hprog : c₁.prog q = cmd.prog q := by
      cases move_of_step hs with
      | spawn hfree => exact Pool.load_prog_self _ _ _
    refine ⟨.inl rfl, ?_⟩
    rw [hprog]
    exact (follows_prog cmd).returns (returns_prog cmd)
  have hsound : c₁.Sound g₁ := by
    have hg : g₁ = learn s₀.1 (.spawn q cmd) s₀.2 := hg
    rw [hg]
    exact ((sound_boot file).run hrun₀).step rfl hs
  obtain ⟨h, hsees⟩ := hrun.watch_invariant
    (I := fun c g => c.Sound g ∧ Sees cmd ⟨ino, toString p⟩ q (c.prog q) (g q))
    (fun _ _ _ _ hi hok hs => ⟨hi.1.step hok.1 hs, hi.2.step hi.1 hok.1 hok.2.1 hok.2.2 hs⟩)
    ⟨hsound, hstart⟩
  have hread := h.readPid_owner hp (h.owner p ino hp)
  have hpos := (h.pids p hp.1).1
  have hprog := hsees.prog
  rw [hstage] at hprog
  obtain ⟨hknows, hends⟩ := hprog
  constructor
  · rintro rfl
    obtain ⟨r, rfl⟩ := hends
    cases r with
    | none =>
      have hl : (s.2 q).look = .absent := hknows
      rcases hsees.look with hl' | hl' | hl' <;> rw [hl] at hl' <;> cases hl'
    | some pid =>
      obtain ⟨f', hl, hpid⟩ := hknows
      rcases hsees.look with hl' | hl' | hl' <;> rw [hl] at hl' <;> cases hl'
      rw [hread] at hpid
      rw [Except.ok.inj hpid]
  · rintro foreground rfl
    rcases hends with hends | rfl | rfl
    · exact hends
    · rcases hknows with hl | ⟨f', hl, hzero⟩
      · rcases hsees.look with hl' | hl' | hl' <;> rw [hl] at hl' <;> cases hl'
      · rcases hsees.look with hl' | hl' | hl' <;> rw [hl] at hl' <;> cases hl'
        rw [hread] at hzero
        have hzero : (p : ℤ) = 0 := Except.ok.inj hzero
        omega
    · obtain ⟨⟨n, hl⟩, -⟩ := hknows
      rcases hsees.look with hl' | hl' | hl' <;> rw [hl] at hl' <;> cases hl'

/-- Process 12 is alive while daemon 10 has its pid in the file. -/
def watched (s : Service × (ℕ → Track)) (e : HostEvent) : Bool :=
  undisturbed s e && holds s 10 1 && (s.1.shared.processes 12).isSome

theorem watched_iff {s : Service × (ℕ → Track)} : watched s e = true ↔
    undisturbed s e = true ∧ s.1.Holds s.2 10 1 ∧ (s.1.shared.processes 12).isSome := by
  rw [watched, Bool.and_eq_true, Bool.and_eq_true, holds_iff, and_assoc]

/-- The daemon of `startUp` is in its loop when command 12 asks for it. -/
theorem status_sees_daemon_startUp : ∃ s₀ s₁ s,
    Runs (fun s e => undisturbed s e = true) (boot (some "7"), fun _ => {}) s₀ ∧
      watch step learn s₀ (.spawn 12 .status) = some s₁ ∧
      Runs (fun s e => undisturbed s e = true ∧ s.1.Holds s.2 10 1 ∧
        (s.1.shared.processes 12).isSome) s₁ s ∧
      s.1.prog 12 = .ret (.report (some 10)) := by
  have hlist : (runList (watch step learn) undisturbed (boot (some "7"), fun _ => {})
      startUp).any (fun s₀ => (watch step learn s₀ (.spawn 12 .status)).any fun s₁ =>
        (runList (watch step learn) watched s₁ (steps 12 3)).any fun s =>
          holds s 10 1 && (arrived s 12).isSome) = true := by decide +kernel
  obtain ⟨s₀, hrun₀, hlist⟩ := Run.exists_of_runList hlist
  obtain ⟨s₁, hspawn, hlist⟩ := (Option.any_eq_true _ _).mp hlist
  obtain ⟨s, hrun, hs⟩ := Run.exists_of_runList hlist
  obtain ⟨hp, hstage⟩ := (Bool.and_eq_true _ _).mp hs
  have hrun := hrun.mono fun _ _ h => watched_iff.mp h
  obtain ⟨stage, hstage⟩ := Option.isSome_iff_exists.mp hstage
  have hprog := arrived_eq_some hstage
  have hreport : stage = .report (some 10) :=
    (status_sees_daemon hrun₀ hspawn hrun (holds_iff.mp hp) hprog).1 rfl
  exact ⟨s₀, s₁, s, hrun₀, hspawn, hrun, hreport ▸ hprog⟩

end Service

end DiscordAgent
