import DiscordAgent.Service.Basic

/-!
# One daemon at a time

`start` looks for a running daemon, and later writes its own pid; every command
that finds a stale pid file removes it one operation later. Nothing locks the
file in between.

Specification: `Service.undisturbed`, every process that changes the pid file
finds it as it takes it to be.

Results:
* `Service.daemon_named`: in every run whose steps are undisturbed, the pid file
  contains the pid of every daemon between its write and its removal of the file.
  So there is at most one.
* `Service.two_daemons`: two overlapping starts lead to two daemons.
-/

namespace DiscordAgent

open Interleave HostProg

/-- The text is not the pid of any process. -/
def PidFile.Mute (f : PidFile) : Prop := ∀ p : ℕ, 0 < p → p < 2 ^ 31 → f.text ≠ toString p

theorem PidFile.mute_empty (ino : ℕ) : Mute ⟨ino, ""⟩ := by
  intro p _ _ h
  exact Nat.repr_ne_empty h.symm

theorem PidFile.mute_zero {f : PidFile} (h : readPid f = .ok 0) : f.Mute := by
  rintro p hpos hlt htext
  have hread : readPid f = .ok (p : ℤ) := by
    obtain ⟨ino, text⟩ := f
    obtain rfl : text = toString p := htext
    exact readPid_toString hlt
  rw [hread] at h
  have hp : (p : ℤ) = 0 := Except.ok.inj h
  omega

theorem toString_inj {p q : ℕ} (h : (toString p : String) = toString q) : p = q := by
  have hdigits := congrArg (fun s => Nat.ofDigitChars 10 s.toList 0) h
  simpa only [Nat.toString_eq_ofList_toDigits, String.toList_ofList,
    Nat.ofDigitChars_ten_toDigits] using hdigits

/-! ## What an operation does -/

namespace Host

variable {h : Host} {i : HostInputs} {p : ℕ} {q q' : Process}

/-- The processes of `h'` are processes of `h`, and those that have stopped their
    workers have done so for good. -/
def Within (h' h : Host) : Prop :=
  ∀ p q', h'.processes p = some q' →
    ∃ q, h.processes p = some q ∧ q'.mine = q.mine ∧ (q.cleaned = true → q'.cleaned = true)

theorem Within.refl (h : Host) : h.Within h := fun _ q' hq => ⟨q', hq, rfl, id⟩

theorem Within.trans {h h' h'' : Host} (h₁ : h''.Within h') (h₂ : h'.Within h) : h''.Within h := by
  intro p q'' hq''
  obtain ⟨q', hq', hmine', hcleaned'⟩ := h₁ p q'' hq''
  obtain ⟨q, hq, hmine, hcleaned⟩ := h₂ p q' hq'
  exact ⟨q, hq, hmine'.trans hmine, hcleaned' ∘ hcleaned⟩

theorem Within.isSome {h' : Host} (hw : h'.Within h) (hp : (h'.processes p).isSome) :
    (h.processes p).isSome := by
  obtain ⟨q', hq'⟩ := Option.isSome_iff_exists.mp hp
  obtain ⟨q, hq, -⟩ := hw p q' hq'
  simp [hq]

theorem within_remove (h : Host) (p : ℕ) : (h.remove p).Within h := by
  intro r q' hq
  rw [remove_processes] at hq
  split_ifs at hq
  exact ⟨q', hq, rfl, id⟩

theorem within_modify (h : Host) (p : ℕ) {f : Process → Process}
    (hf : ∀ q, (f q).mine = q.mine ∧ (q.cleaned = true → (f q).cleaned = true)) :
    (h.modify p f).Within h := by
  intro r q' hq
  rw [modify_processes] at hq
  split_ifs at hq with hr
  · obtain ⟨q, hold, rfl⟩ := Option.map_eq_some_iff.mp hq
    exact ⟨q, hr ▸ hold, hf q⟩
  · exact ⟨q', hq, rfl, id⟩

theorem within_deliver (h : Host) (p : ℕ) : (h.deliver p).Within h := by
  unfold deliver
  split
  · exact .refl h
  · split_ifs
    · exact within_modify h p fun _ => ⟨rfl, id⟩
    · exact within_remove h p

theorem deliver_file (h : Host) (p : ℕ) :
    (h.deliver p).pidFile = h.pidFile ∧ (h.deliver p).nextIno = h.nextIno := by
  unfold deliver
  split
  · exact ⟨rfl, rfl⟩
  · split_ifs <;> exact ⟨rfl, rfl⟩

theorem foldl_deliver (ps : List ℕ) (h : Host) :
    (ps.foldl deliver h).Within h ∧ (ps.foldl deliver h).pidFile = h.pidFile ∧
      (ps.foldl deliver h).nextIno = h.nextIno := by
  induction ps generalizing h with
  | nil => exact ⟨.refl h, rfl, rfl⟩
  | cons p ps ih =>
    obtain ⟨hw, hf, hn⟩ := ih (h.deliver p)
    obtain ⟨hf', hn'⟩ := deliver_file h p
    exact ⟨hw.trans (within_deliver h p), hf.trans hf', hn.trans hn'⟩

/-- An operation that leaves the pid file alone. -/
theorem exec_quiet {o : HostOp} (ho : o.changesFile = false) (i : HostInputs) (h : Host) :
    (hostExec o i h).2.Within h ∧ (hostExec o i h).2.pidFile = h.pidFile ∧
      (hostExec o i h).2.nextIno = h.nextIno := by
  cases o with
  | unlinkPidFile => cases ho
  | openPidFile => cases ho
  | writePidFile ino text => cases ho
  | setupSignals pid => exact ⟨within_modify h pid fun _ => ⟨rfl, id⟩, rfl, rfl⟩
  | setRunning pid => exact ⟨within_modify h pid fun _ => ⟨rfl, id⟩, rfl, rfl⟩
  | stopAll pid => exact ⟨within_modify h pid fun _ => ⟨rfl, fun _ => rfl⟩, rfl, rfl⟩
  | tick pid =>
    simp only [hostExec]
    split
    · exact ⟨.refl h, rfl, rfl⟩
    · split_ifs
      · exact ⟨within_modify h pid fun _ => ⟨rfl, id⟩, rfl, rfl⟩
      · exact ⟨.refl h, rfl, rfl⟩
  | terminate pid => exact foldl_deliver _ h
  | _ => exact ⟨.refl h, rfl, rfl⟩

theorem exec_within (o : HostOp) (i : HostInputs) (h : Host) : (hostExec o i h).2.Within h := by
  cases ho : o.changesFile with
  | false => exact (exec_quiet ho i h).1
  | true =>
    cases o with
    | openPidFile =>
      change (h.openPidFile).2.Within h
      unfold openPidFile
      split <;> exact fun _ q hq => ⟨q, hq, rfl, id⟩
    | writePidFile ino text => exact fun _ q hq => ⟨q, hq, rfl, id⟩
    | unlinkPidFile => exact fun _ q hq => ⟨q, hq, rfl, id⟩
    | _ => cases ho

/-- `os.kill(pid, 0)` finds a process of this user. -/
theorem kill_ok (hq : h.processes p = some q) (hmine : q.mine = true) (hpos : 0 < p)
    (hlt : p < 2 ^ 31) (i : HostInputs) : h.kill i p = .ok () := by
  unfold kill
  rw [if_neg (by omega), if_neg (by omega)]
  simp [hq, hmine]

end Host

namespace Look

variable {l : Look} {h : Host} {i : HostInputs} {o : HostOp} {p : ℕ} {f : PidFile}

theorem pidFileExists_some (hf : h.pidFile = some f) :
    (hostExec .pidFileExists i h).1 = true := by
  cases h
  subst hf
  rfl

theorem readPidFile_none (hf : h.pidFile = none) :
    (hostExec .readPidFile i h).1 = .error .fileNotFound := by
  cases h
  subst hf
  rfl

theorem readPidFile_some (hf : h.pidFile = some f) : (hostExec .readPidFile i h).1 = .ok f := by
  cases h
  subst hf
  rfl

theorem file_next (ho : o.changesFile = false)
    (hf : (l.next o (hostExec o i h).1).file = some f) : l.file = some f ∨ h.pidFile = some f := by
  cases o with
  | unlinkPidFile => cases ho
  | openPidFile => cases ho
  | writePidFile ino text => cases ho
  | pidFileExists =>
    generalize (hostExec .pidFileExists i h).1 = found at hf
    cases found <;> cases hf
  | readPidFile =>
    cases hfile : h.pidFile with
    | none =>
      rw [readPidFile_none hfile] at hf
      cases hf
    | some f' =>
      rw [readPidFile_some hfile, next_readPidFile] at hf
      split_ifs at hf <;> exact .inr hf
  | probe pid =>
    generalize (hostExec (.probe pid) i h).1 = r at hf
    cases l with
    | read f' =>
      cases r with
      | ok _ => exact .inl hf
      | error e =>
        rw [next_probe_error] at hf
        split_ifs at hf
        · exact .inl hf
        · cases hf
    | _ => exact .inl hf
  | stopAll pid =>
    cases l with
    | holding ino b => cases hf
    | _ => exact .inl hf
  | _ => exact .inl hf

theorem held_next (ho : o.changesFile = false) {ino : ℕ} {r : o.Res}
    (hf : (l.next o r).held = some ino) : l.held = some ino := by
  cases o with
  | unlinkPidFile => cases ho
  | openPidFile => cases ho
  | writePidFile ino text => cases ho
  | pidFileExists => cases r <;> cases hf
  | readPidFile =>
    cases r with
    | error e => cases hf
    | ok f =>
      rw [next_readPidFile] at hf
      split_ifs at hf <;> cases hf
  | probe pid =>
    cases l with
    | read f' =>
      cases r with
      | ok _ => cases hf
      | error e =>
        rw [next_probe_error] at hf
        split_ifs at hf <;> cases hf
    | _ => exact hf
  | stopAll pid => cases l <;> exact hf
  | _ => exact hf

theorem saw_of_target {t : Track} {o : HostOp} {r : o.Res} (ht : t.target o r = some f) :
    t.Saw f := by
  unfold Track.target at ht
  split at ht
  · split at ht
    · next f' hl =>
      cases ht
      exact .inl (by rw [hl]; rfl)
    · exact .inr ht
  · exact .inr ht

theorem saw_next {t : Track} (ho : o.changesFile = false)
    (hf : ((pidMonitor p).next t o (hostExec o i h).1).Saw f) : t.Saw f ∨ h.pidFile = some f := by
  rcases hf with hf | hf
  · exact (file_next ho hf).imp_left .inl
  · exact .inl (saw_of_target hf)

/-- How a process comes to remove a stale file. -/
theorem stale_next (ho : o.changesFile = false) (hok : l.Allows p o)
    (hf : l.next o (hostExec o i h).1 = stale f) :
    l = stale f ∨ (∃ e, readPid f = .error e) ∨
      (l = read f ∧ ∃ pid e, readPid f = .ok pid ∧ h.kill i pid = .error e) := by
  cases o with
  | unlinkPidFile => cases ho
  | openPidFile => cases ho
  | writePidFile ino text => cases ho
  | pidFileExists =>
    generalize (hostExec .pidFileExists i h).1 = found at hf
    cases found <;> cases hf
  | readPidFile =>
    cases hfile : h.pidFile with
    | none =>
      rw [readPidFile_none hfile] at hf
      cases hf
    | some f' =>
      rw [readPidFile_some hfile, next_readPidFile] at hf
      split_ifs at hf with hread
      cases hf
      cases hpid : readPid f with
      | error e => exact .inr (.inl ⟨e, rfl⟩)
      | ok pid => simp [hpid, Except.toBool] at hread
  | probe pid =>
    obtain ⟨f', rfl, hpid⟩ := hok
    have hkill : (hostExec (.probe pid) i h).1 = h.kill i pid := rfl
    rw [hkill] at hf
    cases hr : h.kill i pid with
    | ok a =>
      rw [hr] at hf
      cases hf
    | error e =>
      rw [hr, next_probe_error] at hf
      split_ifs at hf
      cases hf
      exact .inr (.inr ⟨rfl, pid, e, hpid, hr⟩)
  | stopAll pid =>
    cases l with
    | holding ino b => cases hf
    | _ => exact .inl hf
  | _ => exact .inl hf

end Look

namespace Service

variable {c c' : Service} {g g' : ℕ → Track} {p : ℕ} {o : HostOp} {i : HostInputs} {e : HostEvent}

/-! ## The invariant -/

/-- What holds between the pid file, the processes and what they know. -/
structure Sound (c : Service) (g : ℕ → Track) : Prop where
  tracks : ∀ p, (c.shared.processes p).isSome → Tracks p (c.prog p) (g p)
  pids : ∀ p, (c.shared.processes p).isSome → 0 < p ∧ p < 2 ^ 31
  /-- A process of another program has no part in the protocol. -/
  mine : ∀ p q, c.shared.processes p = some q →
    q.mine = true ∨ (g p).look = .nothing ∧ c.prog p = .ret (.exit 0)
  owner : ∀ p ino, c.Holds g p ino → c.shared.pidFile = some ⟨ino, toString p⟩
  /-- No process is about to remove the file of a daemon. -/
  doomed : ∀ q f, (g q).look = .stale f → ∀ p ino, c.Holds g p ino → f ≠ ⟨ino, toString p⟩
  fresh : ∀ f, (c.shared.pidFile = some f ∨ ∃ q, (g q).Saw f) → f.ino < c.shared.nextIno
  /-- As long as no pid is in the file, no process has seen one there. -/
  mute : ∀ q f f', (g q).Saw f → c.shared.pidFile = some f' → f.ino = f'.ino → f'.Mute → f.Mute

/-- A step that leaves the pid file alone. -/
theorem Sound.carry (h : c.Sound g) (hfile : c'.shared.pidFile = c.shared.pidFile)
    (hino : c'.shared.nextIno = c.shared.nextIno)
    (htracks : ∀ p, (c'.shared.processes p).isSome → Tracks p (c'.prog p) (g' p))
    (hpids : ∀ p, (c'.shared.processes p).isSome → 0 < p ∧ p < 2 ^ 31)
    (hmine : ∀ p q, c'.shared.processes p = some q →
      q.mine = true ∨ (g' p).look = .nothing ∧ c'.prog p = .ret (.exit 0))
    (hholds : ∀ p ino, c'.Holds g' p ino → c.Holds g p ino)
    (hseen : ∀ q f, (g' q).Saw f → (∃ q, (g q).Saw f) ∨ c.shared.pidFile = some f)
    (hdoomed : ∀ q f, (g' q).look = .stale f →
      (∃ q, (g q).look = .stale f) ∨ ∀ p ino, c.Holds g p ino → f ≠ ⟨ino, toString p⟩) :
    c'.Sound g' := by
  refine ⟨htracks, hpids, hmine, ?_, ?_, ?_, ?_⟩
  · intro p ino hp
    rw [hfile]
    exact h.owner p ino (hholds p ino hp)
  · intro q f hq p ino hp
    rcases hdoomed q f hq with ⟨q', hq'⟩ | hq'
    · exact h.doomed q' f hq' p ino (hholds p ino hp)
    · exact hq' p ino (hholds p ino hp)
  · intro f hf
    rw [hfile] at hf
    rw [hino]
    rcases hf with hf | ⟨q, hf⟩
    · exact h.fresh f (.inl hf)
    · exact h.fresh f ((hseen q f hf).symm)
  · intro q f f' hf hf' hinos hmute
    rw [hfile] at hf'
    rcases hseen q f hf with ⟨q', hq'⟩ | hf
    · exact h.mute q' f f' hq' hf' hinos hmute
    · rw [hf] at hf'
      cases hf'
      exact hmute

/-- A process of the protocol that is about to do something. -/
theorem Sound.mine_of_next (h : c.Sound g) {q : Process} (hq : c.shared.processes p = some q)
    (hn : c.next? p = some o) : q.mine = true := by
  refine (h.mine p q hq).resolve_right ?_
  rintro ⟨-, hprog⟩
  simp [Pool.next?, hprog] at hn

/-- The process named in the file of a daemon is found. -/
theorem Sound.kill_owner (h : c.Sound g) {ino : ℕ} (hp : c.Holds g p ino) (i : HostInputs) :
    c.shared.kill i p = .ok () := by
  obtain ⟨hlive, hheld⟩ := hp
  obtain ⟨q, hq⟩ := Option.isSome_iff_exists.mp hlive
  obtain ⟨hpos, hlt⟩ := h.pids p hlive
  refine Host.kill_ok hq ((h.mine p q hq).resolve_right ?_) hpos hlt i
  rintro ⟨hlook, -⟩
  rw [hlook] at hheld
  cases hheld

theorem answers_exec (o : HostOp) (i : HostInputs) (h : Host) :
    (pidMonitor p).answers o (hostExec o i h).1 := by
  cases o with
  | readPidFile =>
    cases hf : h.pidFile with
    | none =>
      rw [Look.readPidFile_none hf]
      rfl
    | some f =>
      rw [Look.readPidFile_some hf]
      trivial
  | _ => trivial

theorem learn_run (hn : c.next? p = some o) (i : HostInputs) (g : ℕ → Track) :
    learn c (.run p i) g =
      Function.update g p ((pidMonitor p).next (g p) o (hostExec o i c.shared).1) := by
  simp only [learn, hn]

/-- An operation is allowed by the monitor of its process. -/
theorem Sound.allows (h : c.Sound g) (hlive : (c.shared.processes p).isSome)
    (hs : Pool.step hostExec c p i = some c') (hn : c.next? p = some o) :
    (g p).look.Allows p o := (Pool.follows_step hs hn (answers_exec o i _) (h.tracks p hlive)).1

/-- An operation of process `p` and the programs of all processes. -/
theorem Sound.progs (h : c.Sound g) (hs : Pool.step hostExec c p i = some c')
    (hn : c.next? p = some o) :
    (∀ r, (c'.shared.processes r).isSome → Tracks r (c'.prog r) (learn c (.run p i) g r)) ∧
      (∀ r, (c'.shared.processes r).isSome → 0 < r ∧ r < 2 ^ 31) ∧
        (∀ r q, c'.shared.processes r = some q →
          q.mine = true ∨ (learn c (.run p i) g r).look = .nothing ∧
            c'.prog r = .ret (.exit 0)) := by
  obtain ⟨-, -, -, -, -, -, hother⟩ := Pool.step_cases hs
  have hw := Host.exec_within o i c.shared
  rw [← Pool.shared_step hs hn] at hw
  have hlive := fun r (hr : (c'.shared.processes r).isSome) => hw.isSome hr
  rw [learn_run hn]
  refine ⟨?_, fun r hr => h.pids r (hlive r hr), ?_⟩
  · intro r hr
    by_cases hrp : r = p
    · subst hrp
      rw [Function.update_self]
      exact (Pool.follows_step hs hn (answers_exec o i _) (h.tracks r (hlive r hr))).2
    · rw [Function.update_of_ne hrp, hother r hrp]
      exact h.tracks r (hlive r hr)
  · intro r q' hq'
    obtain ⟨q, hq, hmine, -⟩ := hw r q' hq'
    by_cases hrp : r = p
    · subst hrp
      exact .inl (hmine.trans (h.mine_of_next hq hn))
    · rw [Function.update_of_ne hrp, hother r hrp, hmine]
      exact h.mine r q hq

/-- An operation that leaves the pid file alone makes nobody a daemon. -/
theorem holds_quiet (hs : Pool.step hostExec c p i = some c') (hn : c.next? p = some o)
    (ho : o.changesFile = false) {r ino : ℕ} (hr : c'.Holds (learn c (.run p i) g) r ino) :
    c.Holds g r ino := by
  have hw := (Host.exec_quiet ho i c.shared).1
  rw [← Pool.shared_step hs hn] at hw
  obtain ⟨hlive, hheld⟩ := hr
  refine ⟨hw.isSome hlive, ?_⟩
  rw [learn_run hn] at hheld
  by_cases hrp : r = p
  · subst hrp
    rw [Function.update_self] at hheld
    exact Look.held_next ho hheld
  · rwa [Function.update_of_ne hrp] at hheld

/-- An operation that leaves the pid file alone. -/
theorem Sound.quiet (h : c.Sound g) (hlive : (c.shared.processes p).isSome)
    (hs : Pool.step hostExec c p i = some c') (hn : c.next? p = some o)
    (ho : o.changesFile = false) : c'.Sound (learn c (.run p i) g) := by
  obtain ⟨-, hfile, hino⟩ := Host.exec_quiet ho i c.shared
  rw [← Pool.shared_step hs hn] at hfile hino
  have hok := h.allows hlive hs hn
  obtain ⟨htracks, hpids, hmine⟩ := h.progs hs hn
  refine h.carry hfile hino htracks hpids hmine (fun r ino => holds_quiet hs hn ho) ?_ ?_ <;>
    rw [learn_run hn]
  · intro q f hq
    by_cases hqp : q = p
    · subst hqp
      rw [Function.update_self] at hq
      exact (Look.saw_next ho hq).imp_left fun hq => ⟨q, hq⟩
    · rw [Function.update_of_ne hqp] at hq
      exact .inl ⟨q, hq⟩
  · intro q f hq
    by_cases hqp : q = p
    · subst hqp
      rw [Function.update_self] at hq
      rcases Look.stale_next ho hok hq with hq | ⟨e, he⟩ | ⟨-, pid, e, hpid, he⟩
      · exact .inl ⟨q, hq⟩
      · refine .inr fun r ino hr hf => ?_
        rw [hf, readPid_toString (h.pids r hr.1).2] at he
        cases he
      · refine .inr fun r ino hr hf => ?_
        rw [hf, readPid_toString (h.pids r hr.1).2] at hpid
        cases hpid
        rw [h.kill_owner hr i] at he
        cases he
    · rw [Function.update_of_ne hqp] at hq
      exact .inl ⟨q, hq⟩

/-! ## Operations on the pid file -/

/-- The pid file is as the process takes it to be. -/
theorem expects_of_undisturbed {l : Option PidFile} (hn : c.next? p = some o)
    (ho : o.changesFile = true) (hok : undisturbed (c, g) (.run p i) = true)
    (hl : (g p).look.expects = some l) : c.shared.pidFile = l := by
  simp only [undisturbed, hn, ho, hl] at hok
  have hexpected : l = c.shared.pidFile := by simpa using hok
  exact hexpected.symm

/-- The pid file of a daemon reads as its pid. -/
theorem Sound.readPid_owner (h : c.Sound g) {ino : ℕ} {f : PidFile} (hp : c.Holds g p ino)
    (hf : c.shared.pidFile = some f) : readPid f = .ok (p : ℤ) := by
  have howner := h.owner p ino hp
  rw [hf] at howner
  cases howner
  exact readPid_toString (h.pids p hp.1).2

theorem Sound.holder_unique (h : c.Sound g) {q m n : ℕ} (hp : c.Holds g p m)
    (hq : c.Holds g q n) : p = q := by
  have howner := h.owner p m hp
  rw [h.owner q n hq] at howner
  exact toString_inj (congrArg PidFile.text (Option.some.inj howner)).symm

/-- `start` goes on only while no daemon has its pid in the file. -/
theorem Sound.no_holder (h : c.Sound g) (hlook : (g p).look.Clear)
    (hexp : ∀ l, (g p).look.expects = some l → c.shared.pidFile = l) {q ino : ℕ} :
    ¬ c.Holds g q ino := by
  intro hq
  rcases hlook with hl | ⟨f, hl, hzero⟩
  · have hnone := hexp none (by rw [hl]; rfl)
    rw [h.owner q ino hq] at hnone
    cases hnone
  · have hfile := hexp (some f) (by rw [hl]; rfl)
    have hread := h.readPid_owner hq hfile
    rw [hzero] at hread
    have hpos := (h.pids q hq.1).1
    have hq0 : (0 : ℤ) = q := Except.ok.inj hread
    omega

theorem learn_other (hn : c.next? p = some o) {q : ℕ} (hq : q ≠ p) (i : HostInputs)
    (g : ℕ → Track) : learn c (.run p i) g q = g q := by
  rw [learn_run hn, Function.update_of_ne hq]

theorem learn_self (hn : c.next? p = some o) (i : HostInputs) (g : ℕ → Track) :
    (learn c (.run p i) g p).look = (g p).look.next o (hostExec o i c.shared).1 := by
  rw [learn_run hn, Function.update_self]
  rfl

/-- A step that changes the pid file. Afterwards process `p` has its own view of the
    file. -/
theorem Sound.change (h : c.Sound g) (hs : Pool.step hostExec c p i = some c')
    (hn : c.next? p = some o)
    (hself : (learn c (.run p i) g p).look.file = none)
    (howner : ∀ q ino, c'.Holds (learn c (.run p i) g) q ino →
      c'.shared.pidFile = some ⟨ino, toString q⟩)
    (hdoomed : ∀ q f, (g q).look = .stale f → ∀ r ino, c'.Holds (learn c (.run p i) g) r ino →
      f ≠ ⟨ino, toString r⟩)
    (hino : c.shared.nextIno ≤ c'.shared.nextIno)
    (hbound : ∀ f, c'.shared.pidFile = some f → f.ino < c'.shared.nextIno)
    (hmute : ∀ q f f', (g q).Saw f → c'.shared.pidFile = some f' → f.ino = f'.ino →
      f'.Mute → f.Mute) : c'.Sound (learn c (.run p i) g) := by
  obtain ⟨htracks, hpids, hmine⟩ := h.progs hs hn
  have hseen : ∀ q f, (learn c (.run p i) g q).Saw f → (g q).Saw f := by
    intro q f hf
    by_cases hqp : q = p
    · subst hqp
      refine hf.elim (fun hf => ?_) fun hf => ?_
      · rw [hself] at hf
        cases hf
      · rw [learn_run hn, Function.update_self] at hf
        exact Look.saw_of_target hf
    · rwa [learn_other hn hqp] at hf
  refine ⟨htracks, hpids, hmine, howner, ?_, ?_, ?_⟩
  · intro q f hq
    by_cases hqp : q = p
    · rw [hqp] at hq
      rw [hq] at hself
      cases hself
    · rw [learn_other hn hqp] at hq
      exact hdoomed q f hq
  · rintro f (hf | ⟨q, hf⟩)
    · exact hbound f hf
    · exact (h.fresh f (.inr ⟨q, hseen q f hf⟩)).trans_le hino
  · intro q f f' hf
    exact hmute q f f' (hseen q f hf)

/-- The daemons after a step of a process that is none. -/
theorem holds_other (hn : c.next? p = some o)
    (hprocesses : c'.shared.processes = c.shared.processes)
    (hheld : (learn c (.run p i) g p).look.held = none) {q ino : ℕ}
    (hq : c'.Holds (learn c (.run p i) g) q ino) : q ≠ p ∧ c.Holds g q ino := by
  obtain ⟨hlive, hino⟩ := hq
  by_cases hqp : q = p
  · rw [hqp, hheld] at hino
    cases hino
  · rw [learn_other hn hqp] at hino
    exact ⟨hqp, hprocesses ▸ hlive, hino⟩

/-- `open(pid_file, "w")`. -/
theorem Sound.openPidFile (h : c.Sound g) (hlive : (c.shared.processes p).isSome)
    (hs : Pool.step hostExec c p i = some c') (hn : c.next? p = some .openPidFile)
    (hok : undisturbed (c, g) (.run p i) = true) : c'.Sound (learn c (.run p i) g) := by
  have hclear : (g p).look.Clear := h.allows hlive hs hn
  have hexp : ∀ l, (g p).look.expects = some l → c.shared.pidFile = l :=
    fun _ => expects_of_undisturbed hn rfl hok
  have hshared : c'.shared = c.shared.openPidFile.2 := Pool.shared_step hs hn
  have hprocesses : c'.shared.processes = c.shared.processes := by
    rw [hshared, Host.openPidFile]
    split <;> rfl
  have hlook : (learn c (.run p i) g p).look = .opened c.shared.openPidFile.1 := learn_self hn i g
  have hholds : ∀ q ino, ¬ c'.Holds (learn c (.run p i) g) q ino := fun q ino hq =>
    h.no_holder hclear hexp (holds_other hn hprocesses (by rw [hlook]; rfl) hq).2
  refine h.change hs hn (by rw [hlook]; rfl) (fun q ino hq => (hholds q ino hq).elim)
    (fun _ _ _ q ino hq => (hholds q ino hq).elim) ?_ ?_ ?_ <;> rw [hshared, Host.openPidFile]
  · split
    · exact le_refl _
    · exact Nat.le_succ _
  · intro f hf
    split at hf
    · next f₀ hf₀ =>
      cases hf
      exact h.fresh f₀ (.inl hf₀)
    · cases hf
      exact Nat.lt_succ_self _
  · intro q f f' hf hf' hino _
    split at hf'
    · next f₀ hf₀ =>
      cases hf'
      -- the file that is truncated reads as 0
      rcases hclear with hl | ⟨f₁, hl, hzero⟩
      · have hnone := hexp none (by rw [hl]; rfl)
        rw [hf₀] at hnone
        cases hnone
      · have hfile := hexp (some f₁) (by rw [hl]; rfl)
        rw [hf₀] at hfile
        cases hfile
        exact h.mute q f f₀ hf hf₀ hino (PidFile.mute_zero hzero)
    · cases hf'
      exact absurd hino (h.fresh f (.inr ⟨q, hf⟩)).ne

/-- `write` to the file that was opened. -/
theorem Sound.writePidFile {ino : ℕ} {text : String} (h : c.Sound g)
    (hlive : (c.shared.processes p).isSome) (hs : Pool.step hostExec c p i = some c')
    (hn : c.next? p = some (.writePidFile ino text))
    (hok : undisturbed (c, g) (.run p i) = true) : c'.Sound (learn c (.run p i) g) := by
  obtain ⟨hl, rfl⟩ := h.allows hlive hs hn
  have hfile : c.shared.pidFile = some ⟨ino, ""⟩ :=
    expects_of_undisturbed hn rfl hok (by rw [hl]; rfl)
  have hshared : c'.shared = c.shared.writePidFile ino (toString p) := Pool.shared_step hs hn
  have hfile' : c'.shared.pidFile = some ⟨ino, toString p⟩ := by
    rw [hshared, Host.writePidFile, hfile]
    simp
  have hlook : (learn c (.run p i) g p).look = .holding ino false := learn_self hn i g
  obtain ⟨hpos, hlt⟩ := h.pids p hlive
  -- no daemon had its pid in the file
  have hholds : ∀ q n, c'.Holds (learn c (.run p i) g) q n → q = p ∧ n = ino := by
    rintro q n ⟨hq, hheld⟩
    by_cases hqp : q = p
    · rw [hqp, hlook] at hheld
      cases hheld
      exact ⟨hqp, rfl⟩
    · rw [learn_other hn hqp] at hheld
      rw [hshared] at hq
      have howner := h.owner q n ⟨hq, hheld⟩
      rw [hfile] at howner
      exact absurd (congrArg PidFile.text (Option.some.inj howner)).symm Nat.repr_ne_empty
  refine h.change hs hn (by rw [hlook]; rfl) ?_ ?_ ?_ ?_ ?_
  · intro q n hq
    obtain ⟨rfl, rfl⟩ := hholds q n hq
    exact hfile'
  · rintro q f hq r n hr rfl
    obtain ⟨rfl, rfl⟩ := hholds r n hr
    have hseen : (g q).Saw ⟨n, toString r⟩ := .inl (by rw [hq]; rfl)
    exact h.mute q _ _ hseen hfile rfl (PidFile.mute_empty n) r hpos hlt rfl
  · rw [hshared]
    exact le_refl _
  · intro f hf
    rw [hfile'] at hf
    cases hf
    rw [hshared]
    exact h.fresh ⟨ino, ""⟩ (.inl hfile)
  · intro q f f' _ hf' _ hmute
    rw [hfile'] at hf'
    cases hf'
    exact absurd rfl (hmute p hpos hlt)

/-- `unlink`, of a stale file or at the end of `_run`. -/
theorem Sound.unlinkPidFile (h : c.Sound g) (hlive : (c.shared.processes p).isSome)
    (hs : Pool.step hostExec c p i = some c') (hn : c.next? p = some .unlinkPidFile)
    (hok : undisturbed (c, g) (.run p i) = true) : c'.Sound (learn c (.run p i) g) := by
  have hallows : (∃ f, (g p).look = .stale f) ∨ ∃ ino, (g p).look = .holding ino true :=
    h.allows hlive hs hn
  have hshared : c'.shared = { c.shared with pidFile := none } := Pool.shared_step hs hn
  have hprocesses : c'.shared.processes = c.shared.processes := by rw [hshared]
  have hlook : (learn c (.run p i) g p).look.file = none ∧
      (learn c (.run p i) g p).look.held = none := by
    rw [learn_self hn]
    rcases hallows with ⟨f, hl⟩ | ⟨ino, hl⟩ <;> rw [hl] <;> exact ⟨rfl, rfl⟩
  -- the file was not the file of another daemon
  have hholds : ∀ q n, ¬ c'.Holds (learn c (.run p i) g) q n := by
    intro q n hq
    obtain ⟨hqp, hqn⟩ := holds_other hn hprocesses hlook.2 hq
    rcases hallows with ⟨f, hl⟩ | ⟨ino, hl⟩
    · have hfile := expects_of_undisturbed hn rfl hok (l := some f) (by rw [hl]; rfl)
      rw [h.owner q n hqn] at hfile
      exact h.doomed p f hl q n hqn (Option.some.inj hfile).symm
    · exact hqp (h.holder_unique hqn ⟨hlive, by rw [hl]; rfl⟩)
  have hnofile : ∀ f, ¬ c'.shared.pidFile = some f := by
    intro f hf
    rw [hshared] at hf
    cases hf
  refine h.change hs hn hlook.1 (fun q n hq => (hholds q n hq).elim)
    (fun _ _ _ q n hq => (hholds q n hq).elim) ?_ (fun f hf => (hnofile f hf).elim)
    (fun _ _ f' _ hf' => (hnofile f' hf').elim)
  rw [hshared]

/-! ## The other events -/

theorem Sound.operation (h : c.Sound g) (hlive : (c.shared.processes p).isSome)
    (hs : Pool.step hostExec c p i = some c') (hok : undisturbed (c, g) (.run p i) = true) :
    c'.Sound (learn c (.run p i) g) := by
  obtain ⟨o, -, -, hn, -, -, -⟩ := Pool.step_cases hs
  by_cases ho : o.changesFile = true
  · cases o with
    | openPidFile => exact h.openPidFile hlive hs hn hok
    | writePidFile ino text => exact h.writePidFile hlive hs hn hok
    | unlinkPidFile => exact h.unlinkPidFile hlive hs hn hok
    | _ => cases ho
  · exact h.quiet hlive hs hn (Bool.not_eq_true _ ▸ ho)

/-- A process ends or is killed. -/
theorem Sound.remove (h : c.Sound g) (p : ℕ) :
    Sound { c with shared := c.shared.remove p } g := by
  have hw := Host.within_remove c.shared p
  have hlive := fun r (hr : ((c.shared.remove p).processes r).isSome) => hw.isSome hr
  refine h.carry rfl rfl (fun r hr => h.tracks r (hlive r hr)) (fun r hr => h.pids r (hlive r hr))
    ?_ (fun r ino hr => ⟨hlive r hr.1, hr.2⟩) (fun q f hq => .inl ⟨q, hq⟩)
    fun q f hq => .inl ⟨q, hq⟩
  intro r q' hq'
  obtain ⟨q, hq, hmine, -⟩ := hw r q' hq'
  rw [hmine]
  exact h.mine r q hq

/-- The next round of the loop of `_run`, or its end. -/
theorem Sound.round (h : c.Sound g) {q : Process} (hq : c.shared.processes p = some q)
    (hp : c.prog p = .ret .loop) :
    Sound (Pool.load c p (if q.running then HostProg.round p else cleanUp p 0)) g := by
  have hloop : HostStage.Knows .loop (g p) := by
    have htracks := h.tracks p (by simp [hq])
    rw [hp] at htracks
    exact htracks
  have hprog : Tracks p (if q.running then HostProg.round p else cleanUp p 0) (g p) := by
    split_ifs
    · exact follows_round hloop
    · obtain ⟨⟨ino, hino⟩, hsig⟩ := hloop
      exact follows_cleanUp hino hsig
  refine h.carry rfl rfl ?_ h.pids ?_ (fun r ino hr => hr) (fun q f hq => .inl ⟨q, hq⟩)
    fun q f hq => .inl ⟨q, hq⟩
  · intro r hr
    by_cases hrp : r = p
    · subst hrp
      rw [Pool.load_prog_self]
      exact hprog
    · rw [Pool.load_prog_of_ne _ _ hrp]
      exact h.tracks r hr
  · intro r q' hq'
    by_cases hrp : r = p
    · subst hrp
      refine .inl ((h.mine r q' hq').resolve_right ?_)
      rintro ⟨-, hexit⟩
      rw [hp] at hexit
      cases hexit
    · rw [Pool.load_prog_of_ne _ _ hrp]
      exact h.mine r q' hq'

theorem free_iff : c.free p = true ↔ c.shared.processes p = none ∧ 0 < p ∧ p < 2 ^ 31 := by
  simp [free, and_assoc]

/-- A process starts with a program that follows the monitor. -/
theorem Sound.launch (h : c.Sound g) (hfree : c.free p = true) {q : Process}
    {prog : HostProg HostStage} {t : Track} (hprog : Tracks p prog t)
    (hmine : q.mine = true ∨ t.look = .nothing ∧ prog = .ret (.exit 0)) (hheld : t.look.held = none)
    (hlook : t.look = .nothing ∨ ∃ r, t.look = (g r).look) (hsig : t.signalled = none) :
    (c.launch p q prog).Sound (Function.update g p t) := by
  obtain ⟨-, hpos, hlt⟩ := free_iff.mp hfree
  have hsaw : ∀ r, (Function.update g p t r).look = .nothing ∨
      ∃ r', (Function.update g p t r).look = (g r').look := by
    intro r
    by_cases hrp : r = p
    · subst hrp
      rw [Function.update_self]
      exact hlook
    · rw [Function.update_of_ne hrp]
      exact .inr ⟨r, rfl⟩
  have hlive : ∀ r, r ≠ p → (c.launch p q prog).shared.processes r = c.shared.processes r := by
    intro r hrp
    exact (Host.add_processes _ _ _ _).trans (if_neg hrp)
  refine h.carry rfl rfl ?_ ?_ ?_ ?_ ?_ ?_
  · intro r hr
    by_cases hrp : r = p
    · subst hrp
      rw [Function.update_self, Service.launch, Pool.load_prog_self]
      exact hprog
    · rw [hlive r hrp] at hr
      rw [Function.update_of_ne hrp, Service.launch, Pool.load_prog_of_ne _ _ hrp]
      exact h.tracks r hr
  · intro r hr
    by_cases hrp : r = p
    · exact hrp ▸ ⟨hpos, hlt⟩
    · rw [hlive r hrp] at hr
      exact h.pids r hr
  · intro r q' hq'
    by_cases hrp : r = p
    · subst hrp
      have hq : (c.launch r q prog).shared.processes r = some q :=
        (Host.add_processes _ _ _ _).trans (if_pos rfl)
      rw [hq] at hq'
      cases hq'
      rw [Function.update_self, Service.launch, Pool.load_prog_self]
      exact hmine
    · rw [hlive r hrp] at hq'
      rw [Function.update_of_ne hrp, Service.launch, Pool.load_prog_of_ne _ _ hrp]
      exact h.mine r q' hq'
  · rintro r ino ⟨hr, hino⟩
    by_cases hrp : r = p
    · subst hrp
      rw [Function.update_self, hheld] at hino
      cases hino
    · rw [hlive r hrp] at hr
      rw [Function.update_of_ne hrp] at hino
      exact ⟨hr, hino⟩
  · rintro r f (hf | hf)
    · rcases hsaw r with hr | ⟨r', hr⟩ <;> rw [hr] at hf
      · cases hf
      · exact .inl ⟨r', .inl hf⟩
    · by_cases hrp : r = p
      · rw [hrp, Function.update_self, hsig] at hf
        cases hf
      · rw [Function.update_of_ne hrp] at hf
        exact .inl ⟨r, .inr hf⟩
  · intro r f hf
    rcases hsaw r with hr | ⟨r', hr⟩ <;> rw [hr] at hf
    · cases hf
    · exact .inl ⟨r', hf⟩

/-- `os.fork()`: the parent is done, the child goes on with what it knows. -/
theorem Sound.fork (h : c.Sound g) {child : ℕ} (hlive : (c.shared.processes p).isSome)
    (hp : c.prog p = .ret .fork) (hfree : c.free child = true) :
    (Service.launch (Pool.load c p (.ret (.exit 0))) child {} (detached child)).Sound
      (learn c (.fork p child) g) := by
  have hclear : (g p).look.Clear := by
    have htracks := h.tracks p hlive
    rw [hp] at htracks
    exact htracks
  have hparent : Sound (Pool.load c p (.ret (.exit 0))) g := by
    refine h.carry rfl rfl ?_ h.pids ?_ (fun r ino hr => hr) (fun q f hq => .inl ⟨q, hq⟩)
      fun q f hq => .inl ⟨q, hq⟩
    · intro r hr
      by_cases hrp : r = p
      · subst hrp
        rw [Pool.load_prog_self]
        exact ⟨hclear.held, fun _ _ => hclear⟩
      · rw [Pool.load_prog_of_ne _ _ hrp]
        exact h.tracks r hr
    · intro r q' hq'
      by_cases hrp : r = p
      · subst hrp
        refine .inl ((h.mine r q' hq').resolve_right ?_)
        rintro ⟨-, hexit⟩
        rw [hp] at hexit
        cases hexit
      · rw [Pool.load_prog_of_ne _ _ hrp]
        exact h.mine r q' hq'
  exact hparent.launch (t := { look := (g p).look }) hfree (follows_detached hclear rfl) (.inl rfl)
    hclear.held (.inr ⟨p, rfl⟩) rfl

theorem Sound.step (h : c.Sound g) (hok : undisturbed (c, g) e = true)
    (hs : step c e = some c') : c'.Sound (learn c e g) := by
  cases move_of_step hs with
  | operation hlive hs => exact h.operation hlive hs hok
  | round hq hp => exact h.round hq hp
  | ended => exact h.remove _
  | fork hlive hp hfree => exact h.fork hlive hp hfree
  | spawn hfree => exact h.launch hfree (follows_prog _) (.inl rfl) rfl (.inl rfl) rfl
  | foreign hfree =>
    exact h.launch hfree (t := {}) ⟨rfl, fun hsome => by cases hsome⟩ (.inr ⟨rfl, rfl⟩) rfl
      (.inl rfl) rfl
  | die => exact h.remove _

theorem sound_boot (file : Option String) : (boot file).Sound fun _ => {} where
  tracks p hp := by cases hp
  pids p hp := by cases hp
  mine p q hq := by cases hq
  owner p ino hp := by cases hp.2
  doomed q f hq := by cases hq
  fresh f hf := by
    rcases hf with hf | ⟨q, hf⟩
    · obtain ⟨text, -, rfl⟩ := Option.map_eq_some_iff.mp hf
      exact Nat.zero_lt_one
    · rcases hf with hf | hf <;> cases hf
  mute q f f' hf := by rcases hf with hf | hf <;> cases hf

/-! ## Runs -/

/-- The runs of the machine, with what the processes know. -/
abbrev Runs (ok : Service × (ℕ → Track) → HostEvent → Prop) :
    Service × (ℕ → Track) → Service × (ℕ → Track) → Prop := Run (watch step learn) ok

theorem Sound.run (h : c.Sound g)
    (hrun : Runs (fun s e => undisturbed s e = true) (c, g) (c', g')) :
    c'.Sound g' := hrun.watch_invariant (I := Sound) (fun _ _ _ _ hi hok hs => hi.step hok hs) h

/-- In every run in which each process that changes the pid file finds it as it
    takes it to be, the pid file contains the pid of every daemon that has written it
    and not removed it, so there is at most one such daemon. -/
theorem daemon_named {file : Option String} (hrun : Runs (fun s e => undisturbed s e = true)
      (boot file, fun _ => {}) (c, g)) {ino : ℕ} (hp : c.Holds g p ino) :
    c.shared.pidFile = some ⟨ino, toString p⟩ ∧ ∀ q n, c.Holds g q n → q = p := by
  have h := (sound_boot file).run hrun
  exact ⟨h.owner p ino hp, fun q n hq => h.holder_unique hq hp⟩

/-! ## Concrete runs -/

/-- Process `p` performs its next `n` operations. -/
def steps (p n : ℕ) : List HostEvent := List.replicate n (.run p {})

/-- Daemon 10 starts in the foreground and arrives at its loop; there was a pid file
    of process 7, which is gone. -/
def startUp : List HostEvent := .spawn 10 (.start true) :: steps 10 10

/-- Daemons 10 and 11 start at the same time. -/
def overlap : List HostEvent :=
  [.spawn 10 (.start true), .spawn 11 (.start true), .run 10 {}, .run 11 {}] ++ steps 10 6 ++
    steps 11 6

/-- Process `p` has inode `ino` as its pid file. -/
def holds (s : Service × (ℕ → Track)) (p ino : ℕ) : Bool :=
  (s.1.shared.processes p).isSome && (s.2 p).look.held == some ino

theorem holds_iff {s : Service × (ℕ → Track)} {ino : ℕ} :
    holds s p ino = true ↔ s.1.Holds s.2 p ino := by
  simp [holds, Holds]

theorem daemon_named_startUp : ∃ c g, Runs (fun s e => undisturbed s e = true)
    (boot (some "7"), fun _ => {}) (c, g) ∧ c.Holds g 10 1 ∧
      c.shared.pidFile = some ⟨1, toString 10⟩ ∧ ∀ q n, c.Holds g q n → q = 10 := by
  have hlist : (runList (watch step learn) undisturbed (boot (some "7"), fun _ => {}) startUp).any
      (holds · 10 1) = true := by decide +kernel
  obtain ⟨⟨c, g⟩, hrun, hc⟩ := Run.exists_of_runList hlist
  exact ⟨c, g, hrun, holds_iff.mp hc, daemon_named hrun (holds_iff.mp hc)⟩

/-- Two starts that overlap lead to two daemons. -/
theorem two_daemons : ∃ c g, Runs (fun _ _ => True) (boot none, fun _ => {}) (c, g) ∧
    c.Holds g 10 1 ∧ c.Holds g 11 1 := by
  have hlist : (runList (watch step learn) (fun _ _ => true) (boot none, fun _ => {}) overlap).any
      (fun s => holds s 10 1 && holds s 11 1) = true := by decide +kernel
  obtain ⟨⟨c, g⟩, hrun, hc⟩ := Run.exists_of_runList hlist
  obtain ⟨h10, h11⟩ := (Bool.and_eq_true _ _).mp hc
  exact ⟨c, g, hrun.mono fun _ _ _ => trivial, holds_iff.mp h10, holds_iff.mp h11⟩

end Service

end DiscordAgent
