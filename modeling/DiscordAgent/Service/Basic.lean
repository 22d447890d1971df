import DiscordAgent.Interleave.Monitor
import DiscordAgent.Interleave.Watch
import DiscordAgent.Model.PidFile

/-!
# What a process knows of the pid file

The lifecycle functions look at the pid file in one operation and act on what
they saw in a later one. `Track` records what a process has last seen of the
file and what it has made of it; `pidMonitor` is how the operations of a process
move it. The programs of the commands follow the monitor, whatever the other
processes do in between.

Results:
* `Service.follows_prog`: every command follows the monitor; so do the rounds of
  `_run`, its end and the child of `start`.
* `Service.move_of_step`: what an event does.
-/

namespace DiscordAgent

open Interleave HostProg

/-! ## The text of a pid -/

namespace Py

theorem toNat_of_isDigit {c : Char} (h : c.isDigit) : 48 ≤ c.toNat ∧ c.toNat ≤ 57 :=
  Char.isDigit_iff_toNat.mp h

theorem digitValue_of_isDigit {c : Char} (h : c.isDigit) : digitValue c = some (c.toNat - 48) := by
  obtain ⟨hlo, hhi⟩ := toNat_of_isDigit h
  have hfind : digitZeros.find? (fun z => z ≤ c.toNat && c.toNat ≤ z + 9) = some 48 := by
    unfold digitZeros
    exact List.find?_cons_of_pos (by simp [hlo, hhi])
  rw [digitValue, hfind]
  rfl

theorem not_isSpace_of_isDigit {c : Char} (h : c.isDigit) : isSpace c = false := by
  obtain ⟨hlo, hhi⟩ := toNat_of_isDigit h
  simp only [isSpace]
  grind

theorem not_isIntSpace_of_isDigit {c : Char} (h : c.isDigit) : isIntSpace c = false := by
  obtain ⟨hlo, hhi⟩ := toNat_of_isDigit h
  simp only [isIntSpace]
  grind

theorem intDigits_of_isDigit {cs : List Char} (h : ∀ c ∈ cs, c.isDigit) (b : Bool)
    (hb : b ∨ cs ≠ []) : intDigits b cs = some (cs.map fun c => c.toNat - 48) := by
  induction cs generalizing b with
  | nil =>
    obtain rfl : b = true := by simpa using hb
    rfl
  | cons c cs ih =>
    have hc : c.isDigit := h c List.mem_cons_self
    have hne : c ≠ '_' := by
      rintro rfl
      cases hc
    have hrest := ih (fun d hd => h d (List.mem_cons_of_mem c hd)) true (.inl rfl)
    have hstep : intDigits b (c :: cs) = (intDigits true cs).map ((c.toNat - 48) :: ·) := by
      rw [intDigits]
      · rw [digitValue_of_isDigit hc]
      · intro hb' hc'
        exact hne hc'
    rw [hstep, hrest]
    rfl

theorem trim_of_isDigit {f : Char → Bool} {cs : List Char} (h : ∀ c ∈ cs, f c = false) :
    ((cs.dropWhile f).reverse.dropWhile f).reverse = cs := by
  have hdrop : ∀ ds : List Char, (∀ c ∈ ds, f c = false) → ds.dropWhile f = ds := by
    intro ds hds
    cases ds with
    | nil => rfl
    | cons c ds => rw [List.dropWhile_cons_of_neg (by simp [hds c List.mem_cons_self])]
  rw [hdrop cs h, hdrop _ fun c hc => h c (List.mem_reverse.mp hc), List.reverse_reverse]

/-- `int(str(n).strip())`. -/
theorem intOfString_toString {n : ℕ} (h : n < 2 ^ 31) :
    intOfString (strip (toString n)) = some (n : ℤ) := by
  have hdigits : ∀ c ∈ Nat.toDigits 10 n, c.isDigit := fun c hc =>
    Nat.isDigit_of_mem_toDigits (by decide) (by decide) hc
  have hstrip : strip (toString n) = String.ofList (Nat.toDigits 10 n) := by
    rw [strip, stripChars, Nat.toString_eq_ofList_toDigits, String.toList_ofList,
      trim_of_isDigit fun c hc => not_isSpace_of_isDigit (hdigits c hc)]
  have hlength : (Nat.toDigits 10 n).length ≤ intMaxStrDigits :=
    ((Nat.length_toDigits_le_iff (by decide) (by decide)).mpr
      (h.trans (by decide : 2 ^ 31 < 10 ^ 10))).trans (by decide)
  have hnat : natOfChars (Nat.toDigits 10 n) = some n := by
    rw [natOfChars, intDigits_of_isDigit hdigits false (.inr Nat.toDigits_ne_nil), Option.bind_some,
      List.length_map, if_pos hlength, List.foldl_map]
    exact congrArg some Nat.ofDigitChars_ten_toDigits
  rw [hstrip, intOfString, String.toList_ofList,
    trim_of_isDigit fun c hc => not_isIntSpace_of_isDigit (hdigits c hc)]
  cases hcs : Nat.toDigits 10 n with
  | nil => exact absurd hcs Nat.toDigits_ne_nil
  | cons c cs =>
    have hc : c.isDigit := hdigits c (by rw [hcs]; exact List.mem_cons_self)
    rw [hcs] at hnat
    split
    · next heq => cases heq; cases hc
    · next heq => cases heq; cases hc
    · rw [hnat]
      rfl
end Py

theorem readPid_toString {ino p : ℕ} (h : p < 2 ^ 31) :
    readPid ⟨ino, toString p⟩ = .ok (p : ℤ) := by
  rw [readPid, Py.intOfString_toString h]

/-! ## The monitor -/

/-- What a process makes of the pid file. -/
inductive Look where
  | nothing
  /-- It has read the file; the process named there is not probed yet. -/
  | read (f : PidFile)
  /-- It has found the process named in the file. -/
  | alive (f : PidFile)
  /-- It is about to remove the file, which names no process. -/
  | stale (f : PidFile)
  | absent
  /-- It has opened the file for its own pid. -/
  | opened (ino : ℕ)
  /-- It has written its pid; `cleaned` says that `stop_all` has returned. -/
  | holding (ino : ℕ) (cleaned : Bool)
  /-- It has removed the file that it had written. -/
  | removed (ino : ℕ)
  deriving DecidableEq

namespace Look

/-- The file that the process has seen. -/
def file : Look → Option PidFile
  | read f | alive f | stale f => some f
  | _ => none

/-- The inode of the pid file that the process has written and not removed. -/
def held : Look → Option ℕ
  | holding ino _ => some ino
  | _ => none

/-- `start` may go on: there was no file, or one that reads as 0. -/
def Clear (l : Look) : Prop := l = absent ∨ ∃ f, l = alive f ∧ readPid f = .ok 0

/-- What the process takes the pid file for when it changes it. -/
def expects : Look → Option (Option PidFile)
  | absent => some none
  | alive f | stale f => some (some f)
  | opened ino => some (some ⟨ino, ""⟩)
  | _ => none

theorem held_eq_some {l : Look} {ino : ℕ} (h : l.held = some ino) : ∃ b, l = holding ino b := by
  cases l with
  | holding n b =>
    cases h
    exact ⟨b, rfl⟩
  | _ => cases h

theorem Clear.held {l : Look} (h : l.Clear) : l.held = none := by
  rcases h with rfl | ⟨f, rfl, -⟩ <;> rfl

end Look

/-- A process with what it knows, and the file for which `stop` has signalled a
    daemon. -/
structure Track where
  look : Look := .nothing
  signalled : Option PidFile := none

/-- The process has seen the file. -/
def Track.Saw (t : Track) (f : PidFile) : Prop := t.look.file = some f ∨ t.signalled = some f

/-- The operations that change the pid file. -/
def HostOp.changesFile : HostOp → Bool
  | openPidFile | writePidFile .. | unlinkPidFile => true
  | _ => false

namespace Look

/-- What an operation with its answer makes of what the process knows. -/
def next (l : Look) : (o : HostOp) → o.Res → Look
  | .pidFileExists, found => bif found then nothing else absent
  | .readPidFile, .ok f => if (readPid f).toBool then read f else stale f
  | .readPidFile, .error _ => nothing
  | .probe _, r =>
    match l, r with
    | read f, .ok _ => alive f
    | read f, .error e => if isStale e then stale f else nothing
    | _, _ => l
  | .unlinkPidFile, _ =>
    match l with
    | holding ino _ => removed ino
    | _ => absent
  | .openPidFile, ino => opened ino
  | .writePidFile ino _, _ => holding ino false
  | .stopAll _, _ =>
    match l with
    | holding ino _ => holding ino true
    | _ => l
  | _, _ => l

theorem next_readPidFile (l : Look) (f : PidFile) :
    l.next .readPidFile (.ok f) = if (readPid f).toBool then read f else stale f := rfl

theorem next_probe_error (f : PidFile) (pid : ℤ) (e : HostErr) :
    (read f).next (.probe pid) (.error e) = if isStale e then stale f else nothing := rfl

/-- What process `p` may do next. -/
def Allows (p : ℕ) (l : Look) : HostOp → Prop
  | .pidFileExists | .readPidFile | .terminate _ => l.held = none
  | .probe pid => ∃ f, l = read f ∧ readPid f = .ok pid
  | .unlinkPidFile => (∃ f, l = stale f) ∨ ∃ ino, l = holding ino true
  | .openPidFile => l.Clear
  | .writePidFile ino text => l = opened ino ∧ text = toString p
  | .setupSignals q | .setRunning q | .tick q | .stopAll q => q = p ∧ ∃ ino b, l = holding ino b
  | _ => True

end Look

/-- The file for which a daemon was signalled, after one more operation. -/
def Track.target (t : Track) : (o : HostOp) → o.Res → Option PidFile
  | .terminate _, .ok _ =>
    match t.look with
    | .alive f => some f
    | _ => t.signalled
  | _, _ => t.signalled

/-- The monitor of process `p`. -/
def pidMonitor (p : ℕ) : Monitor HostOp HostOp.Res Track where
  answers
    | .readPidFile, .error e => e = .fileNotFound
    | _, _ => True
  ok t o := t.look.Allows p o
  next t o r := ⟨t.look.next o r, t.target o r⟩

/-- What a process knows where its program ends. -/
def HostStage.Knows : HostStage → Track → Prop
  | .fork, t => t.look.Clear
  | .loop, t => (∃ ino, t.look = .holding ino false) ∧ t.signalled = none
  | .report none, t => t.look = .absent
  | .report (some pid), t => ∃ f, t.look = .alive f ∧ readPid f = .ok pid
  | .exit code, t => t.look.held = none ∧ (t.signalled.isSome → code = 0 → t.look.Clear)

/-- A program that follows the monitor of process `p`, wherever an exception ends
    it. -/
abbrev Tracks (p : ℕ) (prog : HostProg HostStage) (t : Track) : Prop :=
  prog.Follows (pidMonitor p) HostStage.Knows (fun _ _ => True) t

namespace Service

variable {p : ℕ} {t : Track}

/-! ## The programs -/

theorem follows_check {α : Type} {r : Except HostErr α} {Q : α → Track → Prop}
    {E : HostErr → Track → Prop} (hok : ∀ a, r = .ok a → Q a t) (herr : ∀ e, r = .error e → E e t) :
    (check r).Follows (pidMonitor p) Q E t := by
  cases r with
  | ok a => exact hok a rfl
  | error e => exact herr e rfl

/-- The `try` of `is_daemon_running` ends with the process in the file, or with an
    exception that leaves a stale file to be removed. -/
theorem follows_probeRecorded (h : t.look.held = none) :
    probeRecorded.Follows (pidMonitor p)
      (fun r t' => t'.signalled = t.signalled ∧ HostStage.Knows (.report r) t')
      (fun e t' => t'.signalled = t.signalled ∧ t'.look.held = none ∧
        (isStale e = true → ∃ f, t'.look = .stale f)) t := by
  refine ⟨h, fun r hr => ?_⟩
  refine (follows_check (Q := fun f t' => t'.signalled = t.signalled ∧
    t'.look = Look.next t.look .readPidFile (.ok f)) ?_ ?_).bind ?_
  · rintro f rfl
    exact ⟨rfl, rfl⟩
  · rintro e rfl
    obtain rfl : e = .fileNotFound := hr
    exact ⟨rfl, rfl, fun he => by cases he⟩
  · rintro f t' ⟨hsig, hlook⟩
    cases hf : readPid f with
    | error e =>
      have hstale : t'.look = .stale f := by
        rw [hlook, Look.next_readPidFile, hf]
        rfl
      exact ⟨hsig, by rw [hstale]; rfl, fun _ => ⟨f, hstale⟩⟩
    | ok pid =>
      have hread : t'.look = .read f := by
        rw [hlook, Look.next_readPidFile, hf]
        rfl
      refine ⟨⟨f, hread, hf⟩, fun r _ => ?_⟩
      have hnext : ((pidMonitor p).next t' (.probe pid) r).look =
          (Look.read f).next (.probe pid) r := congrArg (Look.next · (.probe pid) r) hread
      cases r with
      | ok _ => exact ⟨hsig, f, hnext, hf⟩
      | error e =>
        rw [Look.next_probe_error] at hnext
        refine ⟨hsig, ?_, fun he => ⟨f, hnext.trans (if_pos he)⟩⟩
        rw [hnext]
        split <;> rfl

/-- `is_daemon_running` ends with the process in the file that was read, or with no
    file. -/
theorem follows_isDaemonRunning (h : t.look.held = none) :
    isDaemonRunning.Follows (pidMonitor p)
      (fun r t' => t'.signalled = t.signalled ∧ HostStage.Knows (.report r) t')
      (fun _ _ => True) t := by
  refine ⟨h, fun found _ => ?_⟩
  cases found with
  | false => exact ⟨rfl, rfl⟩
  | true =>
    refine (follows_probeRecorded rfl).tryCatch fun e t' he => ?_
    obtain ⟨hsig, -, hstale⟩ := he
    unfold onStale
    split_ifs with hs
    · obtain ⟨f, hf⟩ := hstale hs
      exact ⟨.inl ⟨f, hf⟩, fun _ _ => ⟨hsig, congrArg (Look.next · .unlinkPidFile ()) hf⟩⟩
    · trivial

/-- After `is_daemon_running` the process holds no file. -/
theorem held_of_report {r : Option ℤ} (h : HostStage.Knows (.report r) t) : t.look.held = none := by
  cases r with
  | none =>
    have hlook : t.look = .absent := h
    rw [hlook]
    rfl
  | some pid =>
    obtain ⟨f, hf, -⟩ := h
    rw [hf]
    rfl

/-- `is_daemon_running` has answered with nothing that is true in Python. -/
theorem clear_of_report {r : Option ℤ} (h : HostStage.Knows (.report r) t)
    (hr : ¬ r.any (· ≠ 0)) : t.look.Clear := by
  cases r with
  | none => exact .inl h
  | some pid =>
    obtain ⟨f, hf, hpid⟩ := h
    refine .inr ⟨f, hf, ?_⟩
    rw [hpid]
    simpa using hr

theorem follows_writePid (h : t.look.Clear) :
    (writePid p).Follows (pidMonitor p)
      (fun _ t' => (∃ ino, t'.look = .holding ino false) ∧ t'.signalled = t.signalled)
      (fun _ _ => True) t := by
  refine ⟨trivial, fun r _ => ?_⟩
  refine (follows_check (Q := fun _ t' => t' = t) (fun _ _ => rfl) fun _ _ => trivial).bind
    fun _ t' ht => ?_
  subst ht
  refine ⟨h, fun ino _ => ⟨⟨rfl, rfl⟩, fun _ _ => ⟨trivial, fun r _ => ?_⟩⟩⟩
  exact follows_check (fun _ _ => ⟨⟨ino, rfl⟩, rfl⟩) fun _ _ => trivial

/-- `_run` arrives at its loop with its pid in the file. -/
theorem follows_run (h : t.look.Clear) (hs : t.signalled = none) : Tracks p (run p) t := by
  refine (follows_writePid h).bind fun _ t' ht => ?_
  obtain ⟨⟨ino, hino⟩, hsig⟩ := ht
  have hlook : ∃ ino b, t'.look = .holding ino b := ⟨ino, false, hino⟩
  exact ⟨⟨rfl, hlook⟩, fun _ _ => ⟨⟨rfl, hlook⟩, fun _ _ => ⟨⟨ino, hino⟩, hsig.trans hs⟩⟩⟩

theorem follows_detached (h : t.look.Clear) (hs : t.signalled = none) :
    Tracks p (detached p) t := by
  refine ⟨trivial, fun r _ => ?_⟩
  exact (follows_check (Q := fun _ t' => t' = t) (fun _ _ => rfl) fun _ _ => trivial).bind
    fun _ t' ht => ht ▸ follows_run h hs

/-- The `finally` of `_run` removes the file after `stop_all`. -/
theorem follows_cleanUp {ino code : ℕ} (h : t.look = .holding ino false)
    (hs : t.signalled = none) : Tracks p (cleanUp p code) t := by
  refine ⟨⟨rfl, ino, false, h⟩, fun _ _ => ?_⟩
  have hcleaned : ((pidMonitor p).next t (.stopAll p) ()).look = .holding ino true :=
    congrArg (Look.next · (.stopAll p) ()) h
  refine ⟨.inr ⟨ino, hcleaned⟩, fun _ _ => ⟨?_, ?_⟩⟩
  · exact congrArg (fun l => (Look.next l .unlinkPidFile ()).held) hcleaned
  · intro hsome
    have hnone : t.signalled.isSome := hsome
    simp [hs] at hnone

theorem follows_round (h : HostStage.Knows .loop t) : Tracks p (round p) t := by
  obtain ⟨⟨ino, hino⟩, hs⟩ := h
  refine Prog.Follows.tryCatch (R := fun _ t' => t' = t) ⟨⟨rfl, ino, false, hino⟩, fun r _ => ?_⟩
    fun _ t' ht => ht ▸ follows_cleanUp hino hs
  refine (follows_check (t := t) (Q := fun _ t' => t' = t) (E := fun _ t' => t' = t)
    (fun _ _ => rfl) fun _ _ => rfl).bind fun _ t' ht => ?_
  subst ht
  exact ⟨trivial, fun _ _ => ⟨⟨ino, hino⟩, hs⟩⟩

theorem follows_start (foreground : Bool) : Tracks p (start p foreground) {} := by
  refine (follows_isDaemonRunning rfl).bind fun existing t' ht => ?_
  obtain ⟨hsig, hreport⟩ := ht
  split_ifs with hexisting hfg
  · refine ⟨held_of_report hreport, fun hsome => ?_⟩
    simp [hsig] at hsome
  · exact follows_run (clear_of_report hreport hexisting) hsig
  · exact clear_of_report hreport hexisting

theorem follows_awaitStop (n : ℕ) (h : t.look.held = none) : Tracks p (awaitStop n) t := by
  induction n generalizing t with
  | zero => exact ⟨h, fun _ hcode => by cases hcode⟩
  | succ n ih =>
    refine (follows_isDaemonRunning h).bind fun existing t' ht => ?_
    obtain ⟨-, hreport⟩ := ht
    split_ifs with hexisting
    · exact ⟨trivial, fun _ _ => ih (held_of_report hreport)⟩
    · exact ⟨held_of_report hreport, fun _ _ => clear_of_report hreport hexisting⟩

theorem follows_stop : Tracks p stop {} := by
  refine (follows_isDaemonRunning rfl).bind fun existing t' ht => ?_
  obtain ⟨hsig, hreport⟩ := ht
  have hheld := held_of_report hreport
  cases existing with
  | none =>
    refine ⟨hheld, fun hsome => ?_⟩
    simp [hsig] at hsome
  | some pid =>
    refine ⟨hheld, fun r _ => ?_⟩
    exact (follows_check (t := (pidMonitor p).next t' (.terminate pid) r)
      (Q := fun _ t'' => t''.look.held = none) (fun _ _ => hheld) fun _ _ => trivial).bind
        fun _ t'' ht'' => follows_awaitStop 20 ht''

theorem follows_status : Tracks p status {} := by
  refine (follows_isDaemonRunning rfl).bind fun r t' ht => ?_
  cases r with
  | none => exact ht.2
  | some pid => exact ht.2

/-- Every command follows the monitor of its process. -/
theorem follows_prog (cmd : HostCmd) : Tracks p (cmd.prog p) {} := by
  cases cmd with
  | start foreground => exact follows_start foreground
  | stop => exact follows_stop
  | status => exact follows_status

/-! ## What an event does -/

/-- The events that can happen, with what they lead to. -/
inductive Move (c : Service) : HostEvent → Service → Prop
  | operation {p : ℕ} {i : HostInputs} {c' : Service} (live : (c.shared.processes p).isSome)
      (h : Pool.step hostExec c p i = some c') : Move c (.run p i) c'
  | round {p : ℕ} {q : Process} (live : c.shared.processes p = some q)
      (h : c.prog p = .ret .loop) :
      Move c (.next p) (Pool.load c p (if q.running then HostProg.round p else cleanUp p 0))
  | ended {p : ℕ} : Move c (.next p) { c with shared := c.shared.remove p }
  | fork {p child : ℕ} (live : (c.shared.processes p).isSome) (h : c.prog p = .ret .fork)
      (hfree : c.free child = true) : Move c (.fork p child)
        (launch (Pool.load c p (.ret (.exit 0))) child {} (detached child))
  | spawn {p : ℕ} {cmd : HostCmd} (hfree : c.free p = true) :
      Move c (.spawn p cmd) (c.launch p {} (cmd.prog p))
  | foreign {p : ℕ} {q : Process} (hfree : c.free p = true) :
      Move c (.foreign p q) (c.launch p q (.ret (.exit 0)))
  | die {p : ℕ} : Move c (.die p) { c with shared := c.shared.remove p }

theorem move_of_step {c c' : Service} {e : HostEvent} (hs : step c e = some c') :
    Move c e c' := by
  cases e with
  | run p i =>
    simp only [step] at hs
    split_ifs at hs with hlive
    exact .operation hlive hs
  | next p =>
    simp only [step] at hs
    split at hs
    · next q hq hp =>
      cases hs
      exact .round hq hp
    · cases hs
      exact .ended
    · cases hs
      exact .ended
    · cases hs
      exact .ended
    · cases hs
  | fork p child =>
    simp only [step] at hs
    split at hs
    · next q hq hp =>
      split_ifs at hs with hfree
      cases hs
      exact .fork (by simp [hq]) hp hfree
    · cases hs
  | spawn p cmd =>
    simp only [step] at hs
    split_ifs at hs with hfree
    cases hs
    exact .spawn hfree
  | foreign p q =>
    simp only [step] at hs
    split_ifs at hs with hfree
    cases hs
    exact .foreign hfree
  | die p =>
    simp only [step] at hs
    split_ifs at hs
    cases hs
    exact .die

/-! ## What every process knows -/

/-- What the processes know after an event. -/
def learn (c : Service) (e : HostEvent) (g : ℕ → Track) : ℕ → Track :=
  match e with
  | .run p i =>
    match c.next? p with
    | some o => Function.update g p ((pidMonitor p).next (g p) o (hostExec o i c.shared).1)
    | none => g
  | .fork p child => Function.update g child { look := (g p).look }
  | .spawn p _ => Function.update g p {}
  | .foreign p _ => Function.update g p {}
  | _ => g

/-- A process that changes the pid file finds it as it takes it to be. -/
def undisturbed (s : Service × (ℕ → Track)) : HostEvent → Bool
  | .run p _ =>
    match s.1.next? p with
    | some o => !o.changesFile || (s.2 p).look.expects.all (· == s.1.shared.pidFile)
    | none => true
  | _ => true

/-- Process `p` has written its pid and has not removed the file. -/
def Holds (c : Service) (g : ℕ → Track) (p ino : ℕ) : Prop :=
  (c.shared.processes p).isSome ∧ (g p).look.held = some ino

end Service

end DiscordAgent
