import DiscordAgent.Interleave.Pool
import DiscordAgent.Model.ResultParser

/-!
# The life of a daemon process

`is_daemon_running` and the methods `start`, `_run` and `stop` of `Daemon`
(`lib/daemon.py`): how the commands of one user start, find and end a daemon
through its pid file. The processes share the pid file and the process table of
the machine; each access to them is one atomic operation. What a tick does to
the database is the subject of `System/Basic.lean`; here it only ends, raises or
clears `_running`.

A file is an inode with its text, so that a process that still writes to a file
that was unlinked in the meantime changes no other file. The state directory and
its files belong to the user of the commands, so no access to them is refused.
-/

namespace DiscordAgent

open Interleave

/-! ## The machine -/

/-- The exceptions of the lifecycle functions. -/
inductive HostErr where
  | fileNotFound
  | processLookup
  | permission
  | value
  | overflow
  | other
  deriving DecidableEq, Repr

/-- A file under the path of the pid file. -/
structure PidFile where
  ino : ℕ
  text : String
  deriving DecidableEq, Repr

/-- What a process is for the others: whether this user may signal it, whether
    it has installed `_handle_signal`, its `_running`, and whether its
    `stop_all` has returned. -/
structure Process where
  mine : Bool := true
  handler : Bool := false
  running : Bool := false
  cleaned : Bool := false
  deriving DecidableEq

/-- The machine: the pid file, the next free inode and the process table. -/
structure Host where
  pidFile : Option PidFile
  nextIno : ℕ
  processes : ℕ → Option Process

/-- What an operation learns from outside. -/
structure HostInputs where
  /-- The outcome of signalling a process group, and the members it reaches. -/
  group : Except HostErr Unit := .ok ()
  members : List ℕ := []
  /-- The outcome of `ensure_private_dir`, `secure_file` and `_detach_stdio`. -/
  access : Except HostErr Unit := .ok ()
  /-- The outcome of `_tick`: whether it has processed a `shutdown` command. -/
  tick : Except HostErr Bool := .ok false

namespace Host

/-- Process `p` appears. -/
def add (h : Host) (p : ℕ) (q : Process) : Host :=
  { h with processes := Function.update h.processes p (some q) }

/-- Process `p` is gone. -/
def remove (h : Host) (p : ℕ) : Host :=
  { h with processes := Function.update h.processes p none }

/-- Process `p` changes its own state. -/
def modify (h : Host) (p : ℕ) (f : Process → Process) : Host :=
  { h with processes := Function.update h.processes p ((h.processes p).map f) }

section Processes

variable (h : Host) (p r : ℕ) (q : Process) (f : Process → Process)

@[simp] theorem add_processes :
    (h.add p q).processes r = if r = p then some q else h.processes r :=
  Function.update_apply _ _ _ _

@[simp] theorem remove_processes :
    (h.remove p).processes r = if r = p then none else h.processes r :=
  Function.update_apply _ _ _ _

@[simp] theorem modify_processes :
    (h.modify p f).processes r = if r = p then (h.processes p).map f else h.processes r :=
  Function.update_apply _ _ _ _

end Processes

/-- `SIGTERM` reaches process `p`: `_handle_signal`, or the default action. -/
def deliver (h : Host) (p : ℕ) : Host :=
  match h.processes p with
  | none => h
  | some q => if q.handler then h.modify p fun q => { q with running := false } else h.remove p

/-- `os.kill(pid, sig)` as far as its outcome goes. -/
def kill (h : Host) (i : HostInputs) (pid : ℤ) : Except HostErr Unit :=
  if pid < -2 ^ 31 ∨ 2 ^ 31 ≤ pid then .error .overflow
  else if pid ≤ 0 then i.group
  else
    match h.processes pid.toNat with
    | none => .error .processLookup
    | some q => if q.mine then .ok () else .error .permission

/-- The processes that `os.kill(pid, SIGTERM)` reaches. -/
def reached (h : Host) (i : HostInputs) (pid : ℤ) : List ℕ :=
  match h.kill i pid with
  | .error _ => []
  | .ok _ => if pid ≤ 0 then i.members else [pid.toNat]

/-- `open(path, "w")`: truncates the file, or creates one. -/
def openPidFile (h : Host) : ℕ × Host :=
  match h.pidFile with
  | some f => (f.ino, { h with pidFile := some ⟨f.ino, ""⟩ })
  | none => (h.nextIno, { h with pidFile := some ⟨h.nextIno, ""⟩, nextIno := h.nextIno + 1 })

/-- Write to an open file. -/
def writePidFile (h : Host) (ino : ℕ) (text : String) : Host :=
  { h with pidFile := h.pidFile.map fun f => if f.ino = ino then ⟨ino, text⟩ else f }

end Host

/-! ## Operations -/

/-- The atomic operations. -/
inductive HostOp where
  | pidFileExists
  | readPidFile
  /-- `os.kill(pid, 0)`. -/
  | probe (pid : ℤ)
  | unlinkPidFile
  | ensurePrivateDir
  | openPidFile
  | writePidFile (ino : ℕ) (text : String)
  | securePidFile
  | detachStdio
  | setupSignals (pid : ℕ)
  | setRunning (pid : ℕ)
  | tick (pid : ℕ)
  | stopAll (pid : ℕ)
  | sleep
  /-- `os.kill(pid, signal.SIGTERM)`. -/
  | terminate (pid : ℤ)
  deriving DecidableEq

/-- The answers of the operations. `readPidFile` names the inode with the text,
    which the callers do not use. -/
@[reducible] def HostOp.Res : HostOp → Type
  | pidFileExists => Bool
  | readPidFile => Except HostErr PidFile
  | probe _ => Except HostErr Unit
  | ensurePrivateDir | securePidFile | detachStdio => Except HostErr Unit
  | openPidFile => ℕ
  | tick _ => Except HostErr Unit
  | terminate _ => Except HostErr Unit
  | _ => Unit

/-- What each operation does to the machine. -/
def hostExec : (o : HostOp) → HostInputs → Host → o.Res × Host
  | .pidFileExists, _, h => (h.pidFile.isSome, h)
  | .readPidFile, _, h =>
    (match h.pidFile with
      | some f => .ok f
      | none => .error .fileNotFound, h)
  | .probe pid, i, h => (h.kill i pid, h)
  | .unlinkPidFile, _, h => ((), { h with pidFile := none })
  | .ensurePrivateDir, i, h => (i.access, h)
  | .openPidFile, _, h => h.openPidFile
  | .writePidFile ino text, _, h => ((), h.writePidFile ino text)
  | .securePidFile, i, h => (i.access, h)
  | .detachStdio, i, h => (i.access, h)
  | .setupSignals pid, _, h => ((), h.modify pid fun q => { q with handler := true })
  | .setRunning pid, _, h => ((), h.modify pid fun q => { q with running := true })
  | .tick pid, i, h =>
    match i.tick with
    | .error e => (.error e, h)
    | .ok shutdown =>
      (.ok (), if shutdown then h.modify pid fun q => { q with running := false } else h)
  | .stopAll pid, _, h => ((), h.modify pid fun q => { q with cleaned := true })
  | .sleep, _, h => ((), h)
  | .terminate pid, i, h => (h.kill i pid, (h.reached i pid).foldl Host.deliver h)

/-! ## Programs -/

/-- Where the program of a process ends: at `os.fork()`, at the head of the loop
    of `_run`, with the pid that `status` prints, or with an exit code. -/
inductive HostStage where
  | fork
  | loop
  | report (pid : Option ℤ)
  | exit (code : ℕ)
  deriving DecidableEq

/-- The programs of the processes. -/
abbrev HostProg (α : Type) := Prog HostOp HostOp.Res HostErr α

namespace HostProg

/-- One operation. -/
abbrev op (o : HostOp) : HostProg o.Res := Prog.perform o

/-- Raise what an operation raised. -/
def check {α : Type} : Except HostErr α → HostProg α
  | .ok a => .ret a
  | .error e => .raise e

/-- `int(text.strip())` of the pid file. -/
@[irreducible] def readPid (f : PidFile) : Except HostErr ℤ :=
  match Py.intOfString (Py.strip f.text) with
  | some pid => .ok pid
  | none => .error .value

/-- `except (ValueError, ProcessLookupError, PermissionError)`. -/
def isStale : HostErr → Bool
  | .value | .processLookup | .permission => true
  | _ => false

/-- The `try` of `is_daemon_running` (lines 74–77). -/
def probeRecorded : HostProg (Option ℤ) := do
  let f ← check (← op .readPidFile)
  let pid ← check (readPid f)
  check (← op (.probe pid))
  .ret (some pid)

/-- Its `except` (lines 78–80). -/
def onStale (e : HostErr) : HostProg (Option ℤ) :=
  if isStale e then do
    op .unlinkPidFile
    .ret none
  else .raise e

/-- `is_daemon_running` (lines 67–80). -/
def isDaemonRunning : HostProg (Option ℤ) := do
  if ← op .pidFileExists then Prog.tryCatch probeRecorded onStale else .ret none

/-- `_write_pid` (lines 120–124). -/
def writePid (pid : ℕ) : HostProg Unit := do
  check (← op .ensurePrivateDir)
  let ino ← op .openPidFile
  op (.writePidFile ino (toString pid))
  check (← op .securePidFile)

/-- `_run` up to its loop (lines 191–196). -/
def run (pid : ℕ) : HostProg HostStage := do
  writePid pid
  op (.setupSignals pid)
  op (.setRunning pid)
  .ret .loop

/-- The `finally` of `_run` (lines 205–209). -/
def cleanUp (pid code : ℕ) : HostProg HostStage := do
  op (.stopAll pid)
  op .unlinkPidFile
  .ret (.exit code)

/-- One round of the loop (lines 198–204). -/
def round (pid : ℕ) : HostProg HostStage :=
  Prog.tryCatch
    (do
      check (← op (.tick pid))
      op .sleep
      .ret .loop)
    fun _ => cleanUp pid 1

/-- The child process of `start` (lines 158–162). -/
def detached (pid : ℕ) : HostProg HostStage := do
  check (← op .detachStdio)
  run pid

/-- `start` (lines 137–156), in the process that was invoked. -/
def start (pid : ℕ) (foreground : Bool) : HostProg HostStage := do
  let existing ← isDaemonRunning
  if existing.any (· ≠ 0) then .ret (.exit 1)
  else if foreground then run pid
  else .ret .fork

/-- The loop of `stop` (lines 314–318), with `n` rounds left. -/
def awaitStop : ℕ → HostProg HostStage
  | 0 => .ret (.exit 1)
  | n + 1 => do
    let existing ← isDaemonRunning
    if existing.any (· ≠ 0) then do
      op .sleep
      awaitStop n
    else .ret (.exit 0)

/-- `stop` (lines 307–320). -/
def stop : HostProg HostStage := do
  match ← isDaemonRunning with
  | none => .ret (.exit 1)
  | some pid =>
    check (← op (.terminate pid))
    awaitStop 20

/-- `daemon status` (`orchestrator.py` lines 84–90). -/
def status : HostProg HostStage := do
  let pid ← isDaemonRunning
  .ret (.report pid)

end HostProg

/-- The commands that use the pid file. `daemon status` stands for every command
    that asks `is_daemon_running` and goes on. -/
inductive HostCmd where
  | start (foreground : Bool)
  | stop
  | status

/-- The program of a command in process `pid`. -/
def HostCmd.prog (pid : ℕ) : HostCmd → HostProg HostStage
  | .start foreground => HostProg.start pid foreground
  | .stop => HostProg.stop
  | .status => HostProg.status

/-! ## The whole machine -/

/-- The machine and the program of every process. -/
abbrev Service := Pool ℕ Host HostOp HostOp.Res HostErr fun _ => HostStage

/-- What happens next. -/
inductive HostEvent where
  | run (p : ℕ) (i : HostInputs)
  /-- The next round of the loop, or the end of the process. -/
  | next (p : ℕ)
  | fork (p child : ℕ)
  | spawn (p : ℕ) (cmd : HostCmd)
  /-- A process of another program, maybe of another user. -/
  | foreign (p : ℕ) (q : Process)
  /-- The process is killed. -/
  | die (p : ℕ)

namespace Service

/-- No process runs; the last daemon may have left a pid file. -/
def boot (file : Option String) : Service where
  shared := ⟨file.map (⟨0, ·⟩), 1, fun _ => none⟩
  prog _ := .ret (.exit 0)

/-- The kernel can give the pid to a new process. -/
def free (c : Service) (p : ℕ) : Bool :=
  (c.shared.processes p).isNone && decide (0 < p) && decide (p < 2 ^ 31)

/-- Process `p` starts with a program. -/
def launch (c : Service) (p : ℕ) (q : Process) (prog : HostProg HostStage) : Service :=
  Pool.load { c with shared := c.shared.add p q } p prog

/-- One event; `none` if it cannot happen. -/
def step (c : Service) : HostEvent → Option Service
  | .run p i => if (c.shared.processes p).isSome then Pool.step hostExec c p i else none
  | .next p =>
    match c.shared.processes p, c.prog p with
    | some q, .ret .loop =>
      -- `while self._running`
      some (Pool.load c p (if q.running then HostProg.round p else HostProg.cleanUp p 0))
    | some _, .ret (.report _) => some { c with shared := c.shared.remove p }
    | some _, .ret (.exit _) => some { c with shared := c.shared.remove p }
    | some _, .raise _ => some { c with shared := c.shared.remove p }
    | _, _ => none
  | .fork p child =>
    match c.shared.processes p, c.prog p with
    | some _, .ret .fork =>
      if c.free child then
        some (launch (Pool.load c p (.ret (.exit 0))) child {} (HostProg.detached child))
      else none
    | _, _ => none
  | .spawn p cmd => if c.free p then some (c.launch p {} (cmd.prog p)) else none
  | .foreign p q => if c.free p then some (c.launch p q (.ret (.exit 0))) else none
  | .die p =>
    if (c.shared.processes p).isSome then some { c with shared := c.shared.remove p } else none

end Service

end DiscordAgent
