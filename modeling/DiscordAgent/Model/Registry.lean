import DiscordAgent.Model.Chain

/-!
# Repo registry

`lib/registry.py`, the two `Database` methods it writes with, and
`cmd_create_repo` and `cmd_update_repo` of `orchestrator.py`. What the commands
print is left out, and so are `unregister` and `validate`, which have no caller.
`import_json` and the text that `export_json` writes are in `RegistryFile`.

The file system and git are a parameter. A `RegistryError` is a value, as every
caller but the end of `cmd_update_repo` catches it.
-/

namespace DiscordAgent

open Interleave

/-- What `lib/registry.py` learns from the file system and from git. -/
structure Os where
  /-- `str(Path(p).resolve())`. -/
  resolve : String → String
  /-- `Path(p).exists()`. -/
  pathExists : String → Bool
  /-- `Path(p).is_dir()`. -/
  isDir : String → Bool
  /-- `_run_git(path, *args)` (lines 26–37): the stripped output, or the text of
      the `RegistryError`; `subprocess.run` itself can raise too. -/
  runGit : String → List String → Except PyErr (Except String String)
  /-- What writing `repos.json` raises. -/
  exportRaises : Option PyErr

namespace Registry

/-- The exceptions of `preflight_check`. -/
inductive Err where
  /-- A `RegistryError` with this text. -/
  | registryError (message : String)
  | other (e : PyErr)

/-- The dict that `preflight_check` returns. -/
structure Preflight where
  path : String
  gitRoot : String
  branch : String

/-- `preflight_check` (lines 40–67). -/
def preflightCheck (os : Os) (path : String) (expectedGitRoot : Option String) :
    Except Err Preflight :=
  if !os.pathExists path then .error (.registryError ("Path does not exist: " ++ path))
  else if !os.isDir path then .error (.registryError ("Path is not a directory: " ++ path))
  else
    match os.runGit path ["rev-parse", "--show-toplevel"] with
    | .error e => .error (.other e)
    | .ok (.error _) => .error (.registryError ("Not a git repository: " ++ path))
    | .ok (.ok actualRoot) =>
      match expectedGitRoot.filter fun expected =>
          expected ≠ "" && os.resolve actualRoot ≠ os.resolve expected with
      | some expected =>
        .error (.registryError
          ("Git root mismatch: expected " ++ expected ++ ", got " ++ actualRoot))
      | none =>
        match os.runGit path ["rev-parse", "--abbrev-ref", "HEAD"] with
        | .error e => .error (.other e)
        | .ok (.error _) => .ok ⟨path, actualRoot, ""⟩
        | .ok (.ok branch) => .ok ⟨path, actualRoot, branch⟩

/-- The keyword arguments of `register`. -/
structure NewEntry where
  name : String
  path : String
  aliases : List String := []
  model : String := "sonnet"
  maxConcurrency : ℤ := 1
  skipPreflight : Bool := false

/-- The dict that `register` returns. -/
structure Registered where
  id : ℕ
  name : String
  path : String
  gitRoot : Option String

/-- The git root that `register` stores (lines 92–96). -/
def NewEntry.gitRoot (os : Os) (entry : NewEntry) : Except Err (Option String) :=
  if entry.skipPreflight then .ok none
  else (preflightCheck os (os.resolve entry.path) none).map fun check => some check.gitRoot

/-- `register` (lines 75–111); `create_repo` violates `UNIQUE` for a name that
    another process has just inserted. -/
def register (os : Os) (entry : NewEntry) : Py (Except String Registered) := do
  match ← op (.getRepo entry.name) with
  | some _ => .ret (.error ("Repo '" ++ entry.name ++ "' already exists"))
  | none =>
    let resolved := os.resolve entry.path
    match entry.gitRoot os with
    | .error (.registryError message) => .ret (.error message)
    | .error (.other e) => .raise e
    | .ok gitRoot =>
      match ← op (.createRepo ⟨entry.name, resolved, entry.aliases, gitRoot, entry.model,
          entry.maxConcurrency⟩) with
      | none => .raise .sqliteError
      | some id => .ret (.ok ⟨id, entry.name, resolved, gitRoot⟩)

/-- `resolve` (lines 113–118). -/
def resolve (py : PyLib) (nameOrAlias : String) : Py (Except String Repo) := do
  match ← getRepoByAlias py (.str nameOrAlias) with
  | none => .ret (.error ("Repo not found: " ++ nameOrAlias))
  | some repo => .ret (.ok repo)

/-- `export_json` (lines 131–149). -/
def exportJson (os : Os) : Py Unit := do
  let _ ← op .allRepos
  match os.exportRaises with
  | some e => .raise e
  | none => .ret ()

end Registry

/-- The keyword arguments leave everything as it is: there are none. -/
def Db.RepoPatch.isEmpty (u : Db.RepoPatch) : Bool :=
  u.path.isNone && u.expectedGitRoot.isNone && u.model.isNone && u.maxConcurrency.isNone

/-- `update_repo` (`lib/db.py` lines 304–320). -/
def updateRepo (name : String) (u : Db.RepoPatch) : Py Bool := do
  match ← op (.getRepo name) with
  | none => .ret false
  | some _ =>
    if u.isEmpty then .ret true
    else
      op (.updateRepo name u)
      .ret true

namespace Orchestrator

/-- `cmd_create_repo` (lines 97–119). -/
def cmdCreateRepo (os : Os) (entry : Registry.NewEntry) : Py ℕ := do
  match ← Registry.register os entry with
  | .error _ => .ret 1
  | .ok _ =>
    Registry.exportJson os
    .ret 0

/-- The arguments of `update-repo`. -/
structure UpdateArgs where
  name : String
  path : Option String := none
  expectedGitRoot : Option String := none
  model : Option String := none
  maxConcurrency : Option ℤ := none
  skipPreflight : Bool := false

/-- The `kwargs` of `cmd_update_repo` (lines 133–152). -/
def UpdateArgs.kwargs (os : Os) (args : UpdateArgs) : Except Registry.Err Db.RepoPatch :=
  match args.path with
  | none => .ok { model := args.model, maxConcurrency := args.maxConcurrency }
  | some path =>
    let resolved := os.resolve path
    let given := args.expectedGitRoot.map os.resolve
    if args.skipPreflight then
      .ok
        { path := some resolved, expectedGitRoot := given, model := args.model,
          maxConcurrency := args.maxConcurrency }
    else
      (Registry.preflightCheck os resolved none).map fun check =>
        { path := some resolved, expectedGitRoot := given.or (some check.gitRoot),
          model := args.model, maxConcurrency := args.maxConcurrency }

/-- `cmd_update_repo` (lines 122–171). The result is the exit code, or the text
    of the `RegistryError` that the last `resolve` raises. -/
def cmdUpdateRepo (py : PyLib) (os : Os) (args : UpdateArgs) : Py (Except String ℕ) := do
  match ← Registry.resolve py args.name with
  | .error _ => .ret (.ok 1)
  | .ok _ =>
    match args.kwargs os with
    | .error (.registryError _) => .ret (.ok 1)
    | .error (.other e) => .raise e
    | .ok u =>
      if u.isEmpty then .ret (.ok 1)
      else
        let _ ← updateRepo args.name u
        Registry.exportJson os
        match ← Registry.resolve py args.name with
        | .error message => .ret (.error message)
        | .ok _ => .ret (.ok 0)

end Orchestrator

end DiscordAgent
