import DiscordAgent.Commands.Registration
import DiscordAgent.System.Effects

/-!
# Updating a repo

`cmd_update_repo` looks the repo up under a name or an alias, and
`Database.update_repo` writes to the row with exactly this name. It returns
`False` if there is none, which the command does not look at. The option
`--expected-git-root` is read together with `--path` only.

Specification: `UpdateArgs.requested`, the values that the options ask for, and
`Db.Updates`, these values are stored and nothing else changes.

Results:
* `namesUnique_exec`: every operation keeps the names of the repos apart.
* `updateRepo_iff`: a command that returns 0 has stored the requested values
  exactly if it was given the name of the repo, and a git root only with a path,
  or there was nothing to change.
* `updateRepo_alias`: a command that is given an alias.
-/

namespace DiscordAgent

open Interleave Sql

/-! ## Specification -/

namespace Orchestrator

/-- The git root that the preflight check infers from `--path`. -/
def UpdateArgs.inferredRoot (os : Os) (args : UpdateArgs) : Option String :=
  if args.skipPreflight then none
  else args.path.bind fun path =>
    match Registry.preflightCheck os (os.resolve path) none with
    | .ok check => some check.gitRoot
    | .error _ => none

/-- The values that the options ask for. -/
def UpdateArgs.requested (os : Os) (args : UpdateArgs) : Db.RepoPatch where
  path := args.path.map os.resolve
  expectedGitRoot := (args.expectedGitRoot.map os.resolve).or (args.inferredRoot os)
  model := args.model
  maxConcurrency := args.maxConcurrency

end Orchestrator

namespace Db

/-- The repo `r`, found under `name`, has the values of `u`, and no other repo
    has changed. -/
structure Updates (db db' : Db) (name : String) (r : Repo) (u : RepoPatch) : Prop where
  row : db'.resolve name = some (u.apply r)
  others : ∀ id, id ≠ r.id → db'.getRepoById id = db.getRepoById id

/-- `name TEXT NOT NULL UNIQUE`. -/
def NamesUnique (db : Db) : Prop :=
  ∀ r ∈ db.repos.rows, ∀ r' ∈ db.repos.rows, r.name = r'.name → r.id = r'.id

/-! ## One row -/

variable {db : Db} {name : String} {u : RepoPatch} {r : Repo}

theorem getRepo_name (h : db.getRepo name = some r) : r.name = name := by
  have hname := List.find?_some h
  simpa using hname

theorem getRepo_updateRepo (h : db.getRepo name = some r) :
    (db.updateRepo name u).getRepo name = some (u.apply r) := by
  have hrows : (db.updateRepo name u).repos.rows =
      db.repos.rows.map fun r => if r.name == name then u.apply r else r := rfl
  have hsame : ((fun r : Repo => r.name == name) ∘
      fun r => if r.name == name then u.apply r else r) = fun r => r.name == name := by
    funext q
    show ((if q.name == name then u.apply q else q).name == name) = (q.name == name)
    split_ifs
    · rfl
    · rfl
  unfold getRepo at h ⊢
  rw [hrows, List.find?_map, hsame, h, Option.map_some, if_pos]
  exact beq_iff_eq.mpr (getRepo_name h)

/-- The rows with another name stay. -/
theorem getRepoById_updateRepo (hu : db.NamesUnique) (h : db.getRepo name = some r) {id : ℕ}
    (hid : id ≠ r.id) : (db.updateRepo name u).getRepoById id = db.getRepoById id := by
  have hrow : (db.updateRepo name u).getRepoById id =
      (db.getRepoById id).map fun q => if q.name == name then u.apply q else q :=
    Table.get?_updateWhere (f := u.apply) (h := fun _ => rfl)
  rw [hrow]
  cases hq : db.getRepoById id with
  | none => rfl
  | some q =>
    have hne : q.name ≠ name := by
      intro hname
      have heq := hu q (Table.mem_of_get? hq) r (List.mem_of_find?_eq_some h)
        (hname.trans (getRepo_name h).symm)
      exact hid ((Table.id_of_get? hq).symm.trans heq)
    rw [Option.map_some, if_neg (by simpa using hne)]

end Db

section Unique

variable {o : Op} {i : Inputs} {w : World}

/-- A row has its name from before, or `create_repo` has found the name free. -/
theorem exec_repoName {r : Repo} (hr : r ∈ (exec o i w).2.db.repos.rows) :
    (∃ p ∈ w.db.repos.rows, p.id = r.id ∧ p.name = r.name) ∨
      (r.id = w.db.repos.seq + 1 ∧ w.db.getRepo r.name = none) := by
  cases hp : w.db.getRepoById r.id with
  | some p =>
    obtain ⟨r', hr', hstep⟩ := exec_repo o i hp
    have hget : (exec o i w).2.db.getRepoById r.id = some r := Table.get?_of_mem hr
    rw [hget] at hr'
    cases hr'
    refine .inl ⟨p, Table.mem_of_get? hp, Table.id_of_get? hp, ?_⟩
    cases hstep with
    | keep h => rfl
    | recorded next h => rfl
    | reset h => rfl
    | patch name u => rfl
  | none =>
    obtain ⟨n, rfl, hrow⟩ := exec_newRepo hp (Table.get?_of_mem hr)
    simp only [exec, World.setDb_db, Db.createRepo] at hr
    have hold : r ∉ w.db.repos.rows := by
      intro hr
      have hget : w.db.getRepoById r.id = some r := Table.get?_of_mem hr
      rw [hp] at hget
      cases hget
    split at hr
    · exact absurd hr hold
    · next hn =>
      rcases (Table.mem_insert (h := fun _ => rfl)).mp hr with hr | hr
      · exact absurd hr hold
      · refine .inr ⟨by rw [hr]; rfl, ?_⟩
        rw [hr]
        exact hn

/-- Every operation keeps the names apart. -/
theorem namesUnique_exec (h : w.db.NamesUnique) : (exec o i w).2.db.NamesUnique := by
  have hfree : ∀ p ∈ w.db.repos.rows, ∀ x, w.db.getRepo x = none → p.name ≠ x := by
    intro p hp x hx hname
    have hnot := List.find?_eq_none.mp hx p hp
    simp [hname] at hnot
  intro r hr r' hr' hname
  rcases exec_repoName hr with ⟨p, hp, hid, hpname⟩ | ⟨hid, hnone⟩
  · rcases exec_repoName hr' with ⟨p', hp', hid', hpname'⟩ | ⟨hid', hnone'⟩
    · rw [← hid, ← hid']
      exact h p hp p' hp' (by rw [hpname, hpname', hname])
    · exact absurd (hpname.trans hname) (hfree p hp _ hnone')
  · rcases exec_repoName hr' with ⟨p', hp', hid', hpname'⟩ | ⟨hid', hnone'⟩
    · exact absurd (hpname'.trans hname.symm) (hfree p' hp' _ hnone)
    · rw [hid, hid']

/-- The names are apart in every state of every run. -/
theorem Sys.namesUnique {cfg : Settings} {ok : Sys → Event → Prop} {environ : Environ} {c : Sys}
    (h : Sys.Runs cfg ok (Sys.boot default environ) c) : c.shared.db.NamesUnique := by
  have hempty : (Sys.boot default environ).shared.db.NamesUnique :=
    fun r hr => absurd hr List.not_mem_nil
  refine h.invariant (I := fun c => c.shared.db.NamesUnique) ?_ hempty
  intro c e c' hc _ hstep
  rcases Sys.step_shared hstep with ⟨t, i, o, -, -, hs⟩ | ⟨hdb, -⟩
  · rw [hs]
    exact namesUnique_exec hc
  · rw [hdb]
    exact hc

end Unique

namespace Orchestrator

variable {py : PyLib} {os : Os} {args : UpdateArgs} {r : Repo} {w w' : World} {ω : ℕ → Inputs}

/-! ## `update-repo` alone -/

/-- How often the registry is asked for a repo. -/
def lookups (w : World) (repoName : Option String) : ℕ :=
  if (repoName.bind w.db.getRepo).isSome then 1 else 2

/-- The registry answers, and the command goes on. -/
theorem eval_resolve_bind {α : Type} (name : String) (f : Except String Repo → Py α) :
    ((Registry.resolve py name).bind f).eval exec ω w =
      (f ((w.db.resolve name).elim (.error ("Repo not found: " ++ name)) .ok)).eval exec
        (fun n => ω (n + lookups w (some name))) w := by
  unfold Registry.resolve getRepoByAlias Db.resolve lookups
  simp only [py.bindText_str, ofExcept_ok, Prog.bind_eq, Prog.ret_bind, Option.bind_some]
  show Prog.eval exec (Prog.bind (Prog.bind (Prog.bind (op (.getRepo name)) _) _) _) ω w = _
  simp only [Prog.perform_bind, Prog.call_bind, Prog.eval, exec]
  obtain ⟨found, h⟩ : ∃ found, w.db.getRepo name = found := ⟨_, rfl⟩
  cases found with
  | some r =>
    simp only [h]
    rfl
  | none =>
    simp only [h, Prog.call_bind, Prog.eval, exec, Option.none_or]
    cases w.db.repos.rows.find? fun r => r.aliases.contains name with
    | some r => rfl
    | none => rfl

theorem eval_resolve (name : String) : (Registry.resolve py name).eval exec ω w =
    (.ok ((w.db.resolve name).elim (.error ("Repo not found: " ++ name)) .ok), w) := by
  rw [← Prog.bind_ret (Registry.resolve py name), eval_resolve_bind]
  rfl

theorem eval_updateRepo (name : String) {u : Db.RepoPatch} (hu : u.isEmpty = false) (ω : ℕ → Inputs)
    (w : World) :
    ((updateRepo name u).eval exec ω w).2.db =
      if (w.db.getRepo name).isSome then w.db.updateRepo name u else w.db := by
  simp only [updateRepo, Prog.bind_eq, Prog.perform_bind, Prog.eval, exec]
  cases w.db.getRepo name with
  | none => rfl
  | some r =>
    simp only [hu]
    rfl

theorem eval_exportJson (os : Os) (ω : ℕ → Inputs) (w : World) :
    ((Registry.exportJson os).eval exec ω w).2 = w := by
  unfold Registry.exportJson
  cases os.exportRaises with
  | none => rfl
  | some e => rfl

/-- A command that returns 0 has performed the `UPDATE` if there is a repo with
    exactly the name it was given. -/
theorem updateRepo_zero (h : (cmdUpdateRepo py os args).eval exec ω w = (.ok (.ok 0), w')) :
    ∃ u, args.kwargs os = .ok u ∧
      w'.db = if (w.db.getRepo args.name).isSome then w.db.updateRepo args.name u else w.db := by
  unfold cmdUpdateRepo at h
  obtain ⟨found, w₁, k₁, hfound, h⟩ := Prog.exists_of_eval_bind h
  rw [eval_resolve] at hfound
  cases hfound
  cases hr : w.db.resolve args.name with
  | none =>
    rw [hr] at h
    cases h
  | some r =>
    simp only [hr, Option.elim] at h
    cases hu : args.kwargs os with
    | error e =>
      rw [hu] at h
      cases e <;> cases h
    | ok u =>
      simp only [hu] at h
      split_ifs at h with hempty
      · cases h
      obtain ⟨b, w₂, k₂, hupdate, h⟩ := Prog.exists_of_eval_bind h
      obtain ⟨_, w₃, k₃, hexport, h⟩ := Prog.exists_of_eval_bind h
      obtain ⟨found, w₄, k₄, hfound, h⟩ := Prog.exists_of_eval_bind h
      have hw₂ := eval_updateRepo args.name (by simpa using hempty) (fun n => ω (n + k₁)) w
      rw [hupdate] at hw₂
      have hw₃ : w₃ = w₂ := by
        rw [← eval_exportJson os (fun n => ω (n + k₂ + k₁)) w₂, hexport]
      rw [eval_resolve] at hfound
      cases hfound
      refine ⟨u, rfl, ?_⟩
      rw [← hw₂, ← hw₃]
      cases hlast : w₃.db.resolve args.name with
      | none =>
        rw [hlast] at h
        cases h
      | some q =>
        rw [hlast] at h
        cases h
        rfl

/-- The keyword arguments lack the git root that comes without a path. -/
theorem apply_kwargs {u : Db.RepoPatch} (h : args.kwargs os = .ok u) (r : Repo) :
    u.apply r = (args.requested os).apply r ↔
      args.expectedGitRoot = none ∨ args.path.isSome = true ∨
        r.expectedGitRoot = args.expectedGitRoot.map os.resolve := by
  unfold UpdateArgs.kwargs at h
  cases hp : args.path with
  | none =>
    rw [hp] at h
    cases h
    have hroot : (args.requested os).expectedGitRoot = args.expectedGitRoot.map os.resolve := by
      simp [UpdateArgs.requested, UpdateArgs.inferredRoot, hp]
    constructor
    · intro heq
      have hcol := congrArg Repo.expectedGitRoot heq
      simp only [Db.RepoPatch.apply, hroot, Option.none_or] at hcol
      cases hg : args.expectedGitRoot with
      | none => exact .inl rfl
      | some root =>
        rw [hg] at hcol
        exact .inr (.inr hcol)
    · intro hcond
      have hcol : (args.expectedGitRoot.map os.resolve).or r.expectedGitRoot =
          r.expectedGitRoot := by
        rcases hcond with hg | hsome | hg
        · rw [hg]
          rfl
        · cases hsome
        · rw [hg, Option.or_self]
      simp only [Db.RepoPatch.apply, hroot, hcol]
      simp [UpdateArgs.requested, hp]
  | some path =>
    simp only [Option.isSome_some, true_or, or_true, iff_true]
    have hu : u = args.requested os := by
      simp only [hp] at h
      unfold UpdateArgs.requested UpdateArgs.inferredRoot
      split_ifs at h with hskip
      · cases h
        simp [hp, hskip]
      · cases hc : Registry.preflightCheck os (os.resolve path) none with
        | error e =>
          rw [hc] at h
          cases h
        | ok check =>
          rw [hc] at h
          cases h
          simp [hp, hskip, hc]
    rw [hu]

/-- Where nothing is to be changed, nothing is missed. -/
theorem apply_of_requested {u : Db.RepoPatch} (h : args.kwargs os = .ok u)
    (heq : (args.requested os).apply r = r) : u.apply r = (args.requested os).apply r := by
  apply (apply_kwargs h r).mpr
  have hcol := congrArg Repo.expectedGitRoot heq
  simp only [Db.RepoPatch.apply, UpdateArgs.requested] at hcol
  cases hg : args.expectedGitRoot with
  | none => exact .inl rfl
  | some root =>
    rw [hg, Option.map_some, Option.some_or, Option.some_or] at hcol
    exact .inr (.inr hcol.symm)

/-- A command that returns 0 has stored the requested values, and changed
    nothing else, exactly if there was nothing to change, or it was given the
    name of the repo, and a git root together with a path. -/
theorem updateRepo_iff (hunique : w.db.NamesUnique) (hr : w.db.resolve args.name = some r)
    (h : (cmdUpdateRepo py os args).eval exec ω w = (.ok (.ok 0), w')) :
    w.db.Updates w'.db args.name r (args.requested os) ↔
      (args.requested os).apply r = r ∨
        (r.name = args.name ∧ (args.expectedGitRoot = none ∨ args.path.isSome = true ∨
          r.expectedGitRoot = args.expectedGitRoot.map os.resolve)) := by
  obtain ⟨u, hu, hdb⟩ := updateRepo_zero h
  rw [← apply_kwargs hu r]
  cases hname : w.db.getRepo args.name with
  | none =>
    -- the name is an alias, and nothing is written
    rw [hname, if_neg (by simp)] at hdb
    have hne : r.name ≠ args.name := by
      intro heq
      have hnot := List.find?_eq_none.mp hname r (Db.mem_of_resolve hr)
      simp [heq] at hnot
    rw [hdb]
    constructor
    · rintro ⟨hrow, -⟩
      rw [hr] at hrow
      exact .inl (Option.some.inj hrow).symm
    · rintro (heq | ⟨heq, -⟩)
      · exact ⟨by rw [hr, heq], fun _ _ => rfl⟩
      · exact absurd heq hne
  | some q =>
    rw [Db.resolve_of_getRepo hname] at hr
    cases hr
    rw [hname, if_pos (Option.isSome_some)] at hdb
    have hrow : w'.db.resolve args.name = some (u.apply r) := by
      rw [hdb]
      exact Db.resolve_of_getRepo (Db.getRepo_updateRepo hname)
    have hothers : ∀ id, id ≠ r.id → w'.db.getRepoById id = w.db.getRepoById id := by
      intro id hid
      rw [hdb]
      exact Db.getRepoById_updateRepo hunique hname hid
    constructor
    · rintro ⟨hrow', -⟩
      rw [hrow] at hrow'
      exact .inr ⟨Db.getRepo_name hname, Option.some.inj hrow'⟩
    · rintro (heq | ⟨-, heq⟩)
      · refine ⟨?_, hothers⟩
        rw [hrow, apply_of_requested hu heq]
      · exact ⟨by rw [hrow, heq], hothers⟩

/-- `update-repo main-repo --model opus` and the same with an alias. -/
def byName : UpdateArgs := { name := "main-repo", model := some "opus" }

def byAlias : UpdateArgs := { name := "app", model := some "opus" }

/-- A registry with one repo, which has an alias. -/
def mainWorld : World := Registry.registered Registry.mainEntry Registry.emptyWorld

/-- The world after a command. -/
def updated (args : UpdateArgs) (w : World) : World :=
  ((cmdUpdateRepo Settings.plain.py Registry.anyClone args).eval exec (fun _ => {}) w).2

theorem namesUnique_mainWorld : mainWorld.db.NamesUnique := by
  have hempty : Registry.emptyWorld.db.NamesUnique := fun r hr => absurd hr List.not_mem_nil
  exact namesUnique_exec (o := .createRepo ⟨"main-repo", "/srv/main", ["app"], some "/srv/main",
    "sonnet", 1⟩) (i := {}) hempty

theorem updateRepo_name : ∃ r, mainWorld.db.resolve "main-repo" = some r ∧
    mainWorld.db.Updates (updated byName mainWorld).db "main-repo" r
      (byName.requested Registry.anyClone) := by
  have hrun : (cmdUpdateRepo Settings.plain.py Registry.anyClone byName).eval exec (fun _ => {})
      mainWorld = (.ok (.ok 0), updated byName mainWorld) := rfl
  exact ⟨_, rfl, (updateRepo_iff namesUnique_mainWorld rfl hrun).mpr (.inr ⟨rfl, .inl rfl⟩)⟩

/-- The command returns 0 and the model stays. -/
theorem updateRepo_alias : ∃ r,
    (cmdUpdateRepo Settings.plain.py Registry.anyClone byAlias).eval exec (fun _ => {}) mainWorld =
      (.ok (.ok 0), updated byAlias mainWorld) ∧
    mainWorld.db.resolve "app" = some r ∧
      ¬ mainWorld.db.Updates (updated byAlias mainWorld).db "app" r
        (byAlias.requested Registry.anyClone) := by
  refine ⟨_, rfl, rfl, ?_⟩
  intro hupdates
  have hmodel := congrArg (Option.map Repo.model) hupdates.row
  revert hmodel
  decide

end Orchestrator

end DiscordAgent
