import DiscordAgent.Commands.UpdateRepo
import DiscordAgent.Model.RegistryFile
import DiscordAgent.Text.Loads

/-!
# A registry is carried over by `repos.json`

`export_json` writes the settings of every repo, and `import_json` creates the repos whose
names the registry does not have.

Specification: `Db.Merged`, the rows of a registry with the repos behind them that it lacked.

Results:
* `loads_exportText`: the file is read back as the dict that was written.
* `import_exported`: an import of an export merges the two registries and returns the number
  of the new repos.
* `exportText_merged`: into an empty registry nothing is lost, as its export is the same text.
-/

namespace DiscordAgent

open Interleave Sql

/-- The settings of a repo: the arguments of `create_repo` for it. -/
def Repo.settings (r : Repo) : Db.NewRepo :=
  ⟨r.name, r.path, r.aliases, r.expectedGitRoot, r.model, r.maxConcurrency⟩

namespace Db

/-! ## Specification -/

/-- The repos among `rs` whose names are free. -/
def missing (db : Db) (rs : List Repo) : List Repo :=
  rs.filter fun r => (db.getRepo r.name).isNone

/-- The rows of `db` are still there, as they were, and behind them stand new repos with the
    settings of those that were missing. Nothing else changed. -/
structure Merged (db db' : Db) (rs : List Repo) : Prop where
  others : { db with repos := db'.repos } = db'
  rows : ∃ added, db'.repos.rows = db.repos.rows ++ added ∧
    added.map Repo.settings = (db.missing rs).map Repo.settings

/-! ## One repo -/

variable {db db' db'' : Db} {r p : Repo} {rs : List Repo}

theorem missing_cons_of_some (h : db.getRepo r.name = some p) :
    db.missing (r :: rs) = db.missing rs :=
  List.filter_cons_of_neg (by simp [h])

theorem missing_cons_of_none (h : db.getRepo r.name = none) :
    db.missing (r :: rs) = r :: db.missing rs :=
  List.filter_cons_of_pos (by simp [h])

/-- A new repo fills no other name. -/
theorem missing_append (hrows : db'.repos.rows = db.repos.rows ++ [p])
    (hp : p.name ∉ rs.map Repo.name) : db'.missing rs = db.missing rs := by
  refine List.filter_congr fun r hr => ?_
  have hne : p.name ≠ r.name := fun heq => hp (heq ▸ List.mem_map_of_mem hr)
  rw [getRepo_append hrows, if_neg hne, Option.or_none]

/-- `create_repo` under a free name appends a row. -/
theorem createRepo_of_free {n : NewRepo} (h : db.getRepo n.name = none) (now : ℚ) :
    ∃ db', db.createRepo n now = (some (db.repos.seq + 1), db') ∧
      { db with repos := db'.repos } = db' ∧
      db'.repos.rows = db.repos.rows ++ [n.row now (db.repos.seq + 1)] := by
  unfold createRepo
  rw [h]
  exact ⟨_, rfl, rfl, rfl⟩

theorem Merged.nil : db.Merged db [] := ⟨rfl, [], (List.append_nil _).symm, rfl⟩

theorem Merged.skip (h : db.getRepo r.name = some p) (hm : db.Merged db' rs) :
    db.Merged db' (r :: rs) := by
  refine ⟨hm.others, ?_⟩
  rw [missing_cons_of_some h]
  exact hm.rows

/-- The rest of the repos is merged into a registry that has a new one. -/
theorem Merged.create (h : db.getRepo r.name = none)
    (hothers : { db with repos := db'.repos } = db')
    (hrows : db'.repos.rows = db.repos.rows ++ [p]) (hp : p.settings = r.settings)
    (hr : r.name ∉ rs.map Repo.name) (hm : db'.Merged db'' rs) : db.Merged db'' (r :: rs) := by
  obtain ⟨hothers', added, hadded, hsettings⟩ := hm
  have hname : p.name = r.name := congrArg NewRepo.name hp
  refine ⟨?_, p :: added, ?_, ?_⟩
  · rw [← hothers'] 
    rw [← hothers]
  · rw [hadded, hrows, List.append_assoc]
    rfl
  · rw [missing_cons_of_none h, List.map_cons, List.map_cons, hp, hsettings,
      missing_append hrows (hname ▸ hr)]

end Db

namespace Registry

open Json

variable {floatOf : List Char → PyFloat} {floatText : PyFloat → List Char} {r : Repo}
  {rs : List Repo}

/-- The range of an `INTEGER` column. -/
def Storable (r : Repo) : Prop := -2 ^ 63 ≤ r.maxConcurrency ∧ r.maxConcurrency < 2 ^ 63

/-! ## The items of the file -/

theorem mapM_textOf (xs : List String) : (xs.map Json.str).mapM textOf = .ok xs := by
  induction xs with
  | nil => rfl
  | cons x xs ih =>
    rw [List.map_cons, List.mapM_cons, ih]
    rfl

theorem aliasesOf_texts (xs : List String) : aliasesOf (.arr (xs.map .str)) = .ok xs := by
  cases xs with
  | nil => rfl
  | cons x xs => exact mapM_textOf (x :: xs)

theorem newRepoOf_obj {name path model : String} {aliases : List String} {root : Option String}
    {maxConcurrency : ℤ} {info : List (String × Json)}
    (hpath : info.lookup "path" = some (.str path))
    (haliases : aliasesOf ((info.lookup "aliases").getD (.arr [])) = .ok aliases)
    (hroot : gitRootOf ((info.lookup "expected_git_root").getD .null) = .ok root)
    (hmodel : textOf ((info.lookup "model").getD (.str "sonnet")) = .ok model)
    (hmax : integerOf ((info.lookup "max_concurrency").getD (.int 1)) = .ok maxConcurrency) :
    newRepoOf name (.obj info) = .ok ⟨name, path, aliases, root, model, maxConcurrency⟩ := by
  simp only [newRepoOf, hpath, haliases, hroot, hmodel, hmax]
  rfl

/-- The item of a repo gives its settings back. -/
theorem newRepoOf_exported (hr : Storable r) : newRepoOf r.name (exported r) = .ok r.settings := by
  have hroot : gitRootOf ((r.expectedGitRoot.map Json.str).getD .null) = .ok r.expectedGitRoot := by
    cases r.expectedGitRoot <;> rfl
  have hmax : integerOf (.int r.maxConcurrency) = .ok r.maxConcurrency := if_pos hr
  exact newRepoOf_obj rfl (aliasesOf_texts r.aliases) hroot rfl hmax

/-- The loop over the items of an export. -/
theorem eval_importItems (hnames : (rs.map Repo.name).Nodup) (hrange : ∀ r ∈ rs, Storable r)
    (w : World) (ω : ℕ → Inputs) (count : ℕ) :
    ∃ db', (importItems (rs.map fun r => (r.name, exported r)) count).eval exec ω w =
        (.ok (.ok (count + (w.db.missing rs).length)), w.setDb db') ∧ w.db.Merged db' rs := by
  induction rs generalizing w ω count with
  | nil => exact ⟨w.db, rfl, .nil⟩
  | cons r rs ih =>
    obtain ⟨hr, hnames⟩ := List.nodup_cons.mp hnames
    obtain ⟨hrange₁, hrange⟩ := List.forall_mem_cons.mp hrange
    rw [List.map_cons, importItems]
    simp only [Prog.bind_eq, Prog.perform_bind, Prog.eval, exec]
    cases hget : w.db.getRepo r.name with
    | some p =>
      obtain ⟨db', heval, hm⟩ := ih hnames hrange w (fun n => ω (n + 1)) count
      refine ⟨db', ?_, hm.skip hget⟩
      rw [Db.missing_cons_of_some hget]
      exact heval
    | none =>
      obtain ⟨db₁, hcreate, hothers, hrows⟩ :=
        Db.createRepo_of_free (n := r.settings) hget (ω 1).now
      obtain ⟨db', heval, hm⟩ :=
        ih hnames hrange (w.setDb db₁) (fun n => ω (n + 2)) (count + 1)
      refine ⟨db', ?_, Db.Merged.create hget hothers hrows rfl hr hm⟩
      simp only [newRepoOf_exported hrange₁, Prog.eval, exec, Nat.zero_add, hcreate]
      rw [World.setDb_db, Db.missing_append hrows hr] at heval
      have hcount : count + 1 + (w.db.missing rs).length =
          count + (w.db.missing (r :: rs)).length := by
        rw [Db.missing_cons_of_none hget, List.length_cons]
        omega
      rw [← hcount]
      exact heval

/-! ## The file -/

theorem nodup_names {db : Db} (hu : db.NamesUnique) :
    ((listRepos db.repos.rows).map Repo.name).Nodup := by
  have hperm : (listRepos db.repos.rows).Perm db.repos.rows := List.perm_insertionSort _ _
  refine (hperm.map Repo.name).nodup_iff.mpr ?_
  refine List.pairwise_map.mpr (db.repos.sorted.imp_of_mem ?_)
  intro r s hr hs hlt heq
  exact absurd (hu r hr s hs heq) (Nat.ne_of_lt hlt)

theorem writable_texts (xs : List String) :
    WritableItems floatOf floatText (xs.map Json.str) := by
  induction xs with
  | nil => trivial
  | cons x xs ih => exact ⟨trivial, ih⟩

theorem writable_exported (hr : Storable r) : Writable floatOf floatText (exported r) := by
  have hdigits : (Nat.toDigits 10 r.maxConcurrency.natAbs).length ≤ maxIntDigits := by
    have hlt : r.maxConcurrency.natAbs < 10 ^ 19 := by
      obtain ⟨hlow, hhigh⟩ := hr
      omega
    exact ((Nat.length_toDigits_le_iff (by decide) (by decide)).mpr hlt).trans (by decide)
  have hroot : Writable floatOf floatText ((r.expectedGitRoot.map Json.str).getD .null) := by
    cases r.expectedGitRoot <;> trivial
  exact ⟨by simp, trivial, writable_texts r.aliases, trivial, hdigits, hroot, trivial⟩

theorem writable_items (hrange : ∀ r ∈ rs, Storable r) :
    WritableFields floatOf floatText (rs.map fun r => (r.name, exported r)) := by
  induction rs with
  | nil => trivial
  | cons r rs ih =>
    obtain ⟨hr, hrange⟩ := List.forall_mem_cons.mp hrange
    exact ⟨writable_exported hr, ih hrange⟩

variable {db : Db}

theorem exportData_eq (hu : db.NamesUnique) :
    exportData db.repos.rows =
      .obj ((listRepos db.repos.rows).map fun r => (r.name, exported r)) := by
  rw [exportData, dictOf_of_nodup]
  rw [List.map_map]
  exact nodup_names hu

/-- The file is read back as the dict that was written. -/
theorem loads_exportText (hu : db.NamesUnique) (hrange : ∀ r ∈ db.repos.rows, Storable r) :
    loads floatOf (exportText floatText db.repos.rows) = some (exportData db.repos.rows) := by
  refine loads_encode ?_
  rw [exportData_eq hu]
  refine ⟨?_, writable_items fun r hr => hrange r (mem_orderBy.mp hr)⟩
  rw [List.map_map]
  exact nodup_names hu

/-! ## The import -/

/-- An import of an export fails at no item: it merges the two registries, and it returns
    how many repos are new. -/
theorem import_exported (hu : db.NamesUnique) (hrange : ∀ r ∈ db.repos.rows, Storable r)
    {files : Files} {jsonPath : Option String}
    (hfile : files.read (files.importPath jsonPath) = some (exportText floatText db.repos.rows))
    (w : World) (ω : ℕ → Inputs) :
    ∃ db', (importJson floatOf files jsonPath).eval exec ω w =
        (.ok (.ok (w.db.missing (listRepos db.repos.rows)).length), w.setDb db') ∧
      w.db.Merged db' (listRepos db.repos.rows) := by
  obtain ⟨db', heval, hm⟩ := eval_importItems (nodup_names hu)
    (fun r hr => hrange r (mem_orderBy.mp hr)) w ω 0
  refine ⟨db', ?_, hm⟩
  rw [Nat.zero_add] at heval
  simp only [importJson, hfile, loads_exportText hu hrange, exportData_eq hu]
  exact heval

/-- A registry with two repos. -/
def twoRepos : Db :=
  (registered { name := "api", path := "/srv/api" } (registered mainEntry emptyWorld)).db

/-- Another machine, which has one of the names for another place. -/
def otherMachine : World := registered { mainEntry with path := "/home/main" } emptyWorld

/-- Its files, with a copy of the export. -/
def copied : Files where
  xdgPath := "/config/repos.json"
  legacyPath := "/clone/config/repos.json"
  pathStr := id
  read path :=
    if path = "/config/repos.json" then some (exportText (fun _ => []) twoRepos.repos.rows)
    else none

theorem import_exported_otherMachine : ∃ db',
    (importJson (fun _ => .nan) copied none).eval exec (fun _ => {}) otherMachine =
      (.ok (.ok 1), otherMachine.setDb db') ∧
    otherMachine.db.Merged db' (listRepos twoRepos.repos.rows) := by
  have hu : twoRepos.NamesUnique := by
    unfold Db.NamesUnique
    decide
  have hrange : ∀ r ∈ twoRepos.repos.rows, Storable r := by
    unfold Storable
    decide
  exact import_exported hu hrange rfl otherMachine _

/-! ## The next export -/

instance : Std.Total fun r s : Repo => r.name ≤ s.name := ⟨fun r s => String.le_total r.name s.name⟩

instance : IsTrans Repo fun r s => r.name ≤ s.name := ⟨fun _ _ _ h h' => String.le_trans h h'⟩

/-- The item of a repo depends on its settings only. -/
theorem map_item {added : List Repo} (h : added.map Repo.settings = rs.map Repo.settings) :
    (added.map fun r => (r.name, exported r)) = rs.map fun r => (r.name, exported r) := by
  let item (n : Db.NewRepo) : String × Json := (n.name, exported (n.row 0 0))
  have hitem : (fun r : Repo => (r.name, exported r)) = item ∘ Repo.settings := rfl
  rw [hitem, ← List.map_map, ← List.map_map, h]

/-- An export that is imported into an empty registry is exported again as the same text. -/
theorem exportText_merged {db' : Db} {rows : List Repo} (hempty : db.repos.rows = [])
    (hm : db.Merged db' (listRepos rows)) :
    exportText floatText db'.repos.rows = exportText floatText rows := by
  obtain ⟨-, added, hadded, hsettings⟩ := hm
  have hmissing : db.missing (listRepos rows) = listRepos rows := by
    refine List.filter_eq_self.mpr fun r _ => ?_
    unfold Db.getRepo
    rw [hempty]
    rfl
  rw [hmissing] at hsettings
  have hsorted : listRepos added = added := by
    refine List.Pairwise.insertionSort_eq ?_
    have hnames : added.map Repo.name = (listRepos rows).map Repo.name := by
      have h := congrArg (List.map Db.NewRepo.name) hsettings
      rw [List.map_map, List.map_map] at h
      exact h
    refine List.pairwise_map.mp (?_ : (added.map Repo.name).Pairwise (· ≤ ·))
    rw [hnames]
    exact List.pairwise_map.mpr (List.pairwise_insertionSort _ _)
  rw [hempty, List.nil_append] at hadded
  rw [exportText, exportText, exportData, exportData, hadded, hsorted, map_item hsettings]

end Registry

end DiscordAgent
