import DiscordAgent.Model.JsonDecoder
import DiscordAgent.Model.Registry

/-!
# `repos.json`

What `export_json` of `lib/registry.py` writes, and `import_json`, which adds the repos of
such a file to a registry.

A value in the file that is not of its column's type is refused by `sqlite3` or converted;
the import stops at either in the model.
-/

namespace DiscordAgent

open Interleave Sql

namespace Registry

/-! ## `export_json` -/

/-- `ORDER BY name` of `list_repos` (`lib/db.py` lines 295–302). -/
def listRepos (rows : List Repo) : List Repo := orderBy (fun r s => r.name ≤ s.name) rows

/-- The value of a repo in the file (lines 138–144). -/
def exported (r : Repo) : Json :=
  .obj
    [("path", .str r.path), ("aliases", .arr (r.aliases.map .str)), ("model", .str r.model),
      ("max_concurrency", .int r.maxConcurrency),
      ("expected_git_root", (r.expectedGitRoot.map .str).getD .null)]

/-- The dict `data` of `export_json` (lines 136–144). -/
def exportData (rows : List Repo) : Json :=
  .obj (Json.dictOf ((listRepos rows).map fun r => (r.name, exported r)))

/-- The text that `export_json` writes (line 146). -/
def exportText (floatText : PyFloat → List Char) (rows : List Repo) : List Char :=
  Json.encode floatText { ensureAscii := false, indent := some 2 } 0 (exportData rows)

/-! ## `import_json` -/

/-- The files that `import_json` looks at. -/
structure Files where
  /-- `repos_json_path()`. -/
  xdgPath : String
  /-- `LEGACY_REPOS_JSON`. -/
  legacyPath : String
  /-- `str(Path(p))`. -/
  pathStr : String → String
  /-- The text of a file that exists. -/
  read : String → Option (List Char)

/-- How `import_json` fails. -/
inductive ImportErr where
  /-- A `RegistryError` with this text. -/
  | registryError (message : String)
  /-- A `ValueError` of `json.load`. -/
  | valueError
  | keyError (key : String)
  | typeError
  | attributeError
  /-- A value that is not of its column's type. -/
  | wrongType

/-- What a `TEXT` column stores. -/
def textOf : Json → Except ImportErr String
  | .str s => .ok s
  | _ => .error .wrongType

/-- What the column `expected_git_root` stores, which may be `NULL`. -/
def gitRootOf : Json → Except ImportErr (Option String)
  | .null => .ok none
  | v => (textOf v).map some

/-- What an `INTEGER` column stores: an integer of 64 bits. -/
def integerOf : Json → Except ImportErr ℤ
  | .int n => if -2 ^ 63 ≤ n ∧ n < 2 ^ 63 then .ok n else .error .wrongType
  | _ => .error .wrongType

/-- `aliases or []`. -/
def aliasesOf (v : Json) : Except ImportErr (List String) :=
  if !v.truthy then .ok []
  else
    match v with
    | .arr vs => vs.mapM textOf
    | _ => .error .wrongType

/-- The arguments of `create_repo` for an item of the file (lines 165–172). -/
def newRepoOf (name : String) : Json → Except ImportErr Db.NewRepo
  | .obj info => do
    match info.lookup "path" with
    | none => .error (.keyError "path")
    | some path =>
      let path ← textOf path
      let aliases ← aliasesOf ((info.lookup "aliases").getD (.arr []))
      let gitRoot ← gitRootOf ((info.lookup "expected_git_root").getD .null)
      let model ← textOf ((info.lookup "model").getD (.str "sonnet"))
      let maxConcurrency ← integerOf ((info.lookup "max_concurrency").getD (.int 1))
      .ok ⟨name, path, aliases, gitRoot, model, maxConcurrency⟩
  | _ => .error .typeError

/-- The loop of `import_json` (lines 161–174). -/
def importItems : List (String × Json) → ℕ → Py (Except ImportErr ℕ)
  | [], count => .ret (.ok count)
  | (name, info) :: items, count => do
    match ← op (.getRepo name) with
    | some _ => importItems items count
    | none =>
      match newRepoOf name info with
      | .error e => .ret (.error e)
      | .ok n =>
        match ← op (.createRepo n) with
        | none => .raise .sqliteError
        | some _ => importItems items (count + 1)

/-- The file that `import_json` reads (lines 152–156). -/
def Files.importPath (files : Files) (jsonPath : Option String) : String :=
  match jsonPath.filter (· ≠ "") with
  | some path => files.pathStr path
  | none => if (files.read files.xdgPath).isSome then files.xdgPath else files.legacyPath

/-- `import_json` (lines 150–174). -/
def importJson (floatOf : List Char → PyFloat) (files : Files) (jsonPath : Option String) :
    Py (Except ImportErr ℕ) :=
  let path := files.importPath jsonPath
  match files.read path with
  | none => .ret (.error (.registryError ("File not found: " ++ path)))
  | some text =>
    match Json.loads floatOf text with
    | none => .ret (.error .valueError)
    | some (.obj data) => importItems data 0
    | some _ => .ret (.error .attributeError)

end Registry

end DiscordAgent
