import DiscordAgent.Chaining.Payload
import DiscordAgent.Model.Registry
import DiscordAgent.System.Basic

/-!
# Registering a repo

`Registry.register` refuses a name that another repo has, and looks at no
alias. `get_repo_by_alias` finds a name before an alias, and the alias of an
older repo before that of a newer one.

Specification: `Db.Extends`, what was found before is still found, and the new
repo is found under its name and its aliases.

Results:
* `register_iff`: a registration extends the registry exactly if neither the
  name nor an alias was found before.
* `register_redirects`: a repo whose name is the alias of another one.
-/

namespace DiscordAgent

open Interleave Sql

namespace Db

/-! ## Lookups -/

/-- The repo that `resolve` finds. -/
def resolve (db : Db) (x : String) : Option Repo :=
  (db.getRepo x).or (db.repos.rows.find? fun r => r.aliases.contains x)

variable {db db' : Db} {x : String} {p r : Repo}

theorem repoByAlias_str (py : PyLib) (x : String) :
    db.repoByAlias py (.str x) = .ok (db.resolve x) := by
  unfold repoByAlias
  rw [py.bindText_str]
  rfl

theorem resolve_of_getRepo (h : db.getRepo x = some r) : db.resolve x = some r := by
  unfold resolve
  rw [h, Option.some_or]

theorem resolve_of_none (h : db.getRepo x = none) :
    db.resolve x = db.repos.rows.find? fun r => r.aliases.contains x := by
  unfold resolve
  rw [h, Option.none_or]

theorem mem_of_resolve (h : db.resolve x = some r) : r ∈ db.repos.rows := by
  unfold resolve at h
  rcases Option.or_eq_some_iff.mp h with h | ⟨-, h⟩
  · exact List.mem_of_find?_eq_some h
  · exact List.mem_of_find?_eq_some h

/-! ## One more repo -/

section Append

variable (hrows : db'.repos.rows = db.repos.rows ++ [p])
include hrows

theorem getRepo_append :
    db'.getRepo x = (db.getRepo x).or (if p.name = x then some p else none) := by
  unfold getRepo
  rw [hrows, List.find?_append, List.find?_singleton]
  simp

/-- What was found is found again, unless the new repo has this name. -/
theorem resolve_append_of_some (h : db.resolve x = some r) (hne : p.name ≠ x) :
    db'.resolve x = some r := by
  unfold resolve at h ⊢
  rw [getRepo_append hrows, if_neg hne, Option.or_none]
  rcases Option.or_eq_some_iff.mp h with h | ⟨hn, h⟩
  · rw [h, Option.some_or]
  · rw [hn, Option.none_or, hrows, List.find?_append, h, Option.some_or]

theorem resolve_append_name (h : db.getRepo p.name = none) : db'.resolve p.name = some p := by
  apply resolve_of_getRepo
  rw [getRepo_append hrows, h, if_pos rfl, Option.none_or]

theorem resolve_append_alias (h : db.resolve x = none) (hx : x ∈ p.aliases) :
    db'.resolve x = some p := by
  obtain ⟨hname, halias⟩ := Option.or_eq_none_iff.mp h
  by_cases hp : p.name = x
  · subst hp
    exact resolve_append_name hrows hname
  · rw [resolve_of_none, hrows, List.find?_append, halias, Option.none_or]
    · simpa using hx
    · rw [getRepo_append hrows, hname, if_neg hp, Option.none_or]

end Append

/-! ## Specification -/

/-- All names and aliases are found as before, and the repo `id` is found under
    its name and its aliases. -/
structure Extends (db db' : Db) (id : ℕ) (name : String) (aliases : List String) : Prop where
  keeps : ∀ x r, db.resolve x = some r → db'.resolve x = some r
  new : ∃ p, db'.getRepoById id = some p ∧ ∀ x ∈ name :: aliases, db'.resolve x = some p

end Db

namespace Registry

/-! ## `register` alone -/

variable {os : Os} {entry : NewEntry} {reg : Registered} {w w' : World} {ω : ℕ → Inputs}

/-- A registration that succeeds appends a row. -/
theorem register_ok (h : (register os entry).eval exec ω w = (.ok (.ok reg), w')) :
    w.db.getRepo entry.name = none ∧ reg.id = w.db.repos.seq + 1 ∧
      ∃ p, p.id = reg.id ∧ p.name = entry.name ∧ p.aliases = entry.aliases ∧
        w'.db.repos.rows = w.db.repos.rows ++ [p] := by
  simp only [register, Prog.bind_eq, Prog.perform_bind, Prog.eval, exec] at h
  cases hn : w.db.getRepo entry.name with
  | some r =>
    rw [hn] at h
    cases h
  | none =>
    simp only [hn] at h
    cases hroot : entry.gitRoot os with
    | error e =>
      rw [hroot] at h
      cases e <;> cases h
    | ok root =>
      simp only [hroot, Prog.eval, exec, Db.createRepo, hn] at h
      cases h
      exact ⟨rfl, rfl, _, rfl, rfl, rfl, rfl⟩

/-- A registration that succeeds extends the registry exactly if its name and
    its aliases were free. -/
theorem register_iff (h : (register os entry).eval exec ω w = (.ok (.ok reg), w')) :
    w.db.Extends w'.db reg.id entry.name entry.aliases ↔
      ∀ x ∈ entry.name :: entry.aliases, w.db.resolve x = none := by
  obtain ⟨hname, hid, p, hp, hpname, hpaliases, hrows⟩ := register_ok h
  have hmem : p ∈ w'.db.repos.rows := by
    rw [hrows]
    exact List.mem_append_right _ List.mem_cons_self
  have hget : w'.db.getRepoById reg.id = some p := by
    rw [← hp]
    exact Table.get?_of_mem hmem
  constructor
  · rintro ⟨hkeeps, q, hq, hnew⟩ x hx
    rw [hget] at hq
    cases hq
    cases hres : w.db.resolve x with
    | none => rfl
    | some r =>
      -- the new row would be an old one
      have heq := (hkeeps x r hres).symm.trans (hnew x hx)
      cases heq
      have hle := w.db.repos.bounded p (Db.mem_of_resolve hres)
      have hid' : Row.id p = w.db.repos.seq + 1 := hp.trans hid
      omega
  · intro hfree
    obtain ⟨hfreename, hfreealiases⟩ := List.forall_mem_cons.mp hfree
    refine ⟨fun x r hx => ?_, p, hget, List.forall_mem_cons.mpr ⟨?_, fun x hx => ?_⟩⟩
    · apply Db.resolve_append_of_some hrows hx
      rintro rfl
      rw [hpname, hfreename] at hx
      cases hx
    · rw [← hpname]
      apply Db.resolve_append_name hrows
      rw [hpname]
      exact hname
    · apply Db.resolve_append_alias hrows (hfreealiases x hx)
      rw [hpaliases]
      exact hx

/-- A file system on which every path is the root of a clone. -/
def anyClone : Os := ⟨id, fun _ => true, fun _ => true, fun path _ => .ok (.ok path), none⟩

/-- A repo with an alias, and one with the name of this alias. -/
def mainEntry : NewEntry := { name := "main-repo", path := "/srv/main", aliases := ["app"] }

def appEntry : NewEntry := { name := "app", path := "/srv/app" }

/-- The world after a registration. -/
def registered (entry : NewEntry) (w : World) : World :=
  ((register anyClone entry).eval exec (fun _ => {}) w).2

/-- A new database. -/
def emptyWorld : World := (Sys.boot default fun _ => none).shared

theorem register_free : emptyWorld.db.Extends (registered mainEntry emptyWorld).db 1 "main-repo"
    ["app"] := by
  have hrun : (register anyClone mainEntry).eval exec (fun _ => {}) emptyWorld =
      (.ok (.ok ⟨1, "main-repo", "/srv/main", some "/srv/main"⟩),
        registered mainEntry emptyWorld) := rfl
  exact (register_iff hrun).mpr (by decide)

/-- The alias of repo 1 finds repo 2 after the registration of repo 2. -/
theorem register_redirects : ∃ (w : World) (reg : Registered),
    (register anyClone appEntry).eval exec (fun _ => {}) w =
        (.ok (.ok reg), registered appEntry w) ∧
      (w.db.resolve "app").map Repo.path = some "/srv/main" ∧
      ((registered appEntry w).db.resolve "app").map Repo.path = some "/srv/app" :=
  ⟨registered mainEntry emptyWorld, ⟨2, "app", "/srv/app", some "/srv/app"⟩, rfl, by decide,
    by decide⟩

end Registry

end DiscordAgent
