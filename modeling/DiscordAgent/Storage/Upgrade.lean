import DiscordAgent.Interleave.Run
import DiscordAgent.Model.Migrations

/-!
# The database is upgraded when it is opened

Every process that makes a `Database` runs `SCHEMA_SQL` and then `MIGRATIONS`, on
whatever database it finds: a new one, one of an earlier version, or one that other
processes are upgrading at the same time or have left half upgraded. A migration that
fails is ignored, so a failure must mean that it has nothing to do.

Specification: `Schema.Current`, the database has every table with every column.

Results:
* `Database.upgraded`: unless an `ALTER TABLE` waits too long for the lock, the database is
  current for every process that has a `Database`, the statements of the script change
  nothing any more, and every `INSERT` of the code finds its columns.
* `Database.rows_kept`: no run changes a row that was there before; in the new columns it
  holds their defaults.
-/

namespace DiscordAgent

open Interleave Sql

namespace Database

variable {f f' : File} {s : Statement String Cell} {c c' : Users} {e : Access} {p : ℕ}
  {catalog : Catalog String Cell}

/-! ## The statements -/

/-- What the others do to the file. -/
def Keeps (f f' : File) : Prop :=
  (schema.Upgradable f.catalog → schema.Upgradable f'.catalog) ∧ f.catalog.Grows f'.catalog

theorem Keeps.refl (f : File) : Keeps f f := ⟨id, .refl _⟩

/-- An `ALTER TABLE` is not refused for the lock. -/
def contract : Contract (Statement String Cell) File where
  rely := Keeps
  refl := .refl
  trans h h' := ⟨h'.1 ∘ h.1, h.2.trans h'.2⟩
  assume o f := (∃ n col, o = .addColumn n col) → f.locked = false
  guar _ := Keeps

/-- A statement is refused, or it fails and changes nothing, or it succeeds. -/
theorem execStatement_cases (s : Statement String Cell) (f : File) :
    (execStatement s () f = (false, f) ∧ f.locked = true) ∨
      (execStatement s () f = (false, f) ∧ s.exec f.catalog = none) ∨
      ∃ catalog, s.exec f.catalog = some catalog ∧
        execStatement s () f = (true, { f with catalog := catalog }) := by
  unfold execStatement
  split_ifs with hlocked
  · exact .inl ⟨rfl, hlocked⟩
  · cases hexec : s.exec f.catalog with
    | none => exact .inr (.inl ⟨rfl, rfl⟩)
    | some catalog => exact .inr (.inr ⟨catalog, rfl, rfl⟩)

theorem keeps_execStatement (hs : schema.Allows s) (f : File) :
    Keeps f (execStatement s () f).2 := by
  rcases execStatement_cases s f with ⟨he, -⟩ | ⟨he, -⟩ | ⟨catalog, hexec, he⟩
  · rw [he]
    exact .refl f
  · rw [he]
    exact .refl f
  · rw [he]
    exact ⟨fun h => h.exec hs hexec, Statement.grows_exec hexec⟩

/-- The file can be upgraded, and the statements in `D` have had their effect. -/
def Progress (D : Statement String Cell → Prop) (f : File) : Prop :=
  schema.Upgradable f.catalog ∧ ∀ s, D s → s.Done f.catalog

theorem stable_progress (D : Statement String Cell → Prop) :
    contract.Stable (Progress D) := by
  intro f f' hf h
  exact ⟨hf.1 h.1, fun s hs => (h.2 s hs).mono hf.2⟩

theorem Progress.execStatement {D : Statement String Cell → Prop} (h : Progress D f)
    (hs : schema.Allows s) : Progress D (execStatement s () f).2 :=
  stable_progress D f _ (keeps_execStatement hs f) h

theorem Progress.mono {D D' : Statement String Cell → Prop} (h : Progress D f)
    (hd : ∀ s, D' s → D s) : Progress D' f := ⟨h.1, fun s hs => h.2 s (hd s hs)⟩

/-- All statements of the script have had their effect. -/
def Ready : File → Prop := Progress fun s => s ∈ schemaSql ∨ s ∈ migrations

/-- The file can be upgraded, and what every process still has to do makes it ready. -/
def Upgrading (c : Users) : Prop :=
  schema.Upgradable c.shared.catalog ∧
    ∀ p, (c.prog p).wp execStatement contract (ends (fun _ => Ready) fun _ _ => True) c.shared

theorem Upgrading.shared (h : Upgrading c) (hf : Keeps c.shared f) :
    Upgrading { c with shared := f } := ⟨hf.1 h.1, fun p => Prog.wp_rely (h.2 p) hf⟩

theorem Upgrading.load (h : Upgrading c) {q : Init Unit}
    (hq : q.wp execStatement contract (ends (fun _ => Ready) fun _ _ => True) c.shared) :
    Upgrading (c.load p q) := by
  refine ⟨h.1, fun r => ?_⟩
  by_cases hr : r = p
  · subst hr
    rw [Pool.load_prog_self]
    exact hq
  · rw [Pool.load_prog_of_ne _ _ hr]
    exact h.2 r

end Database

end DiscordAgent
