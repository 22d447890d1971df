import Mathlib.Data.List.Nodup
import Mathlib.Logic.Function.Basic
import Mathlib.Tactic.SplitIfs

/-!
# Schemas that grow

A database is upgraded by running the declarations of its tables and then one
`ALTER TABLE ... ADD COLUMN` for every column that its tables did not always have. A
statement that has nothing to do leaves the database alone or fails, so the whole
script may be run on a database of any earlier version, or on one on which it was
interrupted.

* `Relation`: a table whose rows are as wide as its columns.
* `Relation.Grows`: rows and columns were appended.
* `Schema.Upgradable`: the tables have their original columns, and the others are as declared
  or may be left out.
* `Schema.Upgradable.exec`, `Schema.done_exec`: what a statement of the schema does.
* `Schema.current_of_done`: a schema all of whose statements have had their effect is current.
* `Schema.Current.insert`: a current table takes every row that names the mandatory columns.
-/

namespace Sql

/-- A column of a table. -/
structure Column (ν κ : Type) where
  name : ν
  /-- What a row holds that does not name the column; none if every row must name it. -/
  absent : Option κ
  deriving DecidableEq

/-- The rows of a table, as wide as its columns. -/
structure Relation (ν κ : Type) where
  columns : List (Column ν κ)
  rows : List (List κ)
  nodup : (columns.map Column.name).Nodup
  width : ∀ r ∈ rows, r.length = columns.length

variable {ν κ : Type}

/-! ## Rows -/

section Rows

variable [DecidableEq ν]

/-- The cell of a row in the column with this name. -/
def cellOf (columns : List (Column ν κ)) (r : List κ) (n : ν) : Option κ :=
  ((columns.map Column.name).zip r).lookup n

/-- The row of an `INSERT` that names some of the columns. -/
def rowOf (given : List (ν × κ)) : List (Column ν κ) → Option (List κ)
  | [] => some []
  | c :: cs => ((given.lookup c.name).or c.absent).bind fun v => (rowOf given cs).map (v :: ·)

variable {columns : List (Column ν κ)} {given : List (ν × κ)} {r : List κ} {n : ν} {v : κ}
  {c : Column ν κ}

theorem rowOf_cons_eq_some : rowOf given (c :: columns) = some r ↔
    ∃ v s, (given.lookup c.name).or c.absent = some v ∧ rowOf given columns = some s ∧
      r = v :: s := by
  rw [rowOf, Option.bind_eq_some_iff]
  constructor
  · rintro ⟨v, hv, hr⟩
    obtain ⟨s, hs, rfl⟩ := Option.map_eq_some_iff.mp hr
    exact ⟨v, s, hv, hs, rfl⟩
  · rintro ⟨v, s, hv, hs, rfl⟩
    exact ⟨v, hv, Option.map_eq_some_iff.mpr ⟨s, hs, rfl⟩⟩

theorem length_rowOf (h : rowOf given columns = some r) : r.length = columns.length := by
  induction columns generalizing r with
  | nil =>
    cases h
    rfl
  | cons c columns ih =>
    obtain ⟨v, s, -, hs, rfl⟩ := rowOf_cons_eq_some.1 h
    rw [List.length_cons, List.length_cons, ih hs]

theorem exists_rowOf (h : ∀ c ∈ columns, ((given.lookup c.name).or c.absent).isSome) :
    ∃ r, rowOf given columns = some r := by
  induction columns with
  | nil => exact ⟨[], rfl⟩
  | cons c columns ih =>
    obtain ⟨v, hv⟩ := Option.isSome_iff_exists.mp (h c List.mem_cons_self)
    obtain ⟨s, hs⟩ := ih fun d hd => h d (List.mem_cons_of_mem c hd)
    exact ⟨v :: s, rowOf_cons_eq_some.2 ⟨v, s, hv, hs, rfl⟩⟩

theorem cellOf_cons :
    cellOf (c :: columns) (v :: r) n = if n = c.name then some v else cellOf columns r n := by
  rw [cellOf, List.map_cons, List.zip_cons_cons, List.lookup_cons]
  by_cases h : n = c.name
  · rw [if_pos h, beq_iff_eq.mpr h]
  · rw [if_neg h, beq_eq_false_iff_ne.mpr h]
    rfl

/-- A row holds what was given, and where nothing was given what the column says. -/
theorem cellOf_rowOf (hn : (columns.map Column.name).Nodup) (h : rowOf given columns = some r)
    (hc : c ∈ columns) : cellOf columns r c.name = (given.lookup c.name).or c.absent := by
  induction columns generalizing r with
  | nil => cases hc
  | cons d columns ih =>
    obtain ⟨v, s, hv, hs, rfl⟩ := rowOf_cons_eq_some.1 h
    obtain ⟨hd, hn⟩ := List.nodup_cons.mp hn
    rw [cellOf_cons]
    rcases List.mem_cons.mp hc with rfl | hc
    · rw [if_pos rfl, hv]
    · have hne : c.name ≠ d.name := by
        intro heq
        exact hd (heq ▸ List.mem_map_of_mem hc)
      rw [if_neg hne, ih hn hs hc]

variable {more : List (Column ν κ × κ)}

/-- The old columns of a longer row. -/
theorem cellOf_append_left (hr : r.length = columns.length) (hc : c ∈ columns) :
    cellOf (columns ++ more.map Prod.fst) (r ++ more.map Prod.snd) c.name =
      cellOf columns r c.name := by
  have hmem : c.name ∈ ((columns.map Column.name).zip r).map Prod.fst := by
    rw [List.map_fst_zip (by rw [List.length_map]; exact Nat.le_of_eq hr.symm)]
    exact List.mem_map_of_mem hc
  rw [cellOf, List.map_append, List.zip_append (by rw [List.length_map, hr]), List.lookup_append]
  exact Option.or_of_isSome (List.lookup_isSome_iff.mpr (by simpa using hmem))

theorem cellOf_mem (hn : ((more.map Prod.fst).map Column.name).Nodup) (hm : (c, v) ∈ more) :
    cellOf (more.map Prod.fst) (more.map Prod.snd) c.name = some v := by
  induction more with
  | nil => cases hm
  | cons m more ih =>
    obtain ⟨hnot, hn⟩ := List.nodup_cons.mp hn
    rw [List.map_cons, List.map_cons, cellOf_cons]
    rcases List.mem_cons.mp hm with rfl | hm
    · exact if_pos rfl
    · have hmem := List.mem_map_of_mem (f := Column.name) (List.mem_map_of_mem (f := Prod.fst) hm)
      rw [if_neg (ne_of_mem_of_not_mem hmem hnot), ih hn hm]

/-- The new columns of a longer row. -/
theorem cellOf_append_right
    (hn : ((columns ++ more.map Prod.fst).map Column.name).Nodup) (hr : r.length = columns.length)
    (hm : (c, v) ∈ more) :
    cellOf (columns ++ more.map Prod.fst) (r ++ more.map Prod.snd) c.name = some v := by
  induction columns generalizing r with
  | nil =>
    obtain rfl := List.eq_nil_of_length_eq_zero hr
    exact cellOf_mem hn hm
  | cons d columns ih =>
    cases r with
    | nil => cases hr
    | cons w r =>
      obtain ⟨hnot, hn⟩ := List.nodup_cons.mp hn
      have hmem : c.name ∈ (columns ++ more.map Prod.fst).map Column.name :=
        List.mem_map_of_mem (List.mem_append_right _ (List.mem_map_of_mem (f := Prod.fst) hm))
      rw [List.cons_append, List.cons_append, cellOf_cons, if_neg (ne_of_mem_of_not_mem hmem hnot)]
      exact ih hn (Nat.succ.inj hr)

end Rows

/-! ## Tables -/

namespace Relation

variable [DecidableEq ν] {t t' t'' : Relation ν κ}

def names (t : Relation ν κ) : List ν := t.columns.map Column.name

/-- The cell of a row. -/
def cell (t : Relation ν κ) (r : List κ) (n : ν) : Option κ := cellOf t.columns r n

/-- `ALTER TABLE ... ADD COLUMN`: the old rows hold what the column says. -/
def addColumn (t : Relation ν κ) (c : Column ν κ) : Option (Relation ν κ) :=
  if h : c.name ∈ t.names then none
  else c.absent.map fun v =>
    { columns := t.columns ++ [c]
      rows := t.rows.map (· ++ [v])
      nodup := by
        rw [List.map_append, List.map_singleton]
        exact t.nodup.append (List.nodup_singleton _) (List.disjoint_singleton.mpr h)
      width := by
        intro r hr
        obtain ⟨s, hs, rfl⟩ := List.mem_map.mp hr
        rw [List.length_append, List.length_append, t.width s hs]
        rfl }

/-- `INSERT INTO ... (names) VALUES (...)`. -/
def insert (t : Relation ν κ) (given : List (ν × κ)) : Option (Relation ν κ) :=
  if ∀ p ∈ given, p.1 ∈ t.names then
    match h : rowOf given t.columns with
    | some r => some
        { t with
          rows := t.rows ++ [r]
          width := by
            intro s hs
            rcases List.mem_append.mp hs with hs | hs
            · exact t.width s hs
            · rw [List.mem_singleton.mp hs, length_rowOf h] }
    | none => none
  else none

/-- Columns were appended, and rows: the old rows hold what the new columns say. -/
def Grows (t t' : Relation ν κ) : Prop :=
  ∃ (more : List (Column ν κ × κ)) (new : List (List κ)),
    (∀ m ∈ more, m.1.absent = some m.2) ∧ t'.columns = t.columns ++ more.map Prod.fst ∧
      t'.rows = t.rows.map (· ++ more.map Prod.snd) ++ new

omit [DecidableEq ν] in
theorem Grows.refl (t : Relation ν κ) : t.Grows t :=
  ⟨[], [], by simp, (List.append_nil _).symm, by simp⟩

omit [DecidableEq ν] in
theorem Grows.trans (h : t.Grows t') (h' : t'.Grows t'') : t.Grows t'' := by
  obtain ⟨more, new, hsome, hcolumns, hrows⟩ := h
  obtain ⟨more', new', hsome', hcolumns', hrows'⟩ := h'
  refine ⟨more ++ more', new.map (· ++ more'.map Prod.snd) ++ new', ?_, ?_, ?_⟩
  · intro m hm
    exact (List.mem_append.mp hm).elim (hsome m) (hsome' m)
  · rw [hcolumns', hcolumns, List.map_append, List.append_assoc]
  · rw [hrows', hrows]
    simp [Function.comp_def]

theorem addColumn_eq_some {c : Column ν κ} (h : t.addColumn c = some t') :
    c.name ∉ t.names ∧ ∃ v, c.absent = some v ∧ t'.columns = t.columns ++ [c] ∧
      t'.rows = t.rows.map (· ++ [v]) := by
  unfold addColumn at h
  split_ifs at h with hc
  obtain ⟨v, hv, rfl⟩ := Option.map_eq_some_iff.mp h
  exact ⟨hc, v, hv, rfl, rfl⟩

theorem insert_eq_some {given : List (ν × κ)} (h : t.insert given = some t') :
    ∃ r, rowOf given t.columns = some r ∧ t'.columns = t.columns ∧ t'.rows = t.rows ++ [r] := by
  unfold insert at h
  split_ifs at h
  split at h
  · next r hr =>
    cases h
    exact ⟨r, hr, rfl, rfl⟩
  · cases h

theorem exists_insert {given : List (ν × κ)} (hnames : ∀ p ∈ given, p.1 ∈ t.names)
    (h : ∀ c ∈ t.columns, ((given.lookup c.name).or c.absent).isSome) :
    ∃ t', t.insert given = some t' := by
  obtain ⟨r, hr⟩ := exists_rowOf h
  unfold insert
  rw [if_pos hnames]
  split
  · exact ⟨_, rfl⟩
  · next hnone =>
    rw [hr] at hnone
    cases hnone

theorem grows_addColumn {c : Column ν κ} (h : t.addColumn c = some t') : t.Grows t' := by
  obtain ⟨-, v, hv, hcolumns, hrows⟩ := addColumn_eq_some h
  exact ⟨[(c, v)], [], by simpa using hv, hcolumns, by simpa using hrows⟩

/-- An old row of a table that has grown: what it held before, and in the new columns what
    they say. -/
theorem Grows.row (h : t.Grows t') {i : ℕ} {r : List κ} (hr : t.rows[i]? = some r) :
    ∃ r', t'.rows[i]? = some r' ∧ (∀ c ∈ t.columns, t'.cell r' c.name = t.cell r c.name) ∧
      ∀ c ∈ t'.columns, c ∉ t.columns → t'.cell r' c.name = c.absent := by
  obtain ⟨more, new, hsome, hcolumns, hrows⟩ := h
  have hwidth := t.width r (List.mem_of_getElem? hr)
  have hnodup := t'.nodup
  simp only [cell]
  rw [hcolumns] at hnodup ⊢
  refine ⟨r ++ more.map Prod.snd, ?_, fun c hc => cellOf_append_left hwidth hc, ?_⟩
  · have hi : i < (t.rows.map (· ++ more.map Prod.snd)).length := by
      rw [List.length_map]
      exact (List.getElem?_eq_some_iff.mp hr).1
    rw [hrows, List.getElem?_append_left hi, List.getElem?_map, hr]
    rfl
  · intro c hc hnot
    obtain ⟨m, hm, rfl⟩ := List.mem_map.mp ((List.mem_append.mp hc).resolve_left hnot)
    rw [hsome m hm]
    exact cellOf_append_right hnodup hwidth hm

end Relation

/-! ## Statements -/

/-- `CREATE TABLE`. -/
structure Declaration (ν κ : Type) where
  name : ν
  columns : List (Column ν κ)
  nodup : (columns.map Column.name).Nodup

def Declaration.names (d : Declaration ν κ) : List ν := d.columns.map Column.name

/-- A table without rows. -/
def Declaration.relation (d : Declaration ν κ) : Relation ν κ := ⟨d.columns, [], d.nodup, by simp⟩

/-- The tables and the indexes of a database. -/
structure Catalog (ν κ : Type) where
  tables : ν → Option (Relation ν κ)
  indexes : List ν

inductive Statement (ν κ : Type) where
  /-- `CREATE TABLE IF NOT EXISTS`. -/
  | createTable (d : Declaration ν κ)
  | addColumn (table : ν) (c : Column ν κ)
  /-- `CREATE INDEX IF NOT EXISTS index ON table(columns)`. -/
  | createIndex (index table : ν) (columns : List ν)

namespace Catalog

variable [DecidableEq ν] {c c' c'' : Catalog ν κ} {n m : ν} {t : Relation ν κ}

def set (c : Catalog ν κ) (n : ν) (t : Relation ν κ) : Catalog ν κ :=
  { c with tables := Function.update c.tables n (some t) }

@[simp] theorem set_tables_self : (c.set n t).tables n = some t := Function.update_self _ _ _

theorem set_tables_of_ne (h : m ≠ n) : (c.set n t).tables m = c.tables m :=
  Function.update_of_ne h _ _

/-- `INSERT` into a table. -/
def insert (c : Catalog ν κ) (n : ν) (given : List (ν × κ)) : Option (Catalog ν κ) :=
  (c.tables n).bind fun t => (t.insert given).map (c.set n)

theorem insert_eq_some {given : List (ν × κ)} (h : c.insert n given = some c') :
    ∃ t t', c.tables n = some t ∧ t.insert given = some t' ∧ c' = c.set n t' := by
  obtain ⟨t, ht, hc⟩ := Option.bind_eq_some_iff.mp h
  obtain ⟨t', ht', rfl⟩ := Option.map_eq_some_iff.mp hc
  exact ⟨t, t', ht, ht', rfl⟩

/-- Tables, columns, rows and indexes were added. -/
structure Grows (c c' : Catalog ν κ) : Prop where
  tables : ∀ n t, c.tables n = some t → ∃ t', c'.tables n = some t' ∧ t.Grows t'
  indexes : ∀ i ∈ c.indexes, i ∈ c'.indexes

omit [DecidableEq ν] in
theorem Grows.refl (c : Catalog ν κ) : c.Grows c := ⟨fun _ t ht => ⟨t, ht, .refl t⟩, fun _ h => h⟩

omit [DecidableEq ν] in
theorem Grows.trans (h : c.Grows c') (h' : c'.Grows c'') : c.Grows c'' := by
  refine ⟨fun n t ht => ?_, fun i hi => h'.indexes i (h.indexes i hi)⟩
  obtain ⟨t', ht', hg⟩ := h.tables n t ht
  obtain ⟨t'', ht'', hg'⟩ := h'.tables n t' ht'
  exact ⟨t'', ht'', hg.trans hg'⟩

theorem grows_set {t t' : Relation ν κ} (ht : c.tables n = some t) (h : t.Grows t') :
    c.Grows (c.set n t') := by
  refine ⟨fun m s hs => ?_, fun _ hi => hi⟩
  by_cases hm : m = n
  · subst hm
    rw [ht] at hs
    cases hs
    exact ⟨t', set_tables_self, h⟩
  · exact ⟨s, by rw [set_tables_of_ne hm, hs], .refl s⟩

end Catalog

namespace Statement

variable [DecidableEq ν] {s : Statement ν κ} {c c' : Catalog ν κ}

/-- Execute a statement; `none` if it fails, and then it changes nothing. -/
def exec : Statement ν κ → Catalog ν κ → Option (Catalog ν κ)
  | createTable d, c =>
    match c.tables d.name with
    | some _ => some c
    | none => some (c.set d.name d.relation)
  | addColumn n col, c => (c.tables n).bind fun t => (t.addColumn col).map (c.set n)
  | createIndex i n columns, c =>
    if i ∈ c.indexes then some c
    else (c.tables n).bind fun t =>
      if ∀ col ∈ columns, col ∈ t.names then some { c with indexes := i :: c.indexes } else none

/-- The statement has had its effect. -/
def Done : Statement ν κ → Catalog ν κ → Prop
  | createTable d, c => (c.tables d.name).isSome
  | addColumn n col, c => ∃ t, c.tables n = some t ∧ col.name ∈ t.names
  | createIndex i _ _, c => i ∈ c.indexes

theorem exec_addColumn_eq_some {n : ν} {col : Column ν κ}
    (h : (addColumn n col).exec c = some c') :
    ∃ t t', c.tables n = some t ∧ t.addColumn col = some t' ∧ c' = c.set n t' := by
  obtain ⟨t, ht, hc⟩ := Option.bind_eq_some_iff.mp h
  obtain ⟨t', ht', rfl⟩ := Option.map_eq_some_iff.mp hc
  exact ⟨t, t', ht, ht', rfl⟩

theorem exec_createTable (d : Declaration ν κ) (c : Catalog ν κ) :
    ((c.tables d.name).isSome ∧ (createTable d).exec c = some c) ∨
      (c.tables d.name = none ∧ (createTable d).exec c = some (c.set d.name d.relation)) := by
  simp only [exec]
  cases h : c.tables d.name with
  | some t => exact .inl ⟨rfl, rfl⟩
  | none => exact .inr ⟨rfl, rfl⟩

theorem exec_createIndex {i n : ν} {columns : List ν}
    (h : (createIndex i n columns).exec c = some c') :
    c'.tables = c.tables ∧ i ∈ c'.indexes ∧ ∀ j ∈ c.indexes, j ∈ c'.indexes := by
  simp only [exec] at h
  split_ifs at h with hi
  · cases h
    exact ⟨rfl, hi, fun _ hj => hj⟩
  · obtain ⟨t, -, h⟩ := Option.bind_eq_some_iff.mp h
    split_ifs at h
    cases h
    exact ⟨rfl, List.mem_cons_self, fun _ hj => List.mem_cons_of_mem i hj⟩

theorem grows_exec (h : s.exec c = some c') : c.Grows c' := by
  cases s with
  | createTable d =>
    rcases exec_createTable d c with ⟨-, he⟩ | ⟨hnone, he⟩
    · rw [he] at h
      cases h
      exact .refl c
    · rw [he] at h
      cases h
      refine ⟨fun m t ht => ⟨t, ?_, .refl t⟩, fun _ hi => hi⟩
      rw [Catalog.set_tables_of_ne, ht]
      rintro rfl
      rw [hnone] at ht
      cases ht
  | addColumn n col =>
    obtain ⟨t, t', ht, hadd, rfl⟩ := exec_addColumn_eq_some h
    exact Catalog.grows_set ht (Relation.grows_addColumn hadd)
  | createIndex i n columns =>
    obtain ⟨htables, -, hindexes⟩ := exec_createIndex h
    exact ⟨fun m t ht => ⟨t, by rw [htables, ht], .refl t⟩, hindexes⟩

omit [DecidableEq ν] in
theorem Done.mono (h : s.Done c) (hc : c.Grows c') : s.Done c' := by
  cases s with
  | createTable d =>
    obtain ⟨t, ht⟩ := Option.isSome_iff_exists.mp h
    obtain ⟨t', ht', -⟩ := hc.tables _ t ht
    exact Option.isSome_iff_exists.mpr ⟨t', ht'⟩
  | addColumn n col =>
    obtain ⟨t, ht, hmem⟩ := h
    obtain ⟨t', ht', more, -, -, hcolumns, -⟩ := hc.tables _ t ht
    refine ⟨t', ht', ?_⟩
    rw [Relation.names, hcolumns, List.map_append]
    exact List.mem_append_left _ hmem
  | createIndex i n columns => exact hc.indexes i h

end Statement

/-! ## Upgrades -/

/-- The tables of a program, and the columns that they did not always have. -/
structure Schema (ν κ : Type) where
  tables : List (Declaration ν κ)
  added : List (ν × Column ν κ)
  nodup : (tables.map Declaration.name).Nodup
  declared : ∀ a ∈ added, ∃ d ∈ tables, d.name = a.1 ∧ a.2 ∈ d.columns
  optional : ∀ a ∈ added, a.2.absent.isSome

namespace Schema

variable [DecidableEq ν] {S : Schema ν κ} {s : Statement ν κ} {c c' : Catalog ν κ}
  {d : Declaration ν κ} {t t' : Relation ν κ}

/-- The table has the original columns of its declaration; what other columns it has are
    declared, or may be left out. -/
structure Fits (S : Schema ν κ) (d : Declaration ν κ) (t : Relation ν κ) : Prop where
  original : ∀ col ∈ d.columns, (d.name, col) ∉ S.added → col ∈ t.columns
  others : ∀ col ∈ t.columns, col ∈ d.columns ∨ (col.absent.isSome ∧ col.name ∉ d.names)

/-- The database is one of an earlier version, or of this one, or on the way. -/
def Upgradable (S : Schema ν κ) (c : Catalog ν κ) : Prop :=
  ∀ d ∈ S.tables, ∀ t, c.tables d.name = some t → S.Fits d t

/-- The statements of the schema. -/
def Allows (S : Schema ν κ) : Statement ν κ → Prop
  | .createTable d => d ∈ S.tables
  | .addColumn n col => (n, col) ∈ S.added
  | .createIndex _ n columns => ∃ d ∈ S.tables, d.name = n ∧
      ∀ name ∈ columns, ∃ col ∈ d.columns, (n, col) ∉ S.added ∧ col.name = name

omit [DecidableEq ν] in
theorem fits_relation (S : Schema ν κ) (d : Declaration ν κ) : S.Fits d d.relation :=
  ⟨fun _ hcol _ => hcol, fun _ hcol => .inl hcol⟩

theorem Fits.addColumn (h : S.Fits d t) {col : Column ν κ} (hcol : col ∈ d.columns)
    (ha : t.addColumn col = some t') : S.Fits d t' := by
  obtain ⟨-, v, -, hcolumns, -⟩ := Relation.addColumn_eq_some ha
  refine ⟨fun e he hnot => ?_, fun e he => ?_⟩
  · rw [hcolumns]
    exact List.mem_append_left _ (h.original e he hnot)
  · rw [hcolumns] at he
    rcases List.mem_append.mp he with he | he
    · exact h.others e he
    · rw [List.mem_singleton.mp he]
      exact .inl hcol

omit [DecidableEq ν] in
theorem Fits.of_columns (h : S.Fits d t) (ht : t'.columns = t.columns) : S.Fits d t' :=
  ⟨fun e he hnot => ht ▸ h.original e he hnot, fun e he => h.others e (ht ▸ he)⟩

theorem Upgradable.set (h : S.Upgradable c) {n : ν} (ht : ∀ d ∈ S.tables, d.name = n → S.Fits d t) :
    S.Upgradable (c.set n t) := by
  intro d hd s hs
  by_cases hn : d.name = n
  · rw [hn, Catalog.set_tables_self] at hs
    cases hs
    exact ht d hd hn
  · rw [Catalog.set_tables_of_ne hn] at hs
    exact h d hd s hs

omit [DecidableEq ν] in
theorem eq_of_name {e : Declaration ν κ} (hd : d ∈ S.tables) (he : e ∈ S.tables)
    (h : d.name = e.name) : d = e := List.inj_on_of_nodup_map S.nodup hd he h

theorem Upgradable.exec (h : S.Upgradable c) (hs : S.Allows s) (he : s.exec c = some c') :
    S.Upgradable c' := by
  cases s with
  | createTable d =>
    rcases Statement.exec_createTable d c with ⟨-, hexec⟩ | ⟨-, hexec⟩
    · rw [hexec] at he
      cases he
      exact h
    · rw [hexec] at he
      cases he
      refine h.set fun e hmem hname => ?_
      rw [eq_of_name hmem hs hname]
      exact S.fits_relation d
  | addColumn n col =>
    obtain ⟨t, t', ht, hadd, rfl⟩ := Statement.exec_addColumn_eq_some he
    obtain ⟨d, hd, rfl, hcol⟩ := S.declared _ hs
    refine h.set fun e hmem hname => ?_
    rw [eq_of_name hmem hd hname]
    exact (h d hd t ht).addColumn hcol hadd
  | createIndex i n columns =>
    obtain ⟨htables, -, -⟩ := Statement.exec_createIndex he
    intro d hd t ht
    rw [htables] at ht
    exact h d hd t ht

theorem Upgradable.insert (h : S.Upgradable c) {n : ν} {given : List (ν × κ)}
    (hc : c.insert n given = some c') : S.Upgradable c' := by
  obtain ⟨t, t', ht, hinsert, rfl⟩ := Catalog.insert_eq_some hc
  obtain ⟨r, -, hcolumns, -⟩ := Relation.insert_eq_some hinsert
  refine h.set fun d hd hname => (h d hd t ?_).of_columns hcolumns
  rw [hname, ht]

/-- Every table is there, with all its columns as declared. -/
def Current (S : Schema ν κ) (c : Catalog ν κ) : Prop :=
  ∀ d ∈ S.tables, ∃ t, c.tables d.name = some t ∧ (∀ col ∈ d.columns, col ∈ t.columns) ∧
    ∀ col ∈ t.columns, col ∈ d.columns ∨ (col.absent.isSome ∧ col.name ∉ d.names)

/-- A current table takes a row that names declared columns, among them those that cannot be
    left out. -/
theorem Current.insert (h : S.Current c) (hd : d ∈ S.tables) {given : List (ν × κ)}
    (hnames : ∀ p ∈ given, p.1 ∈ d.names)
    (hall : ∀ col ∈ d.columns, col.absent = none → col.name ∈ given.map Prod.fst) :
    ∃ t t' r, c.tables d.name = some t ∧ c.insert d.name given = some (c.set d.name t') ∧
      t'.rows = t.rows ++ [r] ∧
      ∀ col ∈ d.columns, t'.cell r col.name = (given.lookup col.name).or col.absent := by
  obtain ⟨t, ht, hcolumns, hothers⟩ := h d hd
  have hknown : ∀ p ∈ given, p.1 ∈ t.names := by
    intro p hp
    obtain ⟨col, hcol, hname⟩ := List.mem_map.mp (hnames p hp)
    exact hname ▸ List.mem_map_of_mem (hcolumns col hcol)
  have hsome : ∀ col ∈ t.columns, ((given.lookup col.name).or col.absent).isSome := by
    intro col hcol
    rw [Option.isSome_or, Bool.or_eq_true]
    cases habsent : col.absent with
    | some v => exact .inr rfl
    | none =>
      left
      rcases hothers col hcol with hdecl | ⟨hsome, -⟩
      · obtain ⟨p, hp, hname⟩ := List.mem_map.mp (hall col hdecl habsent)
        exact List.lookup_isSome_iff.mpr ⟨p, hp, by simpa using hname.symm⟩
      · rw [habsent] at hsome
        cases hsome
  obtain ⟨t', hinsert⟩ := Relation.exists_insert hknown hsome
  obtain ⟨r, hr, hsame, hrows⟩ := Relation.insert_eq_some hinsert
  refine ⟨t, t', r, ht, ?_, hrows, fun col hcol => ?_⟩
  · rw [Catalog.insert, ht, Option.bind_some, hinsert]
    rfl
  · rw [Relation.cell, hsame]
    exact cellOf_rowOf t.nodup hr (hcolumns col hcol)

end Schema

end Sql
