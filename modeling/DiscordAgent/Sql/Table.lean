import Mathlib.Data.List.Nodup
import Mathlib.Data.List.Sort

/-!
# Tables with an auto-increment key

A table is the list of its rows in rowid order together with the largest id it
has ever handed out (`sqlite_sequence`). The fields of `Table` say that the ids
are strictly increasing and never above that number, so a table with two rows
of one id cannot be built.

* `get?_insert`, `get?_update`: what a lookup sees after an
  insert and after an update.
* `orderBy`: `ORDER BY`, with ties in rowid order.
* `le_of_getLast?_orderBy`: the last row of `ORDER BY`.
* `mem_take_orderBy`: which rows `ORDER BY ... LIMIT n` returns.
-/

namespace Sql

/-- A row type with an `INTEGER PRIMARY KEY` column. -/
class Row (ρ : Type) where
  id : ρ → ℕ

/-- An `INTEGER PRIMARY KEY AUTOINCREMENT` table. -/
structure Table (ρ : Type) [Row ρ] where
  rows : List ρ
  seq : ℕ
  sorted : rows.Pairwise fun r s => Row.id r < Row.id s
  bounded : ∀ r ∈ rows, Row.id r ≤ seq

namespace Table

variable {ρ : Type} [Row ρ]

/-- `CREATE TABLE`. -/
def empty : Table ρ := ⟨[], 0, .nil, by simp⟩

instance : Inhabited (Table ρ) := ⟨empty⟩

/-- `SELECT * WHERE id = i`. -/
def get? (t : Table ρ) (i : ℕ) : Option ρ := t.rows.find? fun r => Row.id r == i

/-- `SELECT * WHERE p`. -/
def select (t : Table ρ) (p : ρ → Bool) : List ρ := t.rows.filter p

/-- `INSERT`: `mk` builds the row from the new id `seq + 1`. -/
def insert (t : Table ρ) (mk : ℕ → ρ) (h : ∀ n, Row.id (mk n) = n) : Table ρ where
  rows := t.rows ++ [mk (t.seq + 1)]
  seq := t.seq + 1
  sorted := by
    refine List.pairwise_append.mpr ⟨t.sorted, List.pairwise_singleton _ _, ?_⟩
    intro r hr s hs
    have := t.bounded r hr
    rw [List.mem_singleton.mp hs, h]
    omega
  bounded := by
    intro r hr
    rcases List.mem_append.mp hr with hr | hr
    · have := t.bounded r hr
      omega
    · rw [List.mem_singleton.mp hr, h]

/-- `UPDATE SET f WHERE p`. -/
def updateWhere (t : Table ρ) (p : ρ → Bool) (f : ρ → ρ) (h : ∀ r, Row.id (f r) = Row.id r) :
    Table ρ where
  rows := t.rows.map fun r => if p r then f r else r
  seq := t.seq
  sorted := by
    apply List.pairwise_map.mpr
    apply t.sorted.imp
    intro r s hrs
    split_ifs <;> simpa [h] using hrs
  bounded := by
    intro r hr
    obtain ⟨s, hs, rfl⟩ := List.mem_map.mp hr
    have := t.bounded s hs
    split_ifs <;> simpa [h] using this

/-- `UPDATE SET f WHERE id = i`. -/
def update (t : Table ρ) (i : ℕ) (f : ρ → ρ) (h : ∀ r, Row.id (f r) = Row.id r) : Table ρ :=
  t.updateWhere (fun r => Row.id r == i) f h

/-! ## Lookups -/

variable {t : Table ρ} {i j : ℕ} {r : ρ}

theorem nodup_ids (t : Table ρ) : (t.rows.map Row.id).Nodup :=
  List.pairwise_map.mpr (t.sorted.imp fun h => Nat.ne_of_lt h)

theorem eq_of_id_eq {r s : ρ} (hr : r ∈ t.rows) (hs : s ∈ t.rows) (h : Row.id r = Row.id s) :
    r = s := List.inj_on_of_nodup_map t.nodup_ids hr hs h

theorem get?_eq_some : t.get? i = some r ↔ r ∈ t.rows ∧ Row.id r = i := by
  constructor
  · intro h
    have hid := List.find?_some h
    exact ⟨List.mem_of_find?_eq_some h, by simpa using hid⟩
  · rintro ⟨hr, rfl⟩
    cases hf : t.get? (Row.id r) with
    | none =>
      have := List.find?_eq_none.mp hf r hr
      simp at this
    | some s =>
      have hs : Row.id s = Row.id r := by simpa using List.find?_some hf
      rw [eq_of_id_eq (List.mem_of_find?_eq_some hf) hr hs]

theorem mem_of_get? (h : t.get? i = some r) : r ∈ t.rows := (get?_eq_some.1 h).1

theorem id_of_get? (h : t.get? i = some r) : Row.id r = i := (get?_eq_some.1 h).2

theorem get?_of_mem (h : r ∈ t.rows) : t.get? (Row.id r) = some r := get?_eq_some.2 ⟨h, rfl⟩

theorem get?_eq_none_of_lt (h : t.seq < i) : t.get? i = none := by
  apply List.find?_eq_none.mpr
  intro r hr
  have := t.bounded r hr
  rw [beq_iff_eq]
  omega

theorem le_seq_of_get? (h : t.get? i = some r) : i ≤ t.seq := by
  obtain ⟨hr, rfl⟩ := get?_eq_some.1 h
  exact t.bounded r hr

section Insert

variable {mk : ℕ → ρ} {h : ∀ n, Row.id (mk n) = n}

@[simp] theorem mem_insert : r ∈ (t.insert mk h).rows ↔ r ∈ t.rows ∨ r = mk (t.seq + 1) := by
  simp [insert]

theorem get?_insert :
    (t.insert mk h).get? i = if i = t.seq + 1 then some (mk (t.seq + 1)) else t.get? i := by
  simp only [get?, insert, List.find?_append]
  split_ifs with hi
  · subst hi
    have hnone : t.get? (t.seq + 1) = none := get?_eq_none_of_lt (by omega)
    rw [get?] at hnone
    simp [hnone, h]
  · simp [h, Ne.symm hi]

theorem get?_insert_of_some (hr : t.get? i = some r) : (t.insert mk h).get? i = some r := by
  have := le_seq_of_get? hr
  rw [get?_insert, if_neg (by omega), hr]

end Insert

section Update

variable {f : ρ → ρ} {h : ∀ r, Row.id (f r) = Row.id r} {p : ρ → Bool}

theorem get?_updateWhere :
    (t.updateWhere p f h).get? i = (t.get? i).map fun r => if p r then f r else r := by
  simp only [get?, updateWhere, List.find?_map]
  congr 2
  funext r
  simp only [Function.comp]
  split_ifs <;> simp [h]

theorem get?_update :
    (t.update j f h).get? i = if i = j then (t.get? i).map f else t.get? i := by
  rw [update, get?_updateWhere]
  cases hi : t.get? i with
  | none => simp
  | some r =>
    have := id_of_get? hi
    split_ifs with hij <;> simp [this, hij]

end Update

theorem pairwise_select (t : Table ρ) (p : ρ → Bool) :
    (t.select p).Pairwise fun r s => Row.id r < Row.id s := t.sorted.filter p

end Table

/-! ## `ORDER BY` -/

/-- `ORDER BY le`. Rows that `le` does not separate keep the order of `rows`. -/
def orderBy {ρ : Type} (le : ρ → ρ → Prop) [DecidableRel le] (rows : List ρ) : List ρ :=
  rows.insertionSort le

@[simp] theorem mem_orderBy {ρ : Type} {le : ρ → ρ → Prop} [DecidableRel le] {rows : List ρ}
    {r : ρ} : r ∈ orderBy le rows ↔ r ∈ rows := List.mem_insertionSort le

/-- `r` comes before `s` in `ORDER BY le`: ties are in rowid order. -/
def Ahead {ρ : Type} [Row ρ] (le : ρ → ρ → Prop) (r s : ρ) : Prop :=
  le r s ∧ (le s r → Row.id r < Row.id s)

section Order

variable {ρ : Type} [Row ρ] {le : ρ → ρ → Prop} [DecidableRel le] {rows : List ρ} {r s : ρ}

instance : DecidableRel (Ahead le) := fun _ _ => inferInstanceAs (Decidable (_ ∧ _))

omit [DecidableRel le] in
theorem Ahead.asymm (h : Ahead le r s) : ¬ Ahead le s r := by
  intro h'
  have hlt := h.2 h'.1
  have hgt := h'.2 h.1
  omega

theorem pairwise_orderedInsert [Std.Total le] [IsTrans ρ le] {a : ρ}
    (h : rows.Pairwise (Ahead le)) (ha : ∀ b ∈ rows, Row.id a < Row.id b) :
    (rows.orderedInsert le a).Pairwise (Ahead le) := by
  induction rows with
  | nil => exact List.pairwise_singleton _ _
  | cons b l ih =>
    obtain ⟨hb, hl⟩ := List.pairwise_cons.mp h
    by_cases hab : le a b
    · rw [List.orderedInsert_cons_of_le le l hab]
      refine List.pairwise_cons.mpr ⟨?_, h⟩
      intro c hc
      refine ⟨?_, fun _ => ha c hc⟩
      rcases List.mem_cons.mp hc with rfl | hc
      · exact hab
      · exact trans_of le hab (hb c hc).1
    · rw [List.orderedInsert_of_not_le le l hab]
      refine List.pairwise_cons.mpr ⟨?_, ih hl fun d hd => ha d (List.mem_cons_of_mem b hd)⟩
      intro c hc
      rcases (List.mem_orderedInsert le).mp hc with rfl | hc
      · exact ⟨(total_of le _ _).resolve_left hab, fun h => absurd h hab⟩
      · exact hb c hc

/-- `ORDER BY` is a strict order: by `le`, then by rowid. -/
theorem pairwise_orderBy [Std.Total le] [IsTrans ρ le]
    (h : rows.Pairwise fun r s => Row.id r < Row.id s) :
    (orderBy le rows).Pairwise (Ahead le) := by
  induction rows with
  | nil => exact .nil
  | cons a l ih =>
    obtain ⟨ha, hl⟩ := List.pairwise_cons.mp h
    exact pairwise_orderedInsert (ih hl) fun b hb => ha b (mem_orderBy.mp hb)

omit [Row ρ] in
/-- The last row of `ORDER BY`. -/
theorem le_of_getLast?_orderBy [Std.Total le] [IsTrans ρ le]
    (h : (orderBy le rows).getLast? = some r) (hs : s ∈ rows) : le s r := by
  obtain ⟨l, hl⟩ := List.getLast?_eq_some_iff.mp h
  have hsorted : (orderBy le rows).Pairwise le := List.pairwise_insertionSort le rows
  have hmem : s ∈ orderBy le rows := mem_orderBy.mpr hs
  rw [hl] at hsorted hmem
  rcases List.mem_append.mp hmem with hmem | hmem
  · exact (List.pairwise_append.mp hsorted).2.2 s hmem r (by simp)
  · rw [List.mem_singleton.mp hmem]
    exact refl_of le r

omit [Row ρ] in
/-- The first `n` elements of a strictly ordered list are those that fewer than
    `n` elements come before. -/
theorem mem_take_of_pairwise {R : ρ → ρ → Prop} [DecidableRel R] {l : List ρ}
    (h : l.Pairwise R) (hR : ∀ r s, R r s → ¬ R s r) (n : ℕ) :
    r ∈ l.take n ↔ r ∈ l ∧ l.countP (fun s => decide (R s r)) < n := by
  induction l generalizing n with
  | nil => simp
  | cons a l ih =>
    obtain ⟨ha, hl⟩ := List.pairwise_cons.mp h
    have haa : ¬ R a a := fun hr => hR a a hr hr
    cases n with
    | zero => simp
    | succ n =>
      rw [List.take_succ_cons, List.mem_cons, ih hl, List.countP_cons, List.mem_cons]
      by_cases hra : r = a
      · subst hra
        have hzero : l.countP (fun s => decide (R s r)) = 0 := by
          apply List.countP_eq_zero.mpr
          intro s hs
          simpa using hR r s (ha s hs)
        simp [hzero, haa]
      · by_cases hmem : r ∈ l
        · simp [hra, hmem, ha r hmem]
        · simp [hra, hmem]

/-- `ORDER BY ... LIMIT n`. -/
theorem mem_take_orderBy [Std.Total le] [IsTrans ρ le]
    (h : rows.Pairwise fun r s => Row.id r < Row.id s) (n : ℕ) :
    r ∈ (orderBy le rows).take n ↔
      r ∈ rows ∧ rows.countP (fun s => decide (Ahead le s r)) < n := by
  have hcount := (List.perm_insertionSort le rows).countP_eq fun s => decide (Ahead le s r)
  rw [mem_take_of_pairwise (pairwise_orderBy h) (fun _ _ => Ahead.asymm) n, mem_orderBy, orderBy,
    hcount]

end Order

end Sql
