import DiscordAgent.Sql.Table

/-!
# Queues in a table

A table serves as a queue when its rows carry a flag for those that were taken:
taking reads the first unmarked rows of an `ORDER BY` and marks them. `Queue` is
the queue that such a table is meant to be, with the rows that were taken so far.

* `Table.pending_insert`, `Table.pending_take`: the two operations on the rows that wait.
* `Queue.Represents.insert`, `Queue.Represents.take`: a table goes on representing its queue.
* `Queue.InOrder.put`, `Queue.InOrder.take`: rows that are inserted in order are taken in
  order.
-/

namespace Sql

variable {ρ : Type} [Row ρ]

/-- The flag of the rows that were taken. -/
structure Marker (ρ : Type) [Row ρ] where
  done : ρ → Bool
  mark : ρ → ρ
  id_mark : ∀ r, Row.id (mark r) = Row.id r
  done_mark : ∀ r, done (mark r) = true

/-! ## Lists of rows in order -/

section Order

variable {le : ρ → ρ → Prop} [DecidableRel le] {l : List ρ} {r s : ρ}

instance : Std.Irrefl (Ahead le) := ⟨fun _ h => h.asymm h⟩

instance : Std.Antisymm (Ahead le) := ⟨fun _ _ h h' => (h.asymm h').elim⟩

/-- Put a row behind those that are not after it. -/
def putBehind (le : ρ → ρ → Prop) [DecidableRel le] (r : ρ) (l : List ρ) : List ρ :=
  l.orderedInsert (fun a b => ¬ le b a) r

omit [Row ρ] in
theorem mem_putBehind : s ∈ putBehind le r l ↔ s = r ∨ s ∈ l := List.mem_orderedInsert _

omit [Row ρ] in
theorem perm_putBehind (le : ρ → ρ → Prop) [DecidableRel le] (r : ρ) (l : List ρ) :
    (putBehind le r l).Perm (r :: l) := List.perm_orderedInsert _ r l

omit [Row ρ] in
theorem putBehind_of_le (h : ∀ s ∈ l, le s r) : putBehind le r l = l ++ [r] := by
  induction l with
  | nil => rfl
  | cons a l ih =>
    have ha : ¬ ¬ le a r := not_not.mpr (h a List.mem_cons_self)
    rw [putBehind, List.orderedInsert_of_not_le _ _ ha, ← putBehind,
      ih fun s hs => h s (List.mem_cons_of_mem _ hs)]
    rfl

theorem pairwise_putBehind [Std.Total le] [IsTrans ρ le] (h : l.Pairwise (Ahead le))
    (hid : ∀ s ∈ l, Row.id s < Row.id r) : (putBehind le r l).Pairwise (Ahead le) := by
  induction l with
  | nil => exact List.pairwise_singleton _ _
  | cons a l ih =>
    obtain ⟨ha, hl⟩ := List.pairwise_cons.mp h
    by_cases har : le a r
    · rw [putBehind, List.orderedInsert_of_not_le _ _ (not_not.mpr har), ← putBehind]
      refine List.pairwise_cons.mpr ⟨fun b hb => ?_,
        ih hl fun s hs => hid s (List.mem_cons_of_mem _ hs)⟩
      rcases mem_putBehind.mp hb with rfl | hb
      · exact ⟨har, fun _ => hid a List.mem_cons_self⟩
      · exact ha b hb
    · have hra : le r a := (total_of le r a).resolve_right har
      rw [putBehind, List.orderedInsert_cons_of_le (fun a b => ¬ le b a) l har]
      refine List.pairwise_cons.mpr ⟨fun b hb => ?_, h⟩
      rcases List.mem_cons.mp hb with rfl | hb
      · exact ⟨hra, fun h => absurd h har⟩
      · refine ⟨trans_of le hra (ha b hb).1, fun hbr => ?_⟩
        exact absurd (trans_of le (ha b hb).1 hbr) har

end Order

/-! ## The rows that wait -/

namespace Table

variable (F : Marker ρ) (le : ρ → ρ → Prop) [DecidableRel le]

/-- The rows that wait, first the one to be taken next. -/
def pending (t : Table ρ) : List ρ := orderBy le (t.select fun r => !F.done r)

/-- Take the first `n` rows that wait. -/
def take (t : Table ρ) (n : ℕ) : List ρ × Table ρ :=
  let rows := (t.pending F le).take n
  (rows, t.updateWhere (fun r => rows.any fun s => Row.id s == Row.id r) F.mark F.id_mark)

variable {F le} {t : Table ρ} {n : ℕ} {r : ρ}

theorem mem_pending : r ∈ t.pending F le ↔ r ∈ t.rows ∧ F.done r = false := by
  simp [pending, select]

/-- The rows of `take` are those of the table with their ids. -/
theorem any_take_iff (hr : r ∈ t.rows) :
    ((t.pending F le).take n).any (fun s => Row.id s == Row.id r) = true ↔
      r ∈ (t.pending F le).take n := by
  rw [List.any_eq_true]
  constructor
  · rintro ⟨s, hs, hid⟩
    have hst := (mem_pending.mp (List.mem_of_mem_take hs)).1
    rwa [← eq_of_id_eq hst hr (beq_iff_eq.mp hid)]
  · intro h
    exact ⟨r, h, beq_self_eq_true _⟩

variable [Std.Total le] [IsTrans ρ le]

theorem pairwise_pending (t : Table ρ) : (t.pending F le).Pairwise (Ahead le) :=
  pairwise_orderBy (t.pairwise_select _)

/-- A new row goes behind those that are not after it. -/
theorem pending_insert {mk : ℕ → ρ} {h : ∀ n, Row.id (mk n) = n}
    (hnew : F.done (mk (t.seq + 1)) = false) :
    (t.insert mk h).pending F le = putBehind le (mk (t.seq + 1)) (t.pending F le) := by
  have hid : ∀ s ∈ t.pending F le, Row.id s < Row.id (mk (t.seq + 1)) := by
    intro s hs
    have hle := t.bounded s (mem_pending.mp hs).1
    rw [h]
    omega
  refine (pairwise_pending _).eq_of_mem_iff (pairwise_putBehind (pairwise_pending t) hid) ?_
  intro r
  rw [mem_pending, mem_insert, mem_putBehind, mem_pending]
  constructor
  · rintro ⟨hr | rfl, hdone⟩
    · exact .inr ⟨hr, hdone⟩
    · exact .inl rfl
  · rintro (rfl | ⟨hr, hdone⟩)
    · exact ⟨.inr rfl, hnew⟩
    · exact ⟨.inl hr, hdone⟩

/-- Taking leaves the rows behind those that were taken. -/
theorem pending_take : (t.take F le n).2.pending F le = (t.pending F le).drop n := by
  have hnodup : (t.pending F le).Nodup := (pairwise_pending t).nodup
  have hsorted := (pairwise_pending t).sublist (List.drop_sublist n (t.pending F le))
  refine (pairwise_pending _).eq_of_mem_iff hsorted fun r => ?_
  have hdrop : r ∈ (t.pending F le).drop n ↔
      r ∈ t.pending F le ∧ r ∉ (t.pending F le).take n := by
    rw [← List.take_append_drop n (t.pending F le)] at hnodup
    have hdisjoint := (List.nodup_append.mp hnodup).2.2
    constructor
    · intro h
      exact ⟨List.mem_of_mem_drop h, fun h' => hdisjoint r h' r h rfl⟩
    · rintro ⟨h, hnot⟩
      rw [← List.take_append_drop n (t.pending F le)] at h
      exact (List.mem_append.mp h).resolve_left hnot
  rw [hdrop, mem_pending]
  constructor
  · rintro ⟨hr, hdone⟩
    obtain ⟨s, hs, rfl⟩ := List.mem_map.mp hr
    split_ifs at hdone ⊢ with htaken
    · rw [F.done_mark] at hdone
      cases hdone
    · exact ⟨mem_pending.mpr ⟨hs, hdone⟩, fun h => htaken ((any_take_iff hs).mpr h)⟩
  · rintro ⟨hr, hnot⟩
    obtain ⟨hrow, hdone⟩ := mem_pending.mp hr
    refine ⟨List.mem_map.mpr ⟨r, hrow, if_neg fun h => hnot ((any_take_iff hrow).mp h)⟩, hdone⟩

end Table

/-! ## Queues -/

/-- A queue, with the rows that were taken out of it so far. -/
structure Queue (ρ : Type) where
  waiting : List ρ
  taken : List ρ := []

namespace Queue

variable {F : Marker ρ} {le : ρ → ρ → Prop} [DecidableRel le]

def put (le : ρ → ρ → Prop) [DecidableRel le] (q : Queue ρ) (r : ρ) : Queue ρ :=
  { q with waiting := putBehind le r q.waiting }

def take (q : Queue ρ) (n : ℕ) : Queue ρ :=
  ⟨q.waiting.drop n, q.taken ++ q.waiting.take n⟩

/-- The table holds the queue: its rows are `old`, those that were taken, and those that
    wait, each of them once. -/
structure Represents (F : Marker ρ) (le : ρ → ρ → Prop) [DecidableRel le] (old : List ρ)
    (t : Table ρ) (q : Queue ρ) : Prop where
  waiting : t.pending F le = q.waiting
  rows : t.rows.Perm (old ++ q.taken.map F.mark ++ q.waiting)

variable {old : List ρ} {t : Table ρ} {q : Queue ρ} {n : ℕ}

/-- No row was taken twice, and no row that waits was taken. -/
theorem Represents.nodup (h : Represents F le old t q) :
    ((q.taken ++ q.waiting).map Row.id).Nodup := by
  have hids := (h.rows.map Row.id).nodup_iff.mp t.nodup_ids
  simp only [List.map_append, List.map_map, List.append_assoc] at hids
  have hmark : q.taken.map (Row.id ∘ F.mark) = q.taken.map Row.id :=
    List.map_congr_left fun r _ => F.id_mark r
  rw [hmark] at hids
  rw [List.map_append]
  exact (List.nodup_append.mp hids).2.1

theorem Represents.id_le (h : Represents F le old t q) {r : ρ} (hr : r ∈ q.taken ++ q.waiting) :
    Row.id r ≤ t.seq := by
  rcases List.mem_append.mp hr with hr | hr
  · have hmem : F.mark r ∈ t.rows := h.rows.mem_iff.mpr
      (List.mem_append_left _ (List.mem_append_right _ (List.mem_map_of_mem hr)))
    exact F.id_mark r ▸ t.bounded _ hmem
  · exact t.bounded _ (h.rows.mem_iff.mpr (List.mem_append_right _ hr))

section Rules

variable [Std.Total le] [IsTrans ρ le]

omit [Std.Total le] [IsTrans ρ le] in
/-- A table represents the queue of its unmarked rows. -/
theorem represents_pending (t : Table ρ) :
    Represents F le (t.rows.filter F.done) t ⟨t.pending F le, []⟩ := by
  refine ⟨rfl, ?_⟩
  rw [List.map_nil, List.append_nil]
  have hperm : (t.pending F le).Perm (t.rows.filter fun r => !F.done r) :=
    List.perm_insertionSort le _
  exact ((List.filter_append_perm F.done t.rows).symm).trans (hperm.symm.append_left _)

theorem Represents.insert (h : Represents F le old t q) (mk : ℕ → ρ)
    (hid : ∀ n, Row.id (mk n) = n) (hnew : F.done (mk (t.seq + 1)) = false) :
    Represents F le old (t.insert mk hid) (q.put le (mk (t.seq + 1))) := by
  refine ⟨?_, ?_⟩
  · rw [Table.pending_insert hnew, h.waiting]
    rfl
  · have hput : (q.put le (mk (t.seq + 1))).waiting.Perm (q.waiting ++ [mk (t.seq + 1)]) :=
      (perm_putBehind le _ _).trans (List.perm_append_singleton _ _).symm
    refine (h.rows.append_right [mk (t.seq + 1)]).trans ?_
    rw [List.append_assoc]
    exact hput.symm.append_left _

/-- Marking the rows of `xs` in a list that has each id once. -/
theorem map_mark {f : ρ → ρ} {l xs ys : List ρ}
    (hids : ((l ++ (xs ++ ys)).map Row.id).Nodup) :
    ((l ++ (xs ++ ys)).map fun r => if xs.any (fun s => Row.id s == Row.id r) then f r else r) =
      l ++ (xs.map f ++ ys) := by
  have hnot : ∀ r ∈ l ++ ys, ¬ xs.any (fun s => Row.id s == Row.id r) = true := by
    rintro r hr hany
    obtain ⟨s, hs, hid⟩ := List.any_eq_true.mp hany
    have hid : Row.id s = Row.id r := beq_iff_eq.mp hid
    simp only [List.map_append] at hids
    obtain ⟨-, hrest, hl⟩ := List.nodup_append.mp hids
    rcases List.mem_append.mp hr with hr | hr
    · have hs : Row.id s ∈ xs.map Row.id := List.mem_map_of_mem hs
      exact hl _ (List.mem_map_of_mem hr) _ (List.mem_append_left _ hs) hid.symm
    · have hdisjoint := (List.nodup_append.mp hrest).2.2
      exact hdisjoint _ (List.mem_map_of_mem hs) _ (List.mem_map_of_mem hr) hid
  have hsame : ∀ zs : List ρ, (∀ r ∈ zs, r ∈ l ++ ys) →
      (zs.map fun r => if xs.any (fun s => Row.id s == Row.id r) then f r else r) = zs := by
    intro zs hzs
    refine (List.map_congr_left fun r hr => if_neg (hnot r (hzs r hr))).trans ?_
    exact List.map_id' zs
  have hmarked : (xs.map fun r => if xs.any (fun s => Row.id s == Row.id r) then f r else r) =
      xs.map f :=
    List.map_congr_left fun r hr =>
      if_pos (List.any_eq_true.mpr ⟨r, hr, beq_self_eq_true (Row.id r)⟩)
  rw [List.map_append, List.map_append, hmarked, hsame l fun r hr => List.mem_append_left _ hr,
    hsame ys fun r hr => List.mem_append_right _ hr]

theorem Represents.take (h : Represents F le old t q) :
    (t.take F le n).1 = q.waiting.take n ∧ Represents F le old (t.take F le n).2 (q.take n) := by
  have hrows : (t.take F le n).1 = q.waiting.take n := by
    rw [Table.take, h.waiting]
  refine ⟨hrows, ?_, ?_⟩
  · rw [Table.pending_take, h.waiting]
    rfl
  · have hids := (h.rows.map Row.id).nodup_iff.mp t.nodup_ids
    have hsplit : old ++ q.taken.map F.mark ++ q.waiting =
        (old ++ q.taken.map F.mark) ++ (q.waiting.take n ++ q.waiting.drop n) := by
      rw [List.take_append_drop]
    have hperm := h.rows.map fun r =>
      if (q.waiting.take n).any (fun s => Row.id s == Row.id r) then F.mark r else r
    rw [hsplit] at hids hperm
    rw [map_mark hids] at hperm
    have htable : (t.take F le n).2.rows = t.rows.map fun r =>
        if (q.waiting.take n).any (fun s => Row.id s == Row.id r) then F.mark r else r := by
      simp only [Table.take, Table.updateWhere, h.waiting]
    rw [htable]
    refine hperm.trans (List.Perm.of_eq ?_)
    simp only [Queue.take, List.map_append, List.append_assoc]

end Rules

/-! ## Rows in the order of their ids -/

/-- The rows are taken in the order in which they were inserted. -/
def InOrder (q : Queue ρ) : Prop :=
  (q.taken ++ q.waiting).Pairwise fun r s => Row.id r < Row.id s

theorem InOrder.take (h : q.InOrder) : (q.take n).InOrder := by
  unfold InOrder Queue.take
  rw [List.append_assoc, List.take_append_drop]
  exact h

/-- A row that is not before any row that waits goes to the end. -/
theorem InOrder.put {r : ρ} (h : q.InOrder) (hle : ∀ s ∈ q.waiting, le s r)
    (hid : ∀ s ∈ q.taken ++ q.waiting, Row.id s < Row.id r) : (q.put le r).InOrder := by
  unfold InOrder Queue.put
  rw [putBehind_of_le hle, ← List.append_assoc]
  refine List.pairwise_append.mpr ⟨h, List.pairwise_singleton _ _, fun s hs r' hr' => ?_⟩
  rw [List.mem_singleton.mp hr']
  exact hid s hs

end Queue

end Sql
