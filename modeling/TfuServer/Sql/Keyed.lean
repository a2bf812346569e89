import Mathlib.Data.List.Basic
import Mathlib.Data.List.Induction

/-!
# Lists kept like keyed tables

Rows with a partial key (a row may have none) in a list that nothing forces to
have one row per key. A change of the rows of a key or an append of a row with a
new key keeps the rows unique; reading a key gives the last row written to it.
-/

namespace TfuServer.Keyed

set_option autoImplicit false

section

variable {Row Key : Type} [DecidableEq Key] (key : Row → Option Key)

def rowsOf (rows : List Row) (k : Key) : List Row := rows.filter fun row => key row = some k

def lookup (rows : List Row) (k : Key) : Option Row := rows.find? fun row => key row = some k

/-- At most one row for each key. -/
def Unique (rows : List Row) : Prop := ∀ k, (rowsOf key rows k).length ≤ 1

def changeRows (k : Key) (change : Row → Row) (rows : List Row) : List Row :=
  rows.map fun row => if key row = some k then change row else row

theorem lookup_eq_head (rows : List Row) (k : Key) :
    lookup key rows k = (rowsOf key rows k).head? := by
  simp [lookup, rowsOf, List.head?_filter]

theorem rows_of_eq_nil (rows : List Row) (k : Key) :
    rowsOf key rows k = [] ↔ lookup key rows k = none := by
  rw [lookup_eq_head, List.head?_eq_none_iff]

theorem lookup_key (rows : List Row) (k : Key) (row : Row)
    (found : lookup key rows k = some row) : key row = some k := by
  simpa using List.find?_some found

theorem rows_of_lookup (rows : List Row) (k : Key) (row : Row) (unique : Unique key rows)
    (found : lookup key rows k = some row) : rowsOf key rows k = [row] := by
  have single := unique k
  rw [lookup_eq_head] at found
  generalize rowsOf key rows k = own at single found
  cases own with
  | nil => cases found
  | cons first rest =>
      obtain rfl := Option.some.inj found
      obtain rfl := List.length_eq_zero_iff.mp (Nat.le_zero.mp (Nat.le_of_succ_le_succ single))
      rfl

theorem lookup_of_mem (rows : List Row) (k : Key) (row : Row) (unique : Unique key rows)
    (member : row ∈ rows) (has : key row = some k) : lookup key rows k = some row := by
  have inKey : row ∈ rowsOf key rows k := List.mem_filter.mpr ⟨member, by simpa using has⟩
  obtain ⟨only, shape⟩ := List.length_eq_one_iff.mp
    (Nat.le_antisymm (unique k) (List.length_pos_of_mem inKey))
  rw [lookup_eq_head, shape]
  rw [shape, List.mem_singleton] at inKey
  simp [inKey]

theorem keys_pairwise (rows : List Row)
    (own : ∀ row ∈ rows, ∃ k, key row = some k ∧ rowsOf key rows k = [row]) :
    rows.Pairwise fun row other => key row ≠ key other := by
  induction rows with
  | nil => exact List.Pairwise.nil
  | cons row rows ih =>
      obtain ⟨k, has, single⟩ := own row (by simp)
      have none_later : rowsOf key rows k = [] := by
        simpa [rowsOf, List.filter_cons, has] using single
      refine List.pairwise_cons.mpr ⟨fun other member same => ?_, ih fun other member => ?_⟩
      · have there : other ∈ rowsOf key rows k :=
          List.mem_filter.mpr ⟨member, by simp [← same, has]⟩
        rw [none_later] at there
        cases there
      · obtain ⟨own_key, its, only⟩ := own other (List.mem_cons_of_mem _ member)
        refine ⟨own_key, its, ?_⟩
        by_cases same : key row = some own_key
        · obtain rfl : k = own_key := Option.some.inj (has.symm.trans same)
          have there : other ∈ rowsOf key rows k :=
            List.mem_filter.mpr ⟨member, by simp [its]⟩
          rw [none_later] at there
          cases there
        · simpa [rowsOf, List.filter_cons, same] using only

theorem unique_nil : Unique key [] := fun _ => by simp [rowsOf]

theorem unique_append (rows : List Row) (k : Key) (row : Row) (unique : Unique key rows)
    (has : key row = some k) (absent : lookup key rows k = none) : Unique key (rows ++ [row]) := by
  intro other
  by_cases same : k = other
  · subst same
    simp [rowsOf, has, ← rows_of_eq_nil] at absent ⊢
    simpa using absent
  · have notHere : ¬key row = some other := by simp [has, same]
    simpa [rowsOf, notHere] using unique other

theorem lookup_append_same (rows : List Row) (k : Key) (row : Row) (has : key row = some k)
    (absent : lookup key rows k = none) : lookup key (rows ++ [row]) k = some row := by
  unfold lookup at absent ⊢
  simp [List.find?_append, absent, has]

theorem lookup_append_other (rows : List Row) (k other : Key) (row : Row)
    (has : key row = some k) (differs : other ≠ k) :
    lookup key (rows ++ [row]) other = lookup key rows other := by
  have notHere : ¬key row = some other := by simp [has, differs.symm]
  simp [lookup, List.find?_append, notHere]

section
variable (k : Key) (change : Row → Row)
  (keeps : ∀ row, key row = some k → key (change row) = some k)
include keeps

theorem rows_of_change (rows : List Row) (other : Key) :
    rowsOf key (changeRows key k change rows) other =
      if other = k then (rowsOf key rows other).map change else rowsOf key rows other := by
  have sameKey (row : Row) : key (if key row = some k then change row else row) = key row := by
    split_ifs with here
    · rw [keeps row here, here]
    · rfl
  have kept : rowsOf key (changeRows key k change rows) other =
      (rowsOf key rows other).map fun row => if key row = some k then change row else row := by
    simp only [rowsOf, changeRows, List.filter_map, Function.comp_def, sameKey]
  rw [kept]
  split_ifs with same
  · refine List.map_congr_left fun row member => ?_
    have has : key row = some other := by simpa using (List.mem_filter.mp member).2
    rw [if_pos (same ▸ has)]
  · refine (List.map_congr_left fun row member => ?_).trans (List.map_id _)
    have has : key row = some other := by simpa using (List.mem_filter.mp member).2
    rw [if_neg (by rw [has]; simpa using same)]
    rfl

theorem unique_change (rows : List Row) (unique : Unique key rows) :
    Unique key (changeRows key k change rows) := by
  intro other
  rw [rows_of_change key k change keeps]
  split_ifs
  · simpa using unique other
  · exact unique other

theorem lookup_change_same (rows : List Row) :
    lookup key (changeRows key k change rows) k = (lookup key rows k).map change := by
  rw [lookup_eq_head, lookup_eq_head, rows_of_change key k change keeps, if_pos rfl,
    List.head?_map]

theorem lookup_change_other (rows : List Row) (other : Key) (differs : other ≠ k) :
    lookup key (changeRows key k change rows) other = lookup key rows other := by
  rw [lookup_eq_head, lookup_eq_head, rows_of_change key k change keeps, if_neg differs]

end

/-- What a writer does that first asks for the rows of the key. -/
def upsert (k : Key) (fresh : Row) (change : Row → Row) (rows : List Row) : List Row :=
  if rowsOf key rows k = [] then rows ++ [fresh] else changeRows key k change rows

theorem unique_upsert (k : Key) (fresh : Row) (change : Row → Row) (rows : List Row)
    (has : key fresh = some k) (keeps : ∀ row, key row = some k → key (change row) = some k)
    (unique : Unique key rows) : Unique key (upsert key k fresh change rows) := by
  unfold upsert
  split_ifs with absent
  · exact unique_append key rows k fresh unique has ((rows_of_eq_nil key rows k).mp absent)
  · exact unique_change key k change keeps rows unique

theorem upsert_congr (k : Key) (fresh : Row) (change other : Row → Row) (rows : List Row)
    (agree : ∀ row ∈ rows, key row = some k → change row = other row) :
    upsert key k fresh change rows = upsert key k fresh other rows := by
  unfold upsert changeRows
  split_ifs with absent
  · rfl
  · refine List.map_congr_left fun row member => ?_
    split_ifs with has
    · exact agree row member has
    · rfl

/-- Written in full either way, the key has the new row and the others have theirs. -/
theorem mem_upsert_iff (k : Key) (fresh row : Row) (rows : List Row) (has : key fresh = some k) :
    row ∈ upsert key k fresh (fun _ => fresh) rows ↔
      row = fresh ∨ row ∈ rows ∧ key row ≠ some k := by
  unfold upsert
  split_ifs with absent
  · have none (other : Row) (member : other ∈ rows) : key other ≠ some k := fun same =>
      List.ne_nil_of_mem (List.mem_filter.mpr ⟨member, by simpa using same⟩) absent
    rw [List.mem_append, List.mem_singleton, or_comm]
    exact or_congr_right ⟨fun member => ⟨member, none row member⟩, And.left⟩
  · obtain ⟨present, within⟩ := List.exists_mem_of_ne_nil _ absent
    obtain ⟨member, hasKey⟩ := List.mem_filter.mp within
    simp only [decide_eq_true_eq] at hasKey
    unfold changeRows
    rw [List.mem_map]
    constructor
    · rintro ⟨other, otherMember, rfl⟩
      split_ifs with same
      · exact Or.inl rfl
      · exact Or.inr ⟨otherMember, same⟩
    · rintro (rfl | ⟨rowMember, differs⟩)
      · exact ⟨present, member, if_pos hasKey⟩
      · exact ⟨row, rowMember, if_neg differs⟩

theorem filter_upsert (k : Key) (fresh : Row) (rows : List Row) (has : key fresh = some k)
    (pick : Option Key → Bool) (avoids : pick (some k) = false) :
    ((upsert key k fresh (fun _ => fresh) rows).filter fun row => pick (key row)) =
      rows.filter fun row => pick (key row) := by
  unfold upsert
  split_ifs with absent
  · simp [List.filter_append, has, avoids]
  · clear absent
    induction rows with
    | nil => rfl
    | cons row rows ih =>
        have rest := ih
        simp only [changeRows, List.map_cons, List.filter_cons] at rest ⊢
        by_cases same : key row = some k
        · simp [same, has, avoids, rest]
        · simp [same, rest]

theorem length_upsert (k : Key) (fresh : Row) (change : Row → Row) (rows : List Row) :
    (upsert key k fresh change rows).length =
      if rowsOf key rows k = [] then rows.length + 1 else rows.length := by
  unfold upsert changeRows
  split_ifs <;> simp

/-- A write changes nothing exactly where every row of the key holds it already. -/
theorem upsert_eq_self_iff (k : Key) (fresh : Row) (rows : List Row) :
    upsert key k fresh (fun _ => fresh) rows = rows ↔
      rowsOf key rows k ≠ [] ∧ ∀ row ∈ rowsOf key rows k, row = fresh := by
  unfold upsert
  split_ifs with absent
  · simp [absent]
  · have kept : changeRows key k (fun _ => fresh) rows = rows ↔
        ∀ row ∈ rows, (if key row = some k then fresh else row) = row :=
      ⟨fun same => List.map_inj_left.mp (same.trans (List.map_id rows).symm),
        fun each => (List.map_inj_left.mpr each).trans (List.map_id rows)⟩
    rw [kept]
    constructor
    · intro each
      refine ⟨absent, fun row member => ?_⟩
      obtain ⟨within, has⟩ := List.mem_filter.mp member
      have same := each row within
      rw [if_pos (by simpa using has)] at same
      exact same.symm
    · rintro ⟨-, each⟩ row member
      split_ifs with has
      · exact (each row (List.mem_filter.mpr ⟨member, by simpa using has⟩)).symm
      · rfl

/-- Last write wins, whichever way it was written. -/
theorem lookup_upsert_same (k : Key) (fresh : Row) (change : Row → Row) (rows : List Row)
    (has : key fresh = some k) (keeps : ∀ row, key row = some k → key (change row) = some k)
    (agree : ∀ row, key row = some k → change row = fresh) :
    lookup key (upsert key k fresh change rows) k = some fresh := by
  unfold upsert
  split_ifs with absent
  · exact lookup_append_same key rows k fresh has ((rows_of_eq_nil key rows k).mp absent)
  · rw [lookup_change_same key k change keeps]
    cases found : lookup key rows k with
    | none => exact absurd ((rows_of_eq_nil key rows k).mpr found) absent
    | some row => simp [agree row (lookup_key key rows k row found)]

theorem lookup_upsert_other (k other : Key) (fresh : Row) (change : Row → Row) (rows : List Row)
    (has : key fresh = some k) (keeps : ∀ row, key row = some k → key (change row) = some k)
    (differs : other ≠ k) :
    lookup key (upsert key k fresh change rows) other = lookup key rows other := by
  unfold upsert
  split_ifs
  · exact lookup_append_other key rows k other fresh has differs
  · exact lookup_change_other key k change keeps rows other differs

/-- Each key with the row it gets, in the order of the writes. -/
def upsertAll (writes : List (Key × Row)) (rows : List Row) : List Row :=
  writes.foldl (fun rows write => upsert key write.1 write.2 (fun _ => write.2) rows) rows

def lastWrite (writes : List (Key × Row)) (k : Key) : Option Row :=
  ((writes.filter fun write => write.1 = k).getLast?).map Prod.snd

theorem upsert_all_concat (writes : List (Key × Row)) (write : Key × Row) (rows : List Row) :
    upsertAll key (writes ++ [write]) rows =
      upsert key write.1 write.2 (fun _ => write.2) (upsertAll key writes rows) := by
  simp [upsertAll]

theorem last_write_concat (writes : List (Key × Row)) (write : Key × Row) (k : Key) :
    lastWrite (writes ++ [write]) k =
      if write.1 = k then some write.2 else lastWrite writes k := by
  unfold lastWrite
  by_cases here : write.1 = k <;> simp [here]

theorem last_write_some (writes : List (Key × Row)) (write : Key × Row) (member : write ∈ writes) :
    ∃ row, lastWrite writes write.1 = some row := by
  unfold lastWrite
  cases last : (writes.filter fun other => other.1 = write.1).getLast? with
  | some found => exact ⟨found.2, rfl⟩
  | none =>
      have empty := List.getLast?_eq_none_iff.mp last
      have within : write ∈ writes.filter fun other => other.1 = write.1 :=
        List.mem_filter.mpr ⟨member, decide_eq_true rfl⟩
      rw [empty] at within
      cases within

theorem last_write_mem (writes : List (Key × Row)) (k : Key) (row : Row)
    (last : lastWrite writes k = some row) : (k, row) ∈ writes := by
  obtain ⟨write, found, rfl⟩ := Option.map_eq_some_iff.mp last
  obtain ⟨member, here⟩ := List.mem_filter.mp (List.mem_of_getLast? found)
  obtain rfl : write.1 = k := by simpa using here
  exact member

def finalRow (writes : List (Key × Row)) (row : Row) : Row :=
  match key row with
  | some k => (lastWrite writes k).getD row
  | none => row

section
variable {writes : List (Key × Row)} (keyed : ∀ write ∈ writes, key write.2 = some write.1)
include keyed

theorem unique_upsert_all (rows : List Row) (unique : Unique key rows) :
    Unique key (upsertAll key writes rows) := by
  induction writes using List.reverseRecOn with
  | nil => exact unique
  | append_singleton writes write ih =>
      rw [upsert_all_concat]
      have has := keyed write (by simp)
      exact unique_upsert key write.1 write.2 _ _ has (fun _ _ => has)
        (ih fun other member => keyed other (by simp [member]))

theorem lookup_upsert_all (rows : List Row) (k : Key) :
    lookup key (upsertAll key writes rows) k =
      (lastWrite writes k).or (lookup key rows k) := by
  induction writes using List.reverseRecOn with
  | nil => simp [upsertAll, lastWrite]
  | append_singleton writes write ih =>
      have has := keyed write (by simp)
      have earlier := ih fun other member => keyed other (by simp [member])
      rw [upsert_all_concat, last_write_concat]
      split_ifs with here
      · subst here
        exact lookup_upsert_same key write.1 write.2 _ _ has (fun _ _ => has) fun _ _ => rfl
      · rw [← earlier]
        exact lookup_upsert_other key write.1 k write.2 _ _ has (fun _ _ => has) (Ne.symm here)

theorem filter_upsert_all (rows : List Row) (pick : Option Key → Bool)
    (avoids : ∀ write ∈ writes, pick (some write.1) = false) :
    ((upsertAll key writes rows).filter fun row => pick (key row)) =
      rows.filter fun row => pick (key row) := by
  induction writes using List.reverseRecOn with
  | nil => rfl
  | append_singleton writes write ih =>
      rw [upsert_all_concat, filter_upsert key write.1 write.2 _ (keyed write (by simp)) pick
        (avoids write (by simp))]
      exact ih (fun other member => keyed other (by simp [member]))
        fun other member => avoids other (by simp [member])

/-- After the writes a row is the last one written to its key, or has no written key. -/
theorem mem_upsert_all (rows : List Row) (row : Row) (member : row ∈ upsertAll key writes rows)
    (write : Key × Row) (within : write ∈ writes) (here : key row = some write.1) :
    lastWrite writes write.1 = some row := by
  induction writes using List.reverseRecOn with
  | nil => cases within
  | append_singleton writes last ih =>
      have has := keyed last (by simp)
      rw [upsert_all_concat, mem_upsert_iff key last.1 last.2 row _ has] at member
      rw [last_write_concat]
      rcases member with rfl | ⟨earlier, other⟩
      · rw [has] at here
        rw [if_pos (Option.some.inj here)]
      · have apart : ¬last.1 = write.1 := fun same => other (by rw [here, same])
        rw [if_neg apart]
        refine ih (fun other member => keyed other (by simp [member])) earlier ?_
        rcases List.mem_append.mp within with before | final
        · exact before
        · exact absurd (by rw [List.mem_singleton.mp final]) apart

theorem key_final_row (row : Row) : key (finalRow key writes row) = key row := by
  unfold finalRow
  cases has : key row with
  | none => exact has
  | some k =>
      simp only
      cases last : lastWrite writes k with
      | none => exact has
      | some fresh => exact keyed (k, fresh) (last_write_mem writes k fresh last)

theorem upsert_all_present (rows : List Row)
    (present : ∀ write ∈ writes, rowsOf key rows write.1 ≠ []) :
    upsertAll key writes rows = rows.map (finalRow key writes) := by
  induction writes using List.reverseRecOn with
  | nil =>
      refine (List.map_id rows).symm.trans (List.map_congr_left fun row _ => ?_)
      unfold finalRow
      cases key row <;> rfl
  | append_singleton writes write ih =>
      have before (other : Key × Row) (member : other ∈ writes) : other ∈ writes ++ [write] :=
        List.mem_append_left _ member
      have keyedBefore := fun other member => keyed other (before other member)
      have stays := key_final_row key keyedBefore
      have there : rowsOf key (rows.map (finalRow key writes)) write.1 ≠ [] := by
        obtain ⟨row, within⟩ := List.exists_mem_of_ne_nil _ (present write (by simp))
        obtain ⟨member, here⟩ := List.mem_filter.mp within
        refine List.ne_nil_of_mem (List.mem_filter.mpr ⟨List.mem_map_of_mem member, ?_⟩)
        rw [stays]
        exact here
      rw [upsert_all_concat, ih keyedBefore fun other member => present other (before other member),
        upsert, if_neg there, changeRows, List.map_map]
      refine List.map_congr_left fun row _ => ?_
      simp only [Function.comp_apply, stays]
      split_ifs with here
      · simp [finalRow, here, last_write_concat]
      · unfold finalRow
        cases has : key row with
        | none => rfl
        | some k =>
            have apart : ¬write.1 = k := fun same => here (by rw [has, same])
            simp only [last_write_concat, if_neg apart]

theorem upsert_all_fresh (rows : List Row) (absent : ∀ write ∈ writes, rowsOf key rows write.1 = [])
    (distinct : (writes.map Prod.fst).Nodup) :
    upsertAll key writes rows = rows ++ writes.map Prod.snd := by
  induction writes using List.reverseRecOn with
  | nil => simp [upsertAll]
  | append_singleton writes write ih =>
      have before (other : Key × Row) (member : other ∈ writes) : other ∈ writes ++ [write] :=
        List.mem_append_left _ member
      rw [List.map_append, List.nodup_append] at distinct
      obtain ⟨earlier, -, apart⟩ := distinct
      have free : rowsOf key (rows ++ writes.map Prod.snd) write.1 = [] := by
        rw [rowsOf, List.filter_append, List.append_eq_nil_iff]
        refine ⟨absent write (by simp), List.filter_eq_nil_iff.mpr fun row member here => ?_⟩
        obtain ⟨other, within, rfl⟩ := List.mem_map.mp member
        have same : some other.1 = some write.1 :=
          (keyed other (before other within)).symm.trans (of_decide_eq_true here)
        exact apart other.1 (List.mem_map_of_mem within) write.1 (by simp)
          (Option.some.inj same)
      rw [upsert_all_concat, ih (fun other member => keyed other (before other member))
        (fun other member => absent other (before other member)) earlier, upsert, if_pos free]
      simp

/-- The same writes once more change nothing. -/
theorem upsert_all_again (rows : List Row) :
    upsertAll key writes (upsertAll key writes rows) = upsertAll key writes rows := by
  have present (write : Key × Row) (member : write ∈ writes) :
      rowsOf key (upsertAll key writes rows) write.1 ≠ [] := by
    intro empty
    obtain ⟨row, last⟩ := last_write_some writes write member
    have found := lookup_upsert_all key keyed rows write.1
    rw [(rows_of_eq_nil key _ _).mp empty, last] at found
    cases found
  rw [upsert_all_present key keyed _ present]
  refine (List.map_congr_left fun row member => ?_).trans (List.map_id _)
  unfold finalRow
  cases has : key row with
  | none => rfl
  | some k =>
      simp only
      cases last : lastWrite writes k with
      | none => rfl
      | some fresh =>
          have own := mem_upsert_all key keyed rows row member (k, fresh)
            (last_write_mem writes k fresh last) has
          rw [last] at own
          exact Option.some.inj own

end

/-- One row more, or this row for each row of the key. -/
def Wrote (k : Key) (row : Row) (before after : List Row) : Prop :=
  after = before ++ [row] ∨ after = changeRows key k (fun _ => row) before

section
variable {key : Row → Option Key} {k : Key} {row : Row} {before after : List Row}
  (wrote : Wrote key k row before after)
include wrote

theorem wrote_mem (other : Row) (member : other ∈ after) : other = row ∨ other ∈ before := by
  rcases wrote with rfl | rfl
  · rcases List.mem_append.mp member with old | new
    · exact Or.inr old
    · exact Or.inl (List.mem_singleton.mp new)
  · obtain ⟨old, within, rfl⟩ := List.mem_map.mp member
    split_ifs
    · exact Or.inl rfl
    · exact Or.inr within

/-- A row that is there stays, but for the written one in the place of its key. -/
theorem wrote_kept (other : Row) (member : other ∈ before)
    (same : key other = some k → other = row) : other ∈ after := by
  rcases wrote with rfl | rfl
  · exact List.mem_append_left _ member
  · refine List.mem_map.mpr ⟨other, member, ?_⟩
    split_ifs with here
    · exact (same here).symm
    · rfl

variable (has : key row = some k)
include has

theorem wrote_other (other : Key) (differs : other ≠ k) :
    rowsOf key after other = rowsOf key before other := by
  rcases wrote with rfl | rfl
  · have notHere : ¬key row = some other := by simp [has, differs.symm]
    simp [rowsOf, notHere]
  · rw [rows_of_change key k _ fun _ _ => has, if_neg differs]

theorem wrote_own :
    rowsOf key after k = rowsOf key before k ++ [row] ∨
      rowsOf key after k = (rowsOf key before k).map fun _ => row := by
  rcases wrote with rfl | rfl
  · exact Or.inl (by simp [rowsOf, has])
  · exact Or.inr (by rw [rows_of_change key k _ fun _ _ => has, if_pos rfl])

theorem wrote_present (other : Key) (present : rowsOf key before other ≠ []) :
    rowsOf key after other ≠ [] := by
  by_cases same : other = k
  · subst same
    rcases wrote_own wrote has with own | own
    · rw [own]
      simp
    · rw [own]
      simpa using present
  · rw [wrote_other wrote has other same]
    exact present

end

end

end TfuServer.Keyed
