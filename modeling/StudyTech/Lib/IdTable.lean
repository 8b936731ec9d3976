import Mathlib.Data.Int.Notation
import Mathlib.Data.List.Nodup

/-!
# Tables with a column of ids

The rows of a table are pairs of an id and the rest of the row.
-/

namespace Lib

variable {α : Type*}

/-- The row with an id. -/
def findRow (rows : List (ℤ × α)) (id : ℤ) : Option α := (rows.find? fun p => p.1 = id).map Prod.snd

/-- The row with an id is written. -/
def alterRow (rows : List (ℤ × α)) (id : ℤ) (f : α → α) : List (ℤ × α) :=
  rows.map fun p => if p.1 = id then (id, f p.2) else p

variable {rows : List (ℤ × α)} {id : ℤ} {a : α} {f : α → α} {p : ℤ × α}

theorem mem_of_findRow (h : findRow rows id = some a) : (id, a) ∈ rows := by
  obtain ⟨p, hp, rfl⟩ := Option.map_eq_some_iff.1 h
  have hfound := List.find?_some hp
  have hid : p.1 = id := of_decide_eq_true hfound
  rw [← hid]
  exact List.mem_of_find?_eq_some hp

theorem alterRow_ids : (alterRow rows id f).map Prod.fst = rows.map Prod.fst := by
  unfold alterRow
  rw [List.map_map]
  refine List.map_congr_left fun p _ => ?_
  show (if p.1 = id then (id, f p.2) else p).1 = p.1
  split
  · next h => exact h.symm
  · rfl

theorem mem_alterRow (hp : p ∈ alterRow rows id f) : (p ∈ rows ∧ p.1 ≠ id) ∨ ∃ a, (id, a) ∈ rows ∧ p = (id, f a) := by
  obtain ⟨q, hq, rfl⟩ := List.mem_map.1 hp
  split
  · next h =>
    subst h
    exact .inr ⟨q.2, hq, rfl⟩
  · next h => exact .inl ⟨hq, h⟩

theorem alterRow_mem (h : (id, a) ∈ rows) : (id, f a) ∈ alterRow rows id f :=
  List.mem_map.2 ⟨(id, a), h, if_pos rfl⟩

/-- A row with a fresh id. -/
theorem nodup_ids_append (h : (rows.map Prod.fst).Nodup) (hid : id ∉ rows.map Prod.fst) :
    ((rows ++ [(id, a)]).map Prod.fst).Nodup := by
  rw [List.map_append]
  refine List.nodup_append.2 ⟨h, List.nodup_singleton id, ?_⟩
  intro i hi j hj
  obtain rfl := List.mem_singleton.1 hj
  rintro rfl
  exact hid hi

theorem nodup_ids_filter (h : (rows.map Prod.fst).Nodup) (q : ℤ × α → Bool) : ((rows.filter q).map Prod.fst).Nodup :=
  h.sublist (List.filter_sublist.map Prod.fst)

end Lib
