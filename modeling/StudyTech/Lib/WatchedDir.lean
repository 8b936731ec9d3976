import Mathlib.Data.List.Nodup
import Mathlib.Data.List.Perm.Basic
import Mathlib.Logic.Function.Basic

/-!
# A directory with one-shot child watches

The children of one directory, named by `ν`, each owned by a session of `σ`, with data of
`δ`; sessions of `κ` watch its list of children. A watch is one-shot: a change of the list
takes all watches and leaves an event for each (`setChildren`). `version` counts the changes.

* `perm_dataOf`: the data under the names of a listing is the data of the children.
* `Moves`: what writers do to a directory.
-/

namespace Lib

structure DirNode (ν σ δ : Type) where
  name : ν
  owner : σ
  data : δ
  deriving DecidableEq, Repr

structure WatchedDir (ν σ δ κ : Type) where
  created : Bool
  children : List (DirNode ν σ δ)
  version : ℕ
  watches : κ → ℕ
  events : κ → ℕ

namespace WatchedDir

variable {ν σ δ κ : Type}

/-- The directory was not created yet. -/
def init (ν σ δ κ : Type) : WatchedDir ν σ δ κ := ⟨false, [], 0, fun _ => 0, fun _ => 0⟩

variable (d : WatchedDir ν σ δ κ)

def names : List ν := d.children.map (·.name)

/-- The data of the children. -/
def contents : List δ := d.children.map (·.data)

def create : WatchedDir ν σ δ κ := { d with created := true }

/-- The children change, and every watch fires. -/
def setChildren (cs : List (DirNode ν σ δ)) : WatchedDir ν σ δ κ :=
  ⟨d.created, cs, d.version + 1, fun _ => 0, fun k => d.events k + d.watches k⟩

def add (n : DirNode ν σ δ) : WatchedDir ν σ δ κ := d.setChildren (d.children ++ [n])

/-- The nodes of the session go. -/
def removeOwner [DecidableEq σ] (s : σ) : WatchedDir ν σ δ κ :=
  if s ∈ d.children.map (·.owner) then d.setChildren (d.children.filter (·.owner ≠ s)) else d

section Read

variable [DecidableEq ν] [DecidableEq κ]

def dataOf (n : ν) : Option δ := (d.children.find? (·.name = n)).map (·.data)

/-- The session leaves a watch. -/
def watch (k : κ) : WatchedDir ν σ δ κ := { d with watches := Function.update d.watches k (d.watches k + 1) }

/-- An event of the session is delivered. -/
def pop (k : κ) : WatchedDir ν σ δ κ := { d with events := Function.update d.events k (d.events k - 1) }

end Read

/-- Names are not shared, and there is no child before the directory is there. -/
structure Ok : Prop where
  nodup : d.names.Nodup
  empty : d.created = false → d.children = []

theorem ok_init : (init ν σ δ κ).Ok := ⟨List.nodup_nil, fun _ => rfl⟩

variable {d}

/-- A directory after a step of a writer: it is there now, its children changed, or
nothing happened. -/
inductive Moves (d : WatchedDir ν σ δ κ) : WatchedDir ν σ δ κ → Prop
  | keep : Moves d d
  | create : Moves d d.create
  | change (cs : List (DirNode ν σ δ)) : d.created = true → (cs.map (·.name)).Nodup → Moves d (d.setChildren cs)

theorem Moves.ok {d' : WatchedDir ν σ δ κ} (h : d.Moves d') (hd : d.Ok) : d'.Ok := by
  cases h with
  | keep => exact hd
  | create => exact ⟨hd.nodup, fun h => nomatch h⟩
  | change cs hcreated hnodup =>
    refine ⟨hnodup, fun h => ?_⟩
    have hfalse : d.created = false := h
    rw [hcreated] at hfalse
    cases hfalse

theorem moves_add [DecidableEq ν] {n : DirNode ν σ δ} (hd : d.Ok) (hcreated : d.created = true)
    (hn : n.name ∉ d.names) : d.Moves (d.add n) := by
  refine .change _ hcreated ?_
  rw [List.map_append, List.map_singleton]
  refine hd.nodup.append (List.nodup_singleton _) ?_
  intro x hx hx'
  obtain rfl := List.mem_singleton.1 hx'
  exact hn hx

theorem moves_removeOwner [DecidableEq σ] (hd : d.Ok) (s : σ) : d.Moves (d.removeOwner s) := by
  unfold removeOwner
  split
  · rename_i hs
    refine .change _ ?_ (hd.nodup.sublist (List.filter_sublist.map _))
    by_contra hcreated
    rw [hd.empty (by simpa using hcreated)] at hs
    cases hs
  · exact .keep

theorem mem_removeOwner [DecidableEq σ] {s : σ} {n : DirNode ν σ δ} (hn : n ∈ (d.removeOwner s).children) :
    n ∈ d.children := by
  unfold removeOwner at hn
  split at hn
  · exact List.mem_of_mem_filter hn
  · exact hn

section Read

variable [DecidableEq ν]

theorem mem_of_dataOf {n : ν} {x : δ} (h : d.dataOf n = some x) : ∃ c ∈ d.children, c.data = x := by
  obtain ⟨c, hc, hx⟩ := Option.map_eq_some_iff.1 h
  exact ⟨c, List.mem_of_find?_eq_some hc, hx⟩

/-- A child is found by its name. -/
theorem dataOf_name (hd : d.Ok) {c : DirNode ν σ δ} (hc : c ∈ d.children) : d.dataOf c.name = some c.data := by
  have hfind : d.children.find? (·.name = c.name) = some c := by
    cases hf : d.children.find? (·.name = c.name) with
    | none =>
      have hnone := List.find?_eq_none.1 hf c hc
      simp at hnone
    | some c' =>
      have hname : c'.name = c.name := by simpa using List.find?_some hf
      rw [List.inj_on_of_nodup_map hd.nodup (List.mem_of_find?_eq_some hf) hc hname]
  rw [dataOf, hfind]
  rfl

/-- The data under the names of a listing is the data of the children. -/
theorem perm_dataOf (hd : d.Ok) {ns : List ν} (h : ns.Perm d.names) :
    (ns.map d.dataOf).Perm (d.contents.map some) := by
  have hchildren : d.names.map d.dataOf = d.contents.map some := by
    unfold names contents
    rw [List.map_map, List.map_map]
    exact List.map_congr_left fun c hc => dataOf_name hd hc
  rw [← hchildren]
  exact h.map _

end Read

end WatchedDir

end Lib
