import Mathlib.Data.List.Perm.Subperm
import Mathlib.Tactic.Common

/-!
# What is below what

`child a b`: `b` is a child of `a`. `Below child n a b`: `b` is `n` generations below `a`. Where nothing has
two parents, what is below a root is below no other, and at one depth (`Below.root_depth`); with finitely
many children the depth is bounded (`Below.lt_length`), also where some are below themselves.
-/

namespace Lib

variable {α : Type*} {child : α → α → Prop}

/-- `b` is `n` generations below `a`. -/
inductive Below (child : α → α → Prop) : ℕ → α → α → Prop
  | refl (a : α) : Below child 0 a a
  | tail {n : ℕ} {a b c : α} (h : Below child n a b) (hc : child b c) : Below child (n + 1) a c

def OneParent (child : α → α → Prop) : Prop := ∀ a a' b, child a b → child a' b → a = a'

def Root (child : α → α → Prop) (a : α) : Prop := ∀ p, ¬ child p a

namespace Below

variable {a b c q q' r : α} {n m : ℕ}

theorem single (h : child a b) : Below child 1 a b := .tail (.refl a) h

theorem trans (h : Below child n a b) (h' : Below child m b c) : Below child (n + m) a c := by
  induction h' with
  | refl _ => exact h
  | tail _ hc ih => exact .tail (ih h) hc

theorem head (h : child a b) (h' : Below child n b c) : Below child (n + 1) a c := by
  have hall := (single h).trans h'
  rwa [Nat.add_comm] at hall

theorem mono {child' : α → α → Prop} (hchild : ∀ a b, child a b → child' a b) (h : Below child n a b) :
    Below child' n a b := by
  induction h with
  | refl a => exact .refl a
  | tail _ hc ih => exact .tail ih (hchild _ _ hc)

theorem zero_eq (h : Below child 0 a b) : a = b := by
  cases h
  rfl

/-- What is below is below a child. -/
theorem head_inv (h : Below child (n + 1) a c) : ∃ b, child a b ∧ Below child n b c := by
  induction n generalizing c with
  | zero =>
    cases h with
    | tail h hc =>
      have heq := h.zero_eq
      subst heq
      exact ⟨c, hc, .refl c⟩
  | succ n ih =>
    cases h with
    | tail h hc =>
      obtain ⟨b, hb, hbelow⟩ := ih h
      exact ⟨b, hb, .tail hbelow hc⟩

/-- Up as many generations, there is one. -/
theorem start_unique (hone : OneParent child) (h : Below child n a c) (h' : Below child n b c) : a = b := by
  induction n generalizing c with
  | zero => exact h.zero_eq.trans h'.zero_eq.symm
  | succ n ih =>
    cases h with
    | tail h hc =>
      cases h' with
      | tail h' hc' =>
        have hsame := hone _ _ _ hc hc'
        subst hsame
        exact ih h h'

/-- **One root, and one depth.** -/
theorem root_depth (hone : OneParent child) (hq : Root child q) (hq' : Root child q') (h : Below child n q r)
    (h' : Below child m q' r) : n = m ∧ q = q' := by
  induction h generalizing m with
  | refl a =>
    cases h' with
    | refl _ => exact ⟨rfl, rfl⟩
    | tail _ hc => exact absurd hc (hq _)
  | tail h hc ih =>
    cases h' with
    | refl _ => exact absurd hc (hq' _)
    | tail h' hc' =>
      have hsame := hone _ _ _ hc hc'
      subst hsame
      obtain ⟨hdepth, hroot⟩ := ih hq h'
      exact ⟨congrArg (· + 1) hdepth, hroot⟩

/-- What is below is a child, or where it started. -/
theorem mem {xs : List α} (hmem : ∀ a b, child a b → b ∈ xs) (hq : q ∈ xs) (h : Below child n q r) : r ∈ xs := by
  cases h with
  | refl _ => exact hq
  | tail _ hc => exact hmem _ _ hc

/-- **The depth is bounded.** The generations down from a root are of different depths. -/
theorem lt_length (hone : OneParent child) (hq : Root child q) {xs : List α} (hmem : ∀ a b, child a b → b ∈ xs)
    (hin : q ∈ xs) (h : Below child n q r) : n < xs.length := by
  have hpath : ∃ path : List α, path.length = n + 1 ∧ path.Nodup ∧
      ∀ a ∈ path, ∃ k ≤ n, Below child k q a := by
    induction h with
    | refl a =>
      refine ⟨[a], rfl, List.pairwise_singleton _ a, fun a' ha' => ?_⟩
      rw [List.mem_singleton.1 ha']
      exact ⟨0, Nat.le_refl 0, .refl a⟩
    | @tail n q b c h hc ih =>
      obtain ⟨path, hlength, hnodup, hdepth⟩ := ih hq hin
      refine ⟨c :: path, by rw [List.length_cons, hlength], List.nodup_cons.2 ⟨fun hold => ?_, hnodup⟩, ?_⟩
      · obtain ⟨k, hk, hbelow⟩ := hdepth c hold
        have hsame := (root_depth hone hq hq hbelow (h.tail hc)).1
        omega
      · intro a ha
        rcases List.mem_cons.1 ha with rfl | ha
        · exact ⟨n + 1, Nat.le_refl _, h.tail hc⟩
        · obtain ⟨k, hk, hbelow⟩ := hdepth a ha
          exact ⟨k, Nat.le_succ_of_le hk, hbelow⟩
  obtain ⟨path, hlength, hnodup, hdepth⟩ := hpath
  have hsub : path ⊆ xs := by
    intro a ha
    obtain ⟨k, -, hbelow⟩ := hdepth a ha
    exact hbelow.mem hmem hin
  have hle := (List.subperm_of_subset hnodup hsub).length_le
  omega

end Below

end Lib
