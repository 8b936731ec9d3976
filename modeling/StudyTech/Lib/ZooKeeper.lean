import Mathlib.Logic.Function.Basic
import StudyTech.Lib.JavaString

/-!
# A ZooKeeper directory of sequential ephemeral nodes

The children of one directory, as a set of sessions sees them. Writes are ordered by
their zxid; a read is made at some zxid that is not older than what the session has
seen of its own writes, so it may miss later writes (`children`). A removed node keeps
its place with the zxid of the removal, and its watches turn into events.

`Grows` is what every operation does to the nodes: older reads stay as they were, nodes
only get removed, and new nodes have larger sequence numbers.
-/

namespace Lib

variable {σ : Type}

/-- A node, with the zxids of its creation and of its removal. -/
structure ZNode (σ : Type) where
  base : String
  seq : ℕ
  owner : σ
  czxid : ℕ
  dzxid : Option ℕ
  deriving DecidableEq, Repr

namespace ZNode

/-- Sequence numbers have ten digits. -/
def seqDigits : ℕ := 10

def name (n : ZNode σ) : String := n.base ++ paddedDecimal seqDigits n.seq

/-- The node was not removed. -/
def Live (n : ZNode σ) : Prop := n.dzxid = none

instance (n : ZNode σ) : Decidable n.Live := inferInstanceAs (Decidable (_ = _))

/-- A read at `z` finds the node. -/
def ExistsAt (z : ℕ) (n : ZNode σ) : Prop := n.czxid ≤ z ∧ ∀ d ∈ n.dzxid, z < d

instance (z : ℕ) (n : ZNode σ) : Decidable (n.ExistsAt z) := inferInstanceAs (Decidable (_ ∧ _))

/-- The node, removed at `z` if it is live and satisfies `p`. -/
def removeIf (p : ZNode σ → Bool) (z : ℕ) (n : ZNode σ) : ZNode σ :=
  if n.Live ∧ p n = true then { n with dzxid := some z } else n

/-- The nodes are one node, removed or not. -/
def Same (n n' : ZNode σ) : Prop :=
  n.base = n'.base ∧ n.seq = n'.seq ∧ n.owner = n'.owner ∧ n.czxid = n'.czxid

theorem Same.refl (n : ZNode σ) : n.Same n := ⟨rfl, rfl, rfl, rfl⟩

theorem Same.trans {n n' n'' : ZNode σ} (h : n.Same n') (h' : n'.Same n'') : n.Same n'' :=
  ⟨h.1.trans h'.1, h.2.1.trans h'.2.1, h.2.2.1.trans h'.2.2.1, h.2.2.2.trans h'.2.2.2⟩

theorem Same.name {n n' : ZNode σ} (h : n.Same n') : n.name = n'.name := by
  unfold ZNode.name
  rw [h.1, h.2.1]

section RemoveIf

variable {n : ZNode σ} {p : ZNode σ → Bool} {z z' : ℕ}

theorem same_removeIf : (n.removeIf p z).Same n := by
  unfold removeIf
  split <;> exact .refl n

theorem removeIf_of_not (h : n.Live → p n = false) : n.removeIf p z = n := by
  refine if_neg ?_
  rintro ⟨hlive, hp⟩
  rw [h hlive] at hp
  cases hp

theorem live_of_removeIf (h : (n.removeIf p z).Live) : n.Live := by
  unfold removeIf at h
  split at h
  · cases h
  · exact h

/-- A read before the removal finds the node as before. -/
theorem existsAt_removeIf (hz : z' < z) : (n.removeIf p z).ExistsAt z' ↔ n.ExistsAt z' := by
  unfold removeIf
  split
  · rename_i h
    have hlive : n.dzxid = none := h.1
    simp [ExistsAt, hlive, hz]
  · rfl

end RemoveIf

end ZNode

/-- The directory: the zxid of its creation, its nodes, the last zxid, the least free
sequence number, and for each session whether it expired, the zxid of its last create,
the names it watches and the removals it was not told of yet. -/
structure ZooKeeper (σ : Type) where
  root : Option ℕ
  nodes : List (ZNode σ)
  zxid : ℕ
  nextSeq : ℕ
  expired : σ → Bool
  seen : σ → ℕ
  watches : σ → List String
  events : σ → List String

namespace ZooKeeper

def init (σ : Type) : ZooKeeper σ where
  root := none
  nodes := []
  zxid := 0
  nextSeq := 0
  expired := fun _ => false
  seen := fun _ => 0
  watches := fun _ => []
  events := fun _ => []

variable (zk : ZooKeeper σ)

def rootAt (z : ℕ) : Bool := zk.root.any (· ≤ z)

def createRoot : ZooKeeper σ := { zk with root := some (zk.zxid + 1), zxid := zk.zxid + 1 }

/-- The names that a read at `z` finds. -/
def children (z : ℕ) : List String := (zk.nodes.filter (·.ExistsAt z)).map (·.name)

def hasLive (c : String) : Bool := zk.nodes.any fun n => decide n.Live && n.name == c

/-- The names of the live nodes satisfying `p`. -/
def gone (p : ZNode σ → Bool) : List String := (zk.nodes.filter fun n => decide n.Live && p n).map (·.name)

/-- Remove the live nodes satisfying `p`. -/
def remove (p : ZNode σ → Bool) : ZooKeeper σ :=
  { zk with
    nodes := zk.nodes.map (·.removeIf p (zk.zxid + 1))
    zxid := zk.zxid + 1
    watches := fun s => (zk.watches s).filter (· ∉ zk.gone p)
    events := fun s => zk.events s ++ (zk.watches s).filter (· ∈ zk.gone p) }

def delete (c : String) : ZooKeeper σ := zk.remove (·.name == c)

variable [DecidableEq σ]

/-- The session creates a node with the sequence number `seq`. -/
def create (s : σ) (base : String) (seq : ℕ) : ZooKeeper σ :=
  { zk with
    nodes := zk.nodes ++ [⟨base, seq, s, zk.zxid + 1, none⟩]
    zxid := zk.zxid + 1
    nextSeq := seq + 1
    seen := Function.update zk.seen s (zk.zxid + 1) }

/-- The session read a node and left a watch; where the read missed its removal, the
watch fires. -/
def watch (s : σ) (c : String) : ZooKeeper σ :=
  if zk.hasLive c then { zk with watches := Function.update zk.watches s ((zk.watches s).insert c) }
  else { zk with events := Function.update zk.events s (zk.events s ++ [c]) }

/-- The first event of the session is delivered. -/
def pop (s : σ) : ZooKeeper σ := { zk with events := Function.update zk.events s (zk.events s).tail }

/-- The session expires; its nodes go. -/
def expire (s : σ) : ZooKeeper σ :=
  { zk.remove (·.owner == s) with expired := Function.update zk.expired s true }

end ZooKeeper

/-- The numbers of the nodes fit, and nodes are numbered in the order of their creation. -/
structure ZooKeeper.Ok (zk : ZooKeeper σ) : Prop where
  bound : ∀ n ∈ zk.nodes, n.seq < zk.nextSeq ∧ n.seq < 10 ^ ZNode.seqDigits ∧ n.czxid ≤ zk.zxid
  dead : ∀ n ∈ zk.nodes, ∀ d ∈ n.dzxid, d ≤ zk.zxid
  order : ∀ x ∈ zk.nodes, ∀ y ∈ zk.nodes,
    x = y ∨ (x.seq < y.seq ∧ x.czxid < y.czxid) ∨ (y.seq < x.seq ∧ y.czxid < x.czxid)

/-- From `a` to `b` nodes were created and removed. -/
structure ZooKeeper.Grows (a b : ZooKeeper σ) : Prop where
  zxid_le : a.zxid ≤ b.zxid
  keep : ∀ n ∈ a.nodes, ∃ n' ∈ b.nodes, n'.Same n
  back : ∀ n' ∈ b.nodes, (∃ n ∈ a.nodes, n'.Same n ∧ (n'.Live → n.Live)) ∨ ∀ n ∈ a.nodes, n.seq < n'.seq
  children : ∀ z ≤ a.zxid, b.children z = a.children z

/-- The session was not told of the removal of the node yet: the event is on its way, or
it watches the node. -/
def ZooKeeper.Pending (zk : ZooKeeper σ) (s : σ) (c : String) : Prop := c ∈ zk.events s ∨ c ∈ zk.watches s

/-- What was written is not ahead of the last zxid. -/
structure ZooKeeper.Timely (zk : ZooKeeper σ) : Prop where
  root : ∀ z ∈ zk.root, z ≤ zk.zxid
  seen : ∀ s, zk.seen s ≤ zk.zxid

/-- Watched nodes are live, and sessions saw the nodes they created. -/
structure ZooKeeper.Notifies (zk : ZooKeeper σ) : Prop where
  live : ∀ s, ∀ c ∈ zk.watches s, zk.hasLive c = true
  seen : ∀ n ∈ zk.nodes, n.czxid ≤ zk.seen n.owner

namespace ZooKeeper

variable {zk zk' : ZooKeeper σ} {x y n : ZNode σ} {c : String} {z : ℕ}

theorem mem_children : c ∈ zk.children z ↔ ∃ n ∈ zk.nodes, n.ExistsAt z ∧ n.name = c := by
  simp [children, and_assoc]

theorem hasLive_iff : zk.hasLive c = true ↔ ∃ n ∈ zk.nodes, n.Live ∧ n.name = c := by
  simp [hasLive]

theorem mem_gone {p : ZNode σ → Bool} : c ∈ zk.gone p ↔ ∃ n ∈ zk.nodes, n.Live ∧ p n = true ∧ n.name = c := by
  simp [gone, and_assoc]

/-- A live node is found by every read that is not older than it. -/
theorem existsAt_of_live (h : n.Live) (hz : n.czxid ≤ z) : n.ExistsAt z := by
  refine ⟨hz, fun d hd => ?_⟩
  rw [h] at hd
  cases hd

/-- A read at the last zxid finds the nodes that were not removed. -/
theorem Ok.existsAt_zxid (h : zk.Ok) (hn : n ∈ zk.nodes) : n.ExistsAt zk.zxid ↔ n.Live := by
  constructor
  · rintro ⟨-, hd⟩
    cases hdead : n.dzxid with
    | none => exact hdead
    | some d =>
      have hle := h.dead n hn d hdead
      have hlt := hd d hdead
      omega
  · exact fun hlive => existsAt_of_live hlive (h.bound n hn).2.2

theorem Ok.mem_children_zxid (h : zk.Ok) : c ∈ zk.children zk.zxid ↔ zk.hasLive c = true := by
  rw [mem_children, hasLive_iff]
  constructor
  · rintro ⟨n, hn, hexists, hname⟩
    exact ⟨n, hn, (h.existsAt_zxid hn).1 hexists, hname⟩
  · rintro ⟨n, hn, hlive, hname⟩
    exact ⟨n, hn, (h.existsAt_zxid hn).2 hlive, hname⟩

section Names

theorem Ok.eq_of_seq (h : zk.Ok) (hx : x ∈ zk.nodes) (hy : y ∈ zk.nodes) (heq : x.seq = y.seq) : x = y := by
  rcases h.order x hx y hy with heq' | ⟨hlt, -⟩ | ⟨hlt, -⟩
  · exact heq'
  · omega
  · omega

/-- Names tell nodes apart. -/
theorem Ok.eq_of_name (h : zk.Ok) (hx : x ∈ zk.nodes) (hy : y ∈ zk.nodes) (hname : x.name = y.name) :
    x = y :=
  h.eq_of_seq hx hy (padded_inj (h.bound x hx).2.1 (h.bound y hy).2.1 hname).2

/-- Names with one base compare as the sequence numbers. -/
theorem Ok.name_lt (h : zk.Ok) (hy : y ∈ zk.nodes) (hbase : x.base = y.base) (hlt : x.seq < y.seq) :
    utf16 x.name < utf16 y.name := by
  unfold ZNode.name
  rw [hbase]
  exact utf16_padded_lt y.base hlt (h.bound y hy).2.1

end Names

section Nodes

/-- An operation that touches no node. -/
theorem Ok.of_nodes (h : zk.Ok) (hn : zk'.nodes = zk.nodes) (hz : zk.zxid ≤ zk'.zxid)
    (hs : zk'.nextSeq = zk.nextSeq) : zk'.Ok := by
  refine ⟨fun n hn' => ?_, fun n hn' d hd => ?_, ?_⟩
  · rw [hn] at hn'
    obtain ⟨h₁, h₂, h₃⟩ := h.bound n hn'
    exact ⟨by rw [hs]; exact h₁, h₂, le_trans h₃ hz⟩
  · rw [hn] at hn'
    exact le_trans (h.dead n hn' d hd) hz
  · rw [hn]
    exact h.order

theorem Grows.of_nodes (hn : zk'.nodes = zk.nodes) (hz : zk.zxid ≤ zk'.zxid) : zk.Grows zk' := by
  refine ⟨hz, fun n hn' => ⟨n, hn ▸ hn', .refl n⟩, fun n hn' => Or.inl ⟨n, hn ▸ hn', .refl n, id⟩, ?_⟩
  intro z _
  unfold ZooKeeper.children
  rw [hn]

theorem Ok.init (σ : Type) : (ZooKeeper.init σ).Ok := by
  refine ⟨?_, ?_, ?_⟩ <;> simp [ZooKeeper.init]

variable {p : ZNode σ → Bool}

/-- A node of the directory after a removal. -/
theorem mem_remove : x ∈ (zk.remove p).nodes ↔ ∃ n ∈ zk.nodes, n.removeIf p (zk.zxid + 1) = x := by
  simp only [remove, List.mem_map]

theorem mem_remove_of_not (hn : n ∈ zk.nodes) (hp : n.Live → p n = false) : n ∈ (zk.remove p).nodes :=
  mem_remove.2 ⟨n, hn, ZNode.removeIf_of_not hp⟩

theorem Ok.remove (h : zk.Ok) : (zk.remove p).Ok := by
  refine ⟨fun x hx => ?_, fun x hx d hd => ?_, fun x hx y hy => ?_⟩
  · obtain ⟨n, hn, rfl⟩ := mem_remove.1 hx
    obtain ⟨h₁, h₂, h₃⟩ := h.bound n hn
    obtain ⟨-, hseq, -, hczxid⟩ := ZNode.same_removeIf (n := n) (p := p) (z := zk.zxid + 1)
    rw [hseq, hczxid]
    exact ⟨h₁, h₂, Nat.le_succ_of_le h₃⟩
  · obtain ⟨n, hn, rfl⟩ := mem_remove.1 hx
    unfold ZNode.removeIf at hd
    split at hd
    · cases hd
      exact le_refl _
    · exact Nat.le_succ_of_le (h.dead n hn d hd)
  · -- a removal keeps the numbers and the zxids of creation
    obtain ⟨m, hm, rfl⟩ := mem_remove.1 hx
    obtain ⟨n, hn, rfl⟩ := mem_remove.1 hy
    obtain ⟨-, hseq, -, hczxid⟩ := ZNode.same_removeIf (n := n) (p := p) (z := zk.zxid + 1)
    obtain ⟨-, hseq', -, hczxid'⟩ := ZNode.same_removeIf (n := m) (p := p) (z := zk.zxid + 1)
    rw [hseq, hseq', hczxid, hczxid']
    rcases h.order m hm n hn with rfl | hlt
    · exact Or.inl rfl
    · exact Or.inr hlt

/-- A read at an old zxid does not see the removal. -/
theorem children_remove (hz : z ≤ zk.zxid) : (zk.remove p).children z = zk.children z := by
  unfold children ZooKeeper.remove
  rw [List.filter_map, List.map_map]
  have hname : ∀ n : ZNode σ, (n.removeIf p (zk.zxid + 1)).name = n.name := fun n => ZNode.same_removeIf.name
  have hexists : ∀ n : ZNode σ, decide ((n.removeIf p (zk.zxid + 1)).ExistsAt z) = decide (n.ExistsAt z) :=
    fun n => decide_eq_decide.2 (ZNode.existsAt_removeIf (Nat.lt_succ_of_le hz))
  simp only [Function.comp_def, hname, hexists]

theorem Grows.remove : zk.Grows (zk.remove p) := by
  refine ⟨Nat.le_succ _, fun n hn => ⟨_, mem_remove.2 ⟨n, hn, rfl⟩, ZNode.same_removeIf⟩, fun n' hn' => ?_,
    fun z hz => children_remove hz⟩
  obtain ⟨n, hn, rfl⟩ := mem_remove.1 hn'
  exact Or.inl ⟨n, hn, ZNode.same_removeIf, ZNode.live_of_removeIf⟩

/-- A node that was removed stays removed. -/
theorem hasLive_of_grows (hok : zk'.Ok) (hg : zk.Grows zk') (hn : n ∈ zk.nodes) (h : zk'.hasLive n.name = true) :
    zk.hasLive n.name = true := by
  obtain ⟨n', hn', hlive, hname⟩ := hasLive_iff.1 h
  obtain ⟨n'', hn'', hsame⟩ := hg.keep n hn
  obtain rfl := hok.eq_of_name hn'' hn' (hsame.name.trans hname.symm)
  rcases hg.back n'' hn' with ⟨m, hm, hsame', hlive'⟩ | hnew
  · exact hasLive_iff.2 ⟨m, hm, hlive' hlive, hsame'.name.symm.trans hname⟩
  · have hlt := hnew n hn
    have heq := hsame.2.1
    omega

variable [DecidableEq σ] {s : σ} {base : String} {seq : ℕ}

theorem Ok.create (h : zk.Ok) (hseq : zk.nextSeq ≤ seq) (hfit : seq < 10 ^ ZNode.seqDigits) :
    (zk.create s base seq).Ok := by
  have hmem : ∀ x, x ∈ (zk.create s base seq).nodes → x ∈ zk.nodes ∨ x = ⟨base, seq, s, zk.zxid + 1, none⟩ := by
    intro x hx
    simpa [ZooKeeper.create] using hx
  refine ⟨fun x hx => ?_, fun x hx d hd => ?_, fun x hx y hy => ?_⟩
  · show x.seq < seq + 1 ∧ _ ∧ x.czxid ≤ zk.zxid + 1
    rcases hmem x hx with hx | rfl
    · obtain ⟨h₁, h₂, h₃⟩ := h.bound x hx
      exact ⟨by omega, h₂, by omega⟩
    · exact ⟨Nat.lt_succ_self _, hfit, le_refl _⟩
  · rcases hmem x hx with hx | rfl
    · exact Nat.le_succ_of_le (h.dead x hx d hd)
    · cases hd
  · -- a node that was there has a smaller number and a smaller zxid than the new one
    rcases hmem x hx with hx | rfl <;> rcases hmem y hy with hy | rfl
    · exact h.order x hx y hy
    · obtain ⟨h₁, -, h₃⟩ := h.bound x hx
      exact Or.inr (Or.inl ⟨Nat.lt_of_lt_of_le h₁ hseq, Nat.lt_succ_of_le h₃⟩)
    · obtain ⟨h₁, -, h₃⟩ := h.bound y hy
      exact Or.inr (Or.inr ⟨Nat.lt_of_lt_of_le h₁ hseq, Nat.lt_succ_of_le h₃⟩)
    · exact Or.inl rfl

theorem Grows.create (h : zk.Ok) (hseq : zk.nextSeq ≤ seq) : zk.Grows (zk.create s base seq) := by
  refine ⟨Nat.le_succ _, fun n hn => ⟨n, List.mem_append_left _ hn, .refl n⟩, fun n' hn' => ?_, fun z hz => ?_⟩
  · rcases List.mem_append.1 hn' with hn' | hn'
    · exact Or.inl ⟨n', hn', .refl n', id⟩
    · obtain rfl := List.mem_singleton.1 hn'
      exact Or.inr fun n hn => Nat.lt_of_lt_of_le (h.bound n hn).1 hseq
  · -- a read at an old zxid does not see the new node
    have hnew : ¬ (⟨base, seq, s, zk.zxid + 1, none⟩ : ZNode σ).ExistsAt z := by
      rintro ⟨hle, -⟩
      simp only at hle
      omega
    simp [ZooKeeper.children, ZooKeeper.create, hnew]

theorem Ok.expire (h : zk.Ok) : (zk.expire s).Ok := by
  have hok : (zk.remove (·.owner == s)).Ok := h.remove
  exact hok.of_nodes rfl (le_refl _) rfl

theorem grows_expire : zk.Grows (zk.expire s) := by
  have h : zk.Grows (zk.remove (·.owner == s)) := .remove
  exact ⟨h.zxid_le, h.keep, h.back, h.children⟩

theorem watch_nodes (zk : ZooKeeper σ) (s : σ) (c : String) : (zk.watch s c).nodes = zk.nodes ∧
    (zk.watch s c).zxid = zk.zxid ∧ (zk.watch s c).nextSeq = zk.nextSeq := by
  unfold watch
  split <;> exact ⟨rfl, rfl, rfl⟩

theorem watch_sessions (zk : ZooKeeper σ) (s : σ) (c : String) :
    (zk.watch s c).seen = zk.seen ∧ (zk.watch s c).expired = zk.expired ∧ (zk.watch s c).root = zk.root := by
  unfold watch
  split <;> exact ⟨rfl, rfl, rfl⟩

end Nodes

section Watches

variable {p : ZNode σ → Bool} {s s' : σ}

/-- A removal turns watches into events. -/
theorem Pending.remove (h : zk.Pending s c) : (zk.remove p).Pending s c := by
  unfold Pending ZooKeeper.remove
  simp only [List.mem_append, List.mem_filter, decide_eq_true_eq]
  by_cases hgone : c ∈ zk.gone p
  · rcases h with h | h
    · exact Or.inl (Or.inl h)
    · exact Or.inl (Or.inr ⟨h, hgone⟩)
  · rcases h with h | h
    · exact Or.inl (Or.inl h)
    · exact Or.inr ⟨h, hgone⟩

theorem Notifies.init (σ : Type) : (ZooKeeper.init σ).Notifies := by
  refine ⟨?_, ?_⟩ <;> simp [ZooKeeper.init]

theorem Notifies.remove (h : zk.Notifies) : (zk.remove p).Notifies := by
  refine ⟨fun s c hc => ?_, fun x hx => ?_⟩
  · -- a watch that is left is not on a removed node
    obtain ⟨hc, hgone⟩ := List.mem_filter.1 hc
    obtain ⟨n, hn, hlive, hname⟩ := hasLive_iff.1 (h.live s c hc)
    have hp : p n = false := by
      by_contra hp
      exact of_decide_eq_true hgone (mem_gone.2 ⟨n, hn, hlive, by simpa using hp, hname⟩)
    exact hasLive_iff.2 ⟨n, mem_remove_of_not hn fun _ => hp, hlive, hname⟩
  · obtain ⟨n, hn, rfl⟩ := mem_remove.1 hx
    obtain ⟨-, -, howner, hczxid⟩ := ZNode.same_removeIf (n := n) (p := p) (z := zk.zxid + 1)
    rw [howner, hczxid]
    exact h.seen n hn

theorem Notifies.createRoot (h : zk.Notifies) : zk.createRoot.Notifies := ⟨h.live, h.seen⟩

variable [DecidableEq σ] {base : String} {seq : ℕ}

theorem Notifies.expire (h : zk.Notifies) : (zk.expire s).Notifies := ⟨h.remove.live, h.remove.seen⟩

theorem Notifies.create (h : zk.Notifies) (hok : zk.Ok) : (zk.create s base seq).Notifies := by
  refine ⟨fun s' c hc => ?_, fun x hx => ?_⟩
  · obtain ⟨n, hn, hlive, hname⟩ := hasLive_iff.1 (h.live s' c hc)
    exact hasLive_iff.2 ⟨n, List.mem_append_left _ hn, hlive, hname⟩
  · show x.czxid ≤ Function.update zk.seen s (zk.zxid + 1) x.owner
    rcases List.mem_append.1 hx with hx | hx
    · by_cases howner : x.owner = s
      · have hle := (hok.bound x hx).2.2
        rw [howner, Function.update_self]
        omega
      · rw [Function.update_of_ne howner]
        exact h.seen x hx
    · obtain rfl := List.mem_singleton.1 hx
      rw [Function.update_self]

/-- A watch is kept, or its event is sent at once. -/
theorem pending_watch_self : (zk.watch s c).Pending s c := by
  unfold watch
  split
  · exact Or.inr (by simp)
  · exact Or.inl (by simp)

theorem Pending.watch (h : zk.Pending s c) (s' : σ) (c' : String) : (zk.watch s' c').Pending s c := by
  unfold ZooKeeper.watch
  by_cases hs : s = s'
  · subst hs
    split
    · exact h.imp id fun hc => by simpa using Or.inr hc
    · exact h.imp (fun hc => by simpa using Or.inl hc) id
  · split
    · exact h.imp id fun hc => by simpa [Function.update_of_ne hs] using hc
    · exact h.imp (fun hc => by simpa [Function.update_of_ne hs] using hc) id

theorem Notifies.watch (h : zk.Notifies) (s : σ) (c : String) : (zk.watch s c).Notifies := by
  unfold ZooKeeper.watch
  split
  · rename_i hlive
    refine ⟨fun s' c' hc' => ?_, h.seen⟩
    by_cases hs : s' = s
    · subst hs
      simp only [Function.update_self, List.mem_insert_iff] at hc'
      rcases hc' with rfl | hc'
      · exact hlive
      · exact h.live s' c' hc'
    · simp only [Function.update_of_ne hs] at hc'
      exact h.live s' c' hc'
  · exact ⟨h.live, h.seen⟩

theorem Notifies.pop (h : zk.Notifies) (s : σ) : (zk.pop s).Notifies := ⟨h.live, h.seen⟩

theorem Pending.pop_of_ne (h : zk.Pending s c) (hs : s ≠ s') : (zk.pop s').Pending s c := by
  refine h.imp (fun hc => ?_) id
  simpa [ZooKeeper.pop, Function.update_of_ne hs] using hc

/-- Delivering an event leaves the other events to be delivered. -/
theorem Pending.pop (h : zk.Pending s c) {c' : String} {cs : List String} (hevents : zk.events s = c' :: cs)
    (hc : c ≠ c') : (zk.pop s).Pending s c := by
  refine h.imp (fun hmem => ?_) id
  rw [hevents] at hmem
  simpa [ZooKeeper.pop, hevents] using (List.mem_cons.1 hmem).resolve_left hc

end Watches

section Clock

theorem Timely.init (σ : Type) : (ZooKeeper.init σ).Timely := by
  refine ⟨?_, ?_⟩ <;> simp [ZooKeeper.init]

/-- An operation that leaves the root and what sessions saw. -/
theorem Timely.of_zxid (h : zk.Timely) (hr : zk'.root = zk.root) (hs : zk'.seen = zk.seen) (hz : zk.zxid ≤ zk'.zxid) :
    zk'.Timely := by
  refine ⟨fun z hz' => ?_, fun s => ?_⟩
  · rw [hr] at hz'
    exact le_trans (h.root z hz') hz
  · rw [hs]
    exact le_trans (h.seen s) hz

theorem Timely.createRoot (h : zk.Timely) : zk.createRoot.Timely := by
  refine ⟨fun z hz => ?_, fun s => Nat.le_succ_of_le (h.seen s)⟩
  cases hz
  exact le_refl _

theorem Timely.create [DecidableEq σ] (h : zk.Timely) {s : σ} {base : String} {seq : ℕ} :
    (zk.create s base seq).Timely := by
  refine ⟨fun z hz => Nat.le_succ_of_le (h.root z hz), fun s' => ?_⟩
  show Function.update zk.seen s (zk.zxid + 1) s' ≤ zk.zxid + 1
  by_cases hs : s' = s
  · subst hs
    rw [Function.update_self]
  · rw [Function.update_of_ne hs]
    exact Nat.le_succ_of_le (h.seen s')

end Clock

end ZooKeeper

end Lib
