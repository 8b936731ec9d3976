import StudyTech.Proof.RmiWatch

/-!
# Only bound services are advertised

A provider registers the url that `publish` returns, and the consumers read what the
providers registered. So where every url that `publish` returns was bound, every url in
ZooKeeper and in a consumer was, by the provider that registered it (`only_bound`). But
`publish` returns the url also when it caught an exception (`advertised_unbound`).
-/

namespace StudyTech

open Lib

variable {π κ : Type}

/-- `publish` catches an exception only when the provider had bound the url before. -/
def CatchesBound (w : RmiWorld π κ) (l : RmiLabel π κ) : Prop :=
  match l with
  | .publish p .caught => (w.provider p).publishing.all (· ∈ w.bound p) = true
  | _ => True

instance (w : RmiWorld π κ) (l : RmiLabel π κ) : Decidable (CatchesBound w l) :=
  match l with
  | .resister .. => instDecidableTrue
  | .publish _ .caught => instDecidableEqBool _ true
  | .publish _ .returned => instDecidableTrue
  | .publish _ .thrown => instDecidableTrue
  | .register .. => instDecidableTrue
  | .expire _ => instDecidableTrue
  | .start _ => instDecidableTrue
  | .deliver _ => instDecidableTrue
  | .watch .. => instDecidableTrue

/-- What a run of `watchNode` read so far. -/
def WatchPc.list : WatchPc → List String
  | .reading _ list _ => list
  | _ => []

/-- The invariant of the runs along `CatchesBound`. -/
structure BoundInv (w : RmiWorld π κ) : Prop where
  registering : ∀ p url, (w.provider p).registering = some url → url ∈ w.bound p
  nodes : ∀ n ∈ w.dir.children, n.data ∈ w.bound n.owner

theorem boundInv_init : BoundInv (.init π κ) := by
  refine ⟨?_, ?_⟩
  · intro p url h; cases h
  · intro n h; cases h

/-- All urls that the consumers have read, or are reading, satisfy `P`. -/
structure ReadInv (P : String → Prop) (w : RmiWorld π κ) : Prop where
  reads : ∀ c th, ∀ url ∈ ((w.consumer c).run th).list, P url
  urls : ∀ c, ∀ url ∈ (w.consumer c).urls, P url

theorem ReadInv.mono {P Q : String → Prop} {w : RmiWorld π κ} (h : ReadInv P w) (hPQ : ∀ url, P url → Q url) :
    ReadInv Q w :=
  ⟨fun c th url hurl => hPQ url (h.reads c th url hurl), fun c url hurl => hPQ url (h.urls c url hurl)⟩

section Steps

variable [DecidableEq π] [DecidableEq κ] {w w' : RmiWorld π κ}

omit [DecidableEq κ] in
/-- A step of a provider: what it registers is bound, and no url is unbound. -/
theorem BoundInv.provider (h : BoundInv w) {p : π} {pc : ProviderPc} {bound : π → List String}
    {d : WatchedDir String π String κ} {expired : π → Bool} (hbound : ∀ q, ∀ url ∈ w.bound q, url ∈ bound q)
    (hpc : ∀ url, pc.registering = some url → url ∈ bound p)
    (hd : ∀ n ∈ d.children, n ∈ w.dir.children ∨ n.data ∈ bound n.owner) :
    BoundInv ⟨d, expired, Function.update w.provider p pc, bound, w.consumer⟩ := by
  refine ⟨fun q url hq => ?_, fun n hn => ?_⟩
  · by_cases hqp : q = p
    · subst hqp
      simp only [Function.update_self] at hq
      exact hpc url hq
    · simp only [Function.update_of_ne hqp] at hq
      exact hbound q url (h.registering q url hq)
  · rcases hd n hn with hn | hn
    · exact hbound _ _ (h.nodes n hn)
    · exact hn

omit [DecidableEq π] in
/-- A step of a consumer: a thread goes on to `pc`, and `urls` becomes `urls'`. -/
theorem ReadInv.consumer {P : String → Prop} (h : ReadInv P w) {c : κ} {th : RmiThread} {pc : WatchPc} {started : Bool}
    {urls' : List String} {urlsAt last : ℕ} {d : WatchedDir String π String κ}
    (hpc : ∀ url ∈ pc.list, P url) (hurls : ∀ url ∈ urls', P url) :
    ReadInv P { w.setConsumer c ⟨started, ((w.consumer c).goto th pc).run, urls', urlsAt, last⟩ with dir := d } := by
  refine ⟨fun c' th' url hurl => ?_, fun c' url hurl => ?_⟩
  · unfold RmiWorld.setConsumer at hurl
    by_cases hc : c' = c
    · subst hc
      simp only [Function.update_self] at hurl
      by_cases hth : th' = th
      · subst hth
        rw [goto_run_self] at hurl
        exact hpc url hurl
      · rw [goto_run_of_ne hth] at hurl
        exact h.reads c' th' url hurl
    · simp only [Function.update_of_ne hc] at hurl
      exact h.reads c' th' url hurl
  · unfold RmiWorld.setConsumer at hurl
    by_cases hc : c' = c
    · subst hc
      simp only [Function.update_self] at hurl
      exact hurls url hurl
    · simp only [Function.update_of_ne hc] at hurl
      exact h.urls c' url hurl

theorem boundInv_step {l : RmiLabel π κ} (h : BoundInv w) (hok : CatchesBound w l) (hs : rmiStep w l = some w') :
    BoundInv w' := by
  have hkeep : ∀ q, ∀ url ∈ w.bound q, url ∈ w.bound q := fun _ _ hurl => hurl
  have hold : ∀ n ∈ w.dir.children, n ∈ w.dir.children ∨ n.data ∈ w.bound n.owner := fun _ hn => .inl hn
  cases rmiStep_effect hs with
  | resister => exact h.provider hkeep (fun url hurl => nomatch hurl) hold
  | registry => exact h.provider hkeep (fun url hurl => nomatch hurl) hold
  | bound hpc =>
    rename_i p url
    -- the url of this provider is bound now
    refine h.provider (fun q u hu => ?_) (fun u hu => ?_) (fun n hn => .inl hn)
    · by_cases hq : q = p
      · subst hq
        rw [Function.update_self]
        exact List.mem_cons_of_mem _ hu
      · rw [Function.update_of_ne hq]
        exact hu
    · cases hu
      rw [Function.update_self]
      exact List.mem_cons_self
  | caught hpc =>
    refine h.provider hkeep (fun u hu => ?_) hold
    cases hu
    simpa [CatchesBound, hpc] using hok
  | thrown => exact h.provider hkeep (fun url hurl => nomatch hurl) hold
  | register hurl _ hsame hd =>
    have hbound := h.registering _ _ hurl
    refine h.provider hkeep (fun u hu => ?_) fun n hn => ?_
    · rw [hsame u hu]
      exact hbound
    · cases hd with
      | keep => exact .inl hn
      | create => exact .inl hn
      | add hseq =>
        rcases List.mem_append.1 hn with hn | hn
        · exact .inl hn
        · obtain rfl := List.mem_singleton.1 hn
          exact .inr hbound
  | expire => exact ⟨h.registering, fun n hn => h.nodes n (WatchedDir.mem_removeOwner hn)⟩
  | _ => exact ⟨h.registering, h.nodes⟩

/-- No url is unbound. -/
theorem bound_step {l : RmiLabel π κ} (hs : rmiStep w l = some w') {p : π} {url : String} (hurl : url ∈ w.bound p) :
    url ∈ w'.bound p := by
  cases rmiStep_effect hs with
  | @bound q url' _ =>
    show url ∈ Function.update w.bound q (url' :: w.bound q) p
    by_cases hp : p = q
    · subst hp
      rw [Function.update_self]
      exact List.mem_cons_of_mem _ hurl
    · rw [Function.update_of_ne hp]
      exact hurl
  | _ => exact hurl

/-- A consumer reads what is in the directory. -/
theorem readInv_step {P : String → Prop} {l : RmiLabel π κ} (h : ReadInv P w) (hdir : ∀ n ∈ w.dir.children, P n.data)
    (hs : rmiStep w l = some w') : ReadInv P w' := by
  have hnone : ∀ url ∈ WatchPc.idle.list, P url := fun _ hurl => nomatch hurl
  cases rmiStep_effect hs with
  | start => exact h.consumer (d := w.dir) (fun url hurl => nomatch hurl) (h.urls _)
  | deliver => exact h.consumer (fun url hurl => nomatch hurl) (h.urls _)
  | listed => exact h.consumer (fun url hurl => nomatch hurl) (h.urls _)
  | noRoot => exact h.consumer (d := w.dir) hnone (h.urls _)
  | data hrun hdata =>
    rename_i c th node data todo list stamp
    refine h.consumer (d := w.dir) (fun url hurl => ?_) (h.urls c)
    rcases List.mem_append.1 hurl with hurl | hurl
    · have hread := h.reads c th url
      rw [hrun] at hread
      exact hread hurl
    · -- the data of a node
      obtain rfl := List.mem_singleton.1 hurl
      obtain ⟨n, hn, rfl⟩ := WatchedDir.mem_of_dataOf hdata
      exact hdir n hn
  | noNode => exact h.consumer (d := w.dir) hnone (h.urls _)
  | assign hrun =>
    rename_i c th list stamp
    refine h.consumer (d := w.dir) hnone fun url hurl => ?_
    have hread := h.reads c th url
    rw [hrun] at hread
    exact hread hurl
  | failed => exact h.consumer (d := w.dir) hnone (h.urls _)
  | _ => exact ⟨h.reads, h.urls⟩

/-- In a state of the run the provider has a child of `/rmi` with this url. -/
def RegisteredBy (ls : List (RmiLabel π κ)) (p : π) (url : String) : Prop :=
  ∃ ls₁ ls₂ w₁, ls = ls₁ ++ ls₂ ∧ exec rmiStep (.init π κ) ls₁ = some w₁ ∧
    ∃ n ∈ w₁.dir.children, n.owner = p ∧ n.data = url

/-- What is registered after one more step was registered before, or is in the directory now. -/
theorem registered_append {ls : List (RmiLabel π κ)} {l : RmiLabel π κ} {p : π} {url : String}
    (hrun : exec rmiStep (.init π κ) (ls ++ [l]) = some w) :
    RegisteredBy (ls ++ [l]) p url ↔ RegisteredBy ls p url ∨ ∃ n ∈ w.dir.children, n.owner = p ∧ n.data = url := by
  constructor
  · rintro ⟨ls₁, ls₂, w₁, hsplit, hrun₁, hn⟩
    rcases List.eq_nil_or_concat ls₂ with rfl | ⟨ls₃, l', rfl⟩
    · rw [List.append_nil] at hsplit
      rw [← hsplit, hrun] at hrun₁
      cases hrun₁
      exact Or.inr hn
    · rw [List.concat_eq_append, ← List.append_assoc] at hsplit
      obtain ⟨hsplit, -⟩ := List.append_inj' hsplit rfl
      exact Or.inl ⟨ls₁, ls₃, w₁, hsplit, hrun₁, hn⟩
  · rintro (⟨ls₁, ls₂, w₁, rfl, hrun₁, hn⟩ | hn)
    · exact ⟨ls₁, ls₂ ++ [l], w₁, List.append_assoc .., hrun₁, hn⟩
    · exact ⟨ls ++ [l], [], w, (List.append_nil _).symm, hrun, hn⟩

/-- The invariant with the history: who registered a url has bound it, and the consumers have
urls that were registered. -/
structure AdvertInv (ls : List (RmiLabel π κ)) (w : RmiWorld π κ) : Prop where
  bound : BoundInv w
  registered : ∀ p url, RegisteredBy ls p url → url ∈ w.bound p
  reads : ReadInv (fun url => ∃ p, RegisteredBy ls p url) w

theorem advertInv_step {ls : List (RmiLabel π κ)} {l : RmiLabel π κ} (hrun : exec rmiStep (.init π κ) ls = some w)
    (h : AdvertInv ls w) (hok : CatchesBound w l) (hs : rmiStep w l = some w') : AdvertInv (ls ++ [l]) w' := by
  have hrun' : exec rmiStep (.init π κ) (ls ++ [l]) = some w' := exec_append_some hrun (by rw [exec_cons, hs]; rfl)
  have hbound := boundInv_step h.bound hok hs
  refine ⟨hbound, fun p url hreg => ?_, ?_⟩
  · rcases (registered_append hrun').1 hreg with hreg | ⟨n, hn, rfl, rfl⟩
    · exact bound_step hs (h.registered p url hreg)
    · exact hbound.nodes n hn
  · have hdir : ∀ n ∈ w.dir.children, ∃ p, RegisteredBy ls p n.data :=
      fun n hn => ⟨n.owner, ls, [], w, (List.append_nil _).symm, hrun, n, hn, rfl, rfl⟩
    refine (readInv_step h.reads hdir hs).mono ?_
    rintro url ⟨p, hreg⟩
    exact ⟨p, (registered_append hrun').2 (Or.inl hreg)⟩

theorem advertInv_init : AdvertInv [] (.init π κ) := by
  refine ⟨boundInv_init, ?_, ⟨(fun c th url hurl => nomatch hurl), fun c url hurl => nomatch hurl⟩⟩
  rintro p url ⟨ls₁, ls₂, w₁, hsplit, hrun, n, hn, -⟩
  obtain ⟨rfl, -⟩ := List.append_eq_nil_iff.1 hsplit.symm
  cases hrun
  cases hn

/-- **Only bound services are advertised**, in every run in which `publish` catches no
exception for a url that its provider had not bound before: the urls in ZooKeeper are bound
in their provider, and the urls of a consumer were registered, and are bound in every provider
that registered them. -/
theorem only_bound {ls : List (RmiLabel π κ)} (hrun : exec rmiStep (.init π κ) ls = some w)
    (hok : Along rmiStep CatchesBound (.init π κ) ls) :
    (∀ n ∈ w.dir.children, n.data ∈ w.bound n.owner) ∧
      ∀ c, ∀ url ∈ (w.consumer c).urls,
        (∃ p, RegisteredBy ls p url) ∧ ∀ p, RegisteredBy ls p url → url ∈ w.bound p := by
  have h : AdvertInv ls w :=
    inv_of_history (fun _ _ _ _ hrun h hok hs => advertInv_step hrun h hok hs) advertInv_init hok hrun
  exact ⟨h.bound.nodes, fun c url hurl => ⟨h.reads.urls c url hurl, fun p hreg => h.registered p url hreg⟩⟩

end Steps

theorem only_bound_caughtUp :
    ∃ w, exec rmiStep (.init Unit Unit) caughtUp = some w ∧ (w.consumer ()).urls.length = 1 ∧
      ∀ url ∈ (w.consumer ()).urls, RegisteredBy caughtUp () url ∧ url ∈ w.bound () := by
  have hany : (exec rmiStep (.init Unit Unit) caughtUp).any fun w =>
      decide ((w.consumer ()).urls.length = 1) := by decide +kernel
  obtain ⟨w, hrun, hw⟩ := (Option.any_eq_true _ _).1 hany
  refine ⟨w, hrun, of_decide_eq_true hw, fun url hurl => ?_⟩
  obtain ⟨⟨p, hreg⟩, hbound⟩ := (only_bound hrun (by decide +kernel)).2 () url hurl
  exact ⟨hreg, hbound () hreg⟩

/-- `bind` throws, and the url is in ZooKeeper all the same, and in the consumer. -/
theorem advertised_unbound : ∃ ls w, exec rmiStep (.init Unit Unit) ls = some w ∧
    (w.consumer ()).urls = ["rmi://127.0.0.1:6668/com.ljt.study.zk.rmi.ServiceImpl"] ∧
    w.dir.contents = (w.consumer ()).urls ∧ ∀ p, w.bound p = [] := by
  have hany : (exec rmiStep (.init Unit Unit) (toCreateNode .returned .caught ++
      [.register () (.ok 0), .start (), .watch () .main (.nodes [serviceNode 0]), .watch () .main .data,
        .watch () .main .assign])).any fun w =>
      decide ((w.consumer ()).urls = ["rmi://127.0.0.1:6668/com.ljt.study.zk.rmi.ServiceImpl"] ∧
        w.dir.contents = (w.consumer ()).urls ∧ w.bound () = []) := by decide +kernel
  obtain ⟨w, hrun, hw⟩ := (Option.any_eq_true _ _).1 hany
  obtain ⟨hurls, hcontents, hbound⟩ := of_decide_eq_true hw
  exact ⟨_, w, hrun, hurls, hcontents, fun _ => hbound⟩

end StudyTech
