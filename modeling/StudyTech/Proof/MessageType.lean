import StudyTech.Spec.MessageType

/-!
# When the payload type is resolved

`getMessageType` takes the type argument that `AbstractRocketMQListener` is given where a class
extends it directly, and substitutes nothing into it. That is what the language makes of the type
parameter if and only if the listener's own class is that class or the argument mentions no type
variable (`payloadType_resolved`). A type variable in its place is refused.
-/

namespace StudyTech

namespace ReflectType

variable {p q r : String → String → Bool} {f : String → String → Option ReflectType}

mutual

/-- What holds of each variable where both `p` and `q` do. -/
theorem allVariables_and (hpq : ∀ o n, p o n = true → q o n = true → r o n = true) :
    ∀ t : ReflectType, t.allVariables p = true → t.allVariables q = true → t.allVariables r = true
  | .cls _, _, _ => rfl
  | .parameterized _ arguments, hp, hq => by
    simp only [allVariables] at hp hq ⊢
    exact allVariablesOf_and hpq arguments hp hq
  | .typeVariable o n, hp, hq => hpq o n hp hq
  | .array component, hp, hq => by
    simp only [allVariables] at hp hq ⊢
    exact allVariables_and hpq component hp hq
  | .wildcard upper lower, hp, hq => by
    simp only [allVariables, Bool.and_eq_true] at hp hq ⊢
    exact ⟨allVariablesOf_and hpq upper hp.1 hq.1, allVariablesOf_and hpq lower hp.2 hq.2⟩

theorem allVariablesOf_and (hpq : ∀ o n, p o n = true → q o n = true → r o n = true) :
    ∀ ts : List ReflectType, allVariablesOf p ts = true → allVariablesOf q ts = true → allVariablesOf r ts = true
  | [], _, _ => rfl
  | t :: ts, hp, hq => by
    simp only [allVariablesOf, Bool.and_eq_true] at hp hq ⊢
    exact ⟨allVariables_and hpq t hp.1 hq.1, allVariablesOf_and hpq ts hp.2 hq.2⟩

end

mutual

/-- A substitution leaves a type without type variables. -/
theorem subst_closed (f : String → String → Option ReflectType) : ∀ t : ReflectType, t.isClosed = true → t.subst f = t
  | .cls _, _ => rfl
  | .parameterized raw arguments, h => by
    simp only [isClosed, allVariables] at h
    rw [subst, substAll_closed f arguments h]
  | .typeVariable _ _, h => by
    simp [isClosed, allVariables] at h
  | .array component, h => by
    simp only [isClosed, allVariables] at h
    rw [subst, subst_closed f component h]
  | .wildcard upper lower, h => by
    simp only [isClosed, allVariables, Bool.and_eq_true] at h
    rw [subst, substAll_closed f upper h.1, substAll_closed f lower h.2]

theorem substAll_closed (f : String → String → Option ReflectType) :
    ∀ ts : List ReflectType, allVariablesOf (fun _ _ => false) ts = true → substAll f ts = ts
  | [], _ => rfl
  | t :: ts, h => by
    simp only [allVariablesOf, Bool.and_eq_true] at h
    rw [substAll, subst_closed f t h.1, substAll_closed f ts h.2]

end

mutual

/-- Where every variable that satisfies `p` is replaced by a type whose variables satisfy `q`,
those of the result do. -/
theorem subst_allVariables (hf : ∀ o n, p o n = true → ∃ u, f o n = some u ∧ u.allVariables q = true) :
    ∀ t : ReflectType, t.allVariables p = true → (t.subst f).allVariables q = true
  | .cls _, _ => rfl
  | .parameterized _ arguments, h => by
    simp only [allVariables, subst] at h ⊢
    exact substAll_allVariables hf arguments h
  | .typeVariable o n, h => by
    obtain ⟨u, hu, hq⟩ := hf o n h
    rw [subst, hu]
    exact hq
  | .array component, h => by
    simp only [allVariables, subst] at h ⊢
    exact subst_allVariables hf component h
  | .wildcard upper lower, h => by
    simp only [allVariables, subst, Bool.and_eq_true] at h ⊢
    exact ⟨substAll_allVariables hf upper h.1, substAll_allVariables hf lower h.2⟩

theorem substAll_allVariables (hf : ∀ o n, p o n = true → ∃ u, f o n = some u ∧ u.allVariables q = true) :
    ∀ ts : List ReflectType, allVariablesOf p ts = true → allVariablesOf q (substAll f ts) = true
  | [], _ => rfl
  | t :: ts, h => by
    simp only [allVariablesOf, substAll, Bool.and_eq_true] at h ⊢
    exact ⟨subst_allVariables hf t h.1, substAll_allVariables hf ts h.2⟩

end

/-- A type is no class and no parameterized type, or it has the raw class that `getMethodParameter`
looks for. -/
theorem rawClass_eq (t : ReflectType) {smart : Bool} (hsmart : t.isParameterized = true → smart = true) :
    (if t.isParameterized && smart then t.rawClass else t.asClass) = t.rawClass := by
  cases t with
  | parameterized raw arguments =>
    rw [hsmart rfl]
    rfl
  | _ => rfl

end ReflectType

section Chain

variable {c d : JavaClass} {cs : List JavaClass} {t A X : ReflectType}

/-- A name in a list has a partner in a list as long. -/
theorem lookup_zip {names : List String} {ts : List ReflectType} {name : String} (hname : name ∈ names)
    (hlength : ts.length = names.length) : ∃ t ∈ ts, (names.zip ts).lookup name = some t := by
  induction names generalizing ts with
  | nil => cases hname
  | cons n names ih =>
    cases ts with
    | nil => cases hlength
    | cons t ts =>
      by_cases heq : name = n
      · subst heq
        exact ⟨t, List.mem_cons_self, List.lookup_cons_self⟩
      · obtain ⟨u, hu, hlookup⟩ := ih ((List.mem_cons.1 hname).resolve_left heq) (Nat.succ.inj hlength)
        refine ⟨u, List.mem_cons_of_mem _ hu, ?_⟩
        rw [List.zip_cons_cons, List.lookup_cons, beq_false_of_ne heq]
        exact hlookup

/-- Substitution along a link of the chain takes a type in the scope of the superclass to one in
the scope of the class. -/
theorem scoped_subst (hlength : c.superArguments.length = d.typeParameters.length)
    (hscoped : ∀ u ∈ c.superArguments, c.Scoped u) (ht : d.Scoped t) :
    c.Scoped (t.subst (d.bind c.superArguments)) := by
  refine ReflectType.subst_allVariables (fun o n hon => ?_) t ht
  rw [Bool.and_eq_true, beq_iff_eq, List.contains_iff_mem] at hon
  obtain ⟨rfl, hn⟩ := hon
  obtain ⟨u, hu, hlookup⟩ := lookup_zip hn hlength
  exact ⟨u, by rw [JavaClass.bind, if_pos rfl, hlookup], hscoped u hu⟩

/-- What a class binds is in its scope. -/
theorem binding_scoped (hscoped : ∀ e ∈ c :: cs, ∀ u ∈ e.superArguments, e.Scoped u) (h : binding (c :: cs) = some X) :
    c.Scoped X := by
  induction cs generalizing c X with
  | nil => exact hscoped c List.mem_cons_self X (List.mem_of_mem_head? h)
  | cons d cs ih =>
    rw [binding, Option.ite_none_right_eq_some] at h
    obtain ⟨hlength, h⟩ := h
    obtain ⟨Y, hY, rfl⟩ := Option.map_eq_some_iff.1 h
    have hd := ih (fun e he => hscoped e (List.mem_cons_of_mem _ he)) hY
    exact scoped_subst hlength (hscoped c List.mem_cons_self) hd

/-- The argument that the last class of the chain gives. -/
def lastArgument (classes : List JavaClass) : Option ReflectType :=
  classes.getLast?.bind fun c => c.superArguments.head?

/-- Where the argument mentions no type variable, it is what every class of the chain binds. -/
theorem binding_closed (hA : A.isClosed = true) (hlast : lastArgument (c :: cs) = some A)
    (h : binding (c :: cs) = some X) :
    ∀ e es, e :: es <:+ c :: cs → binding (e :: es) = some A := by
  induction cs generalizing c X with
  | nil =>
    intro e es hsuffix
    rcases List.suffix_cons_iff.1 hsuffix with heq | hnil
    · rw [heq]
      exact hlast
    · cases List.suffix_nil.1 hnil
  | cons d cs ih =>
    have h' := h
    rw [binding, Option.ite_none_right_eq_some] at h'
    obtain ⟨hlength, h'⟩ := h'
    obtain ⟨Y, hY, -⟩ := Option.map_eq_some_iff.1 h'
    have hd := ih (by rwa [lastArgument, List.getLast?_cons_cons] at hlast) hY
    intro e es hsuffix
    rcases List.suffix_cons_iff.1 hsuffix with heq | hsuffix
    · rw [heq, binding, if_pos hlength, hd d cs (List.suffix_refl _), Option.map_some, ReflectType.subst_closed _ A hA]
    · exact hd e es hsuffix

/-- Something is bound only where the last class of the chain gives an argument. -/
theorem lastArgument_of_binding (h : binding (c :: cs) = some X) : ∃ A, lastArgument (c :: cs) = some A := by
  induction cs generalizing c X with
  | nil => exact ⟨X, h⟩
  | cons d cs ih =>
    rw [binding, Option.ite_none_right_eq_some] at h
    obtain ⟨Y, hY, -⟩ := Option.map_eq_some_iff.1 h.2
    obtain ⟨A, hA⟩ := ih hY
    exact ⟨A, by rwa [lastArgument, List.getLast?_cons_cons]⟩

end Chain

section Listener

variable {h : ListenerHierarchy} {A X : ReflectType}

/-- The loop gets to the class that extends `AbstractRocketMQListener` directly. -/
theorem actualTypeArguments_eq {c : JavaClass} {cs : List JavaClass} {arguments : List ReflectType}
    (hlinked : (c :: cs).IsChain fun c d => c.superclass = d.name)
    (hnames : abstractRocketMQListener ∉ (c :: cs).map (·.name))
    (htop : ∃ e, (c :: cs).getLast? = some e ∧ e.superclass = abstractRocketMQListener ∧ e.superArguments = arguments)
    (hne : arguments ≠ []) : ListenerHierarchy.actualTypeArguments (c :: cs) = some arguments := by
  induction cs generalizing c with
  | nil =>
    obtain ⟨e, he, hsuper, rfl⟩ := htop
    obtain rfl : c = e := Option.some.inj he
    rw [ListenerHierarchy.actualTypeArguments, if_pos ⟨hne, hsuper⟩]
  | cons d cs ih =>
    obtain ⟨hlink, hlinked⟩ := List.isChain_cons_cons.1 hlinked
    have hother : c.superclass ≠ abstractRocketMQListener := by
      intro heq
      refine hnames (List.mem_map.2 ⟨d, by simp, ?_⟩)
      rw [← hlink, heq]
    rw [ListenerHierarchy.actualTypeArguments, if_neg fun hboth => hother hboth.2]
    refine ih hlinked (fun hmem => hnames ?_) ?_
    · rw [List.map_cons]
      exact List.mem_cons_of_mem _ hmem
    · rwa [List.getLast?_cons_cons] at htop

theorem getMessageType_eq (hA : lastArgument h.classes = some A) : h.getMessageType = A := by
  obtain ⟨e, he, hsuper⟩ := h.top
  have hhead : e.superArguments.head? = some A := by rwa [lastArgument, he] at hA
  have hnames : abstractRocketMQListener ∉ h.classes.map (·.name) := (List.nodup_cons.1 h.distinct).1
  cases hclasses : h.classes with
  | nil =>
    rw [hclasses] at he
    cases he
  | cons c cs =>
    have hlinked := h.linked
    rw [hclasses] at he hnames hlinked
    have hne : e.superArguments ≠ [] := by
      intro hnil
      rw [hnil] at hhead
      cases hhead
    have harguments := actualTypeArguments_eq hlinked hnames ⟨e, he, hsuper, rfl⟩ hne
    rw [ListenerHierarchy.getMessageType, hclasses, harguments]
    exact (List.headD_eq_head?_getD ..).trans (by rw [hhead]; rfl)

/-- Every class of the chain that binds `X` and implements `handleMessage` takes its raw class. -/
theorem getMethod_eq {r : String} (hr : X.rawClass = some r)
    (hbind : ∀ e es, e :: es <:+ h.classes → binding (e :: es) = some X) :
    h.getMethod r = some { parameterClass := r } := by
  obtain ⟨c, hc, hsome⟩ := h.implemented
  obtain ⟨p, hp⟩ := Option.isSome_iff_exists.1 hsome
  obtain ⟨before, after, happend⟩ := List.append_of_mem hc
  have hsuffix : c :: after <:+ h.classes := ⟨before, happend.symm⟩
  have hpr : p = r := h.overrides c after hsuffix p hp r (by rw [hbind c after hsuffix, Option.bind_some, hr]; rfl)
  exact if_pos (Or.inr ⟨c, hc, hpr ▸ hp⟩)

/-- What `getMethodParameter` returns or throws, by the type that was found. -/
theorem getMethodParameter_eq {smart : Bool} (htype : h.getMessageType = A)
    (hsmart : A.isParameterized = true → smart = true) :
    h.getMethodParameter smart = match A.rawClass.bind h.getMethod with
      | some methodParameter => .ok methodParameter
      | none => .error (ListenerHierarchy.notSupported A) := by
  simp only [ListenerHierarchy.getMethodParameter, htype, ReflectType.rawClass_eq A hsmart]
  cases A.rawClass with
  | none => rfl
  | some r => rfl

variable {σ P : Type} {L : AbstractRocketMQListener σ P}

theorem init_of_getMethodParameter {methodParameter : MethodParameter} {context : MessageContext}
    (hmethod : h.getMethodParameter L.messageConverter.smart = .ok methodParameter)
    (hcontext : L.getMessageContext = .ok context) : L.init h = .ok ⟨h.getMessageType, methodParameter, context⟩ := by
  rw [AbstractRocketMQListener.init, hmethod, hcontext]
  rfl

theorem messageType_of_init {fields : ListenerFields} (hinit : L.init h = .ok fields) :
    fields.messageType = h.getMessageType := by
  rw [AbstractRocketMQListener.init] at hinit
  cases hmethod : h.getMethodParameter L.messageConverter.smart with
  | error e =>
    rw [hmethod] at hinit
    cases hinit
  | ok methodParameter =>
    rw [hmethod] at hinit
    cases hcontext : L.getMessageContext with
    | error e =>
      rw [hcontext] at hinit
      cases hinit
    | ok context =>
      rw [hcontext] at hinit
      cases hinit
      rfl

/-- A type in the scope of the first class and in the scope of the last mentions no type variable,
or the two are the same. -/
theorem closed_of_scoped {c e : JavaClass} (hne : c.name ≠ e.name) (hc : c.Scoped A) (he : e.Scoped A) :
    A.isClosed = true := by
  refine ReflectType.allVariables_and (fun o n hc he => ?_) A hc he
  rw [Bool.and_eq_true, beq_iff_eq] at hc he
  exact absurd (hc.1.symm.trans he.1) hne

/-- What is bound is the argument itself only in these two cases. -/
theorem direct_or_closed (hX : binding h.classes = some A) (hA : lastArgument h.classes = some A) :
    (∃ c, h.classes = [c]) ∨ A.isClosed = true := by
  have hdistinct := (List.nodup_cons.1 h.distinct).2
  have hscoped := h.inScope
  match hclasses : h.classes with
  | [] =>
    rw [hclasses] at hX
    cases hX
  | [c] => exact Or.inl ⟨c, rfl⟩
  | c :: d :: cs =>
    refine Or.inr ?_
    rw [hclasses] at hX hA hdistinct hscoped
    rw [lastArgument, List.getLast?_cons_cons] at hA
    obtain ⟨e, he, hhead⟩ := Option.bind_eq_some_iff.1 hA
    have hmem : e ∈ d :: cs := List.mem_of_getLast? he
    have hne : c.name ≠ e.name := by
      intro heq
      exact (List.nodup_cons.1 hdistinct).1 (List.mem_map.2 ⟨e, hmem, heq.symm⟩)
    exact closed_of_scoped hne (binding_scoped hscoped hX)
      (hscoped e (List.mem_cons_of_mem _ hmem) A (List.mem_of_mem_head? hhead))

/-- In these two cases every class of the chain binds the argument. -/
theorem binding_suffix (hX : binding h.classes = some X) (hA : lastArgument h.classes = some A)
    (hcase : (∃ c, h.classes = [c]) ∨ A.isClosed = true) :
    ∀ e es, e :: es <:+ h.classes → binding (e :: es) = some A := by
  rcases hcase with ⟨c, hc⟩ | hclosed
  · rw [hc] at hA ⊢
    intro e es hsuffix
    rcases List.suffix_cons_iff.1 hsuffix with heq | hnil
    · rw [heq]
      exact hA
    · cases List.suffix_nil.1 hnil
  · cases hclasses : h.classes with
    | nil =>
      rw [hclasses] at hX
      cases hX
    | cons c cs =>
      rw [hclasses] at hX hA
      exact binding_closed hclosed hA hX

/-- **The payload type.** Where the type parameter of `AbstractRocketMQListener` stands for the
class or parameterized type `X` in the listener's class, `init` sets the message type to `X` and
takes the `handleMessage` for its raw class if and only if the listener's class extends
`AbstractRocketMQListener` directly or the argument that it is given there mentions no type
variable. A listener whose argument there is a type variable is refused. -/
theorem payloadType_resolved {r : String} {context : MessageContext} (hX : binding h.classes = some X)
    (hr : X.rawClass = some r) (hsmart : X.isParameterized = true → L.messageConverter.smart = true)
    (hcontext : L.getMessageContext = .ok context) :
    ∃ A, lastArgument h.classes = some A ∧
      (L.init h = .ok ⟨X, { parameterClass := r }, context⟩ ↔ (∃ c, h.classes = [c]) ∨ A.isClosed = true) ∧
      ∀ owner name, A = .typeVariable owner name → L.init h = .error (ListenerHierarchy.notSupported A) := by
  obtain ⟨c, cs, hclasses⟩ : ∃ c cs, h.classes = c :: cs := by
    cases hclasses : h.classes with
    | nil =>
      rw [hclasses] at hX
      cases hX
    | cons c cs => exact ⟨c, cs, rfl⟩
  obtain ⟨A, hA⟩ := lastArgument_of_binding (hclasses ▸ hX)
  rw [← hclasses] at hA
  have htype := getMessageType_eq hA
  refine ⟨A, hA, ⟨fun hinit => ?_, fun hcase => ?_⟩, ?_⟩
  · -- the message type is the argument as it stands, so that `X` is
    have hXA : X = A := (messageType_of_init hinit).trans htype
    subst hXA
    exact direct_or_closed hX hA
  · have hbind := binding_suffix hX hA hcase
    have hXA : X = A := by
      have hall := hbind c cs (hclasses ▸ List.suffix_refl _)
      rw [← hclasses, hX] at hall
      exact Option.some.inj hall
    subst hXA
    have hmethod := getMethodParameter_eq htype hsmart
    rw [hr, Option.bind_some, getMethod_eq hr hbind] at hmethod
    rw [init_of_getMethodParameter hmethod hcontext, htype]
  · rintro owner name rfl
    have hmethod : h.getMethodParameter L.messageConverter.smart =
        .error (ListenerHierarchy.notSupported (.typeVariable owner name)) :=
      getMethodParameter_eq htype fun hparameterized => nomatch hparameterized
    rw [AbstractRocketMQListener.init, hmethod]
    rfl

end Listener

/-- The listener of users, of the group `user`. -/
def userListener : AbstractRocketMQListener Unit String where
  className := "class com.ljt.study.rocketmq.spring.UserListener"
  annotation := some { consumerGroup := "user" }
  messageType := .cls "com.ljt.study.rocketmq.spring.TempUser"
  methodParameter := some { parameterClass := "com.ljt.study.rocketmq.spring.TempUser" }
  messageContext := none
  customProperties := {}
  resolveRequiredPlaceholders := .ok
  messageConverter := ⟨true, fun str _ _ => pure str⟩
  errorHandler := fun _ _ => pure ()
  messageProcessor := none
  decodeUtf8 := fun _ => ""
  ofString := id
  handleMessage := fun _ => pure ()

def tempUser : ReflectType := .cls "com.ljt.study.rocketmq.spring.TempUser"

/-- `UserListener` and a class between it and `AbstractRocketMQListener`, which has the type
parameters and gives the argument. -/
def userClasses (typeParameters : List String) (superArguments : List ReflectType) (argument : ReflectType) :
    List JavaClass :=
  [⟨"com.ljt.study.rocketmq.spring.UserListener", [], "com.ljt.study.rocketmq.spring.BaseListener", superArguments,
      some "com.ljt.study.rocketmq.spring.TempUser"⟩,
    ⟨"com.ljt.study.rocketmq.spring.BaseListener", typeParameters, abstractRocketMQListener, [argument], none⟩]

/-- These classes, where they are well formed and what is bound is `TempUser`. -/
def userHierarchy (typeParameters : List String) (superArguments : List ReflectType) (argument : ReflectType)
    (hscoped : ∀ c ∈ userClasses typeParameters superArguments argument, ∀ t ∈ c.superArguments, c.Scoped t)
    (hbinding : binding (userClasses typeParameters superArguments argument) = some tempUser) : ListenerHierarchy where
  classes := userClasses typeParameters superArguments argument
  linked := by simp [userClasses]
  top := ⟨_, rfl, rfl⟩
  distinct := by simp [userClasses, abstractRocketMQListener]
  inScope := hscoped
  overrides := by
    intro c cs hsuffix p hp r hr
    rcases List.suffix_cons_iff.1 hsuffix with heq | hsuffix
    · obtain ⟨rfl, rfl⟩ := List.cons_eq_cons.1 heq
      rw [userClasses] at hbinding
      rw [hbinding] at hr
      exact (Option.some.inj hp).symm.trans (Option.some.inj hr)
    · rcases List.suffix_cons_iff.1 hsuffix with heq | hnil
      · obtain ⟨rfl, rfl⟩ := List.cons_eq_cons.1 heq
        cases hp
      · cases List.suffix_nil.1 hnil
  implemented := ⟨_, List.mem_cons_self, rfl⟩

/-- The class between is `BaseListener extends AbstractRocketMQListener<TempUser>`. -/
theorem payloadType_resolved_between :
    userListener.init (userHierarchy [] [] tempUser
        (by simp [userClasses, JavaClass.Scoped, tempUser, ReflectType.allVariables]) rfl) =
      .ok ⟨tempUser, { parameterClass := "com.ljt.study.rocketmq.spring.TempUser" },
        ⟨some "user", some .clustering⟩⟩ := by
  obtain ⟨A, hA, hresolved, -⟩ := payloadType_resolved (L := userListener) (h := userHierarchy [] [] tempUser
    (by simp [userClasses, JavaClass.Scoped, tempUser, ReflectType.allVariables]) rfl) rfl rfl (fun _ => rfl) rfl
  obtain rfl : tempUser = A := Option.some.inj hA
  exact hresolved.2 (Or.inr rfl)

/-- The class between is `BaseListener<T> extends AbstractRocketMQListener<T>`: the listener of
`BaseListener<TempUser>` is refused. -/
theorem payloadType_forwarded :
    let argument := ReflectType.typeVariable "com.ljt.study.rocketmq.spring.BaseListener" "T"
    ∃ h : ListenerHierarchy, h.classes = userClasses ["T"] [tempUser] argument ∧ binding h.classes = some tempUser ∧
      userListener.init h =
        .error (runtimeException (some "parameterType:T of onMessage method is not supported")) :=
  ⟨userHierarchy ["T"] [tempUser] (.typeVariable "com.ljt.study.rocketmq.spring.BaseListener" "T")
    (by simp [userClasses, JavaClass.Scoped, tempUser, ReflectType.allVariables]) rfl, rfl, rfl, rfl⟩

end StudyTech
