import Mathlib.Data.List.Nodup
import StudyTech.Spec.DynamicDataSource

/-!
# The keys and the data sources of `registerDynamicDataSource`

The name of a data source is the end of the url behind the last slash: the length of the url is
never below the position of the question mark, so what follows the mark stays (`dbName_eq`). A
property is bound to the bean that the factory had under its name, or else to the one made for the
first property of that name (`register_boundTo`).
-/

namespace StudyTech

open Lib

section Key

variable {url : String} {P D Q : String}

/-- The end of the url behind the last slash. -/
def behindLastSlash (url : String) : String := String.ofList (url.toList.rtakeWhile (· != '/'))

theorem dbName_eq (url : String) : dbName url = .ok (behindLastSlash url) := by
  have hmax : max (url.toList.length : ℤ) (indexOf url '?') = url.toList.length := by
    have hlt := indexOf_lt url '?'
    omega
  unfold dbName
  rw [hmax, substring_lastIndexOf]
  rfl

theorem beanName_of_url {prop : DataSourceProperties} (h : prop.url = some url) :
    prop.beanName = .ok (dynamicDataSourceKey (behindLastSlash url)) := by
  unfold DataSourceProperties.beanName
  rw [h]
  simp only [dbName_eq]
  rfl

theorem dynamicDataSourceKey_inj {s t : String} (h : dynamicDataSourceKey s = dynamicDataSourceKey t) : s = t := by
  unfold dynamicDataSourceKey at h
  have hlists := congrArg String.toList h
  simp only [String.toList_append] at hlists
  have hback := List.append_cancel_right hlists
  exact String.toList_inj.1 (List.append_cancel_left hback)

/-- Without a query the name is the database's. -/
theorem behindLastSlash_append (hD : '/' ∉ D.toList) : behindLastSlash (P ++ "/" ++ D) = D := by
  have hurl : (P ++ "/" ++ D).toList = P.toList ++ '/' :: D.toList := by simp
  unfold behindLastSlash
  rw [hurl, rtakeWhile_append_cons hD, String.ofList_toList]

/-- With a query it is the database's only if the query ends with it. -/
theorem behindLastSlash_query (hD : '/' ∉ D.toList) :
    behindLastSlash (P ++ "/" ++ D ++ "?" ++ Q) = D ↔ ∃ R, Q = R ++ "/" ++ D := by
  constructor
  · intro h
    by_cases hQ : '/' ∈ Q.toList
    · obtain ⟨pre, post, hsplit, hpost⟩ := exists_last hQ
      have hurl : (P ++ "/" ++ D ++ "?" ++ Q).toList =
          (P ++ "/" ++ D ++ "?").toList ++ pre ++ '/' :: post := by
        rw [String.toList_append, hsplit, List.append_assoc]
      have hD' : post = D.toList := by
        unfold behindLastSlash at h
        rw [hurl, rtakeWhile_append_cons hpost] at h
        rw [← h, String.toList_ofList]
      refine ⟨String.ofList pre, String.toList_inj.1 ?_⟩
      simp [hsplit, hD']
    · -- the name has the database's and the query, and is too long
      have hnot : '/' ∉ D.toList ++ '?' :: Q.toList := by
        intro hmem
        rcases List.mem_append.1 hmem with hD' | hQ'
        · exact hD hD'
        · rcases List.mem_cons.1 hQ' with heq | hQ'
          · exact absurd heq (by decide)
          · exact hQ hQ'
      have hurl : (P ++ "/" ++ D ++ "?" ++ Q).toList = P.toList ++ '/' :: (D.toList ++ '?' :: Q.toList) := by simp
      unfold behindLastSlash at h
      rw [hurl, rtakeWhile_append_cons hnot] at h
      have hlength := congrArg (fun s => s.toList.length) h
      simp at hlength
  · rintro ⟨R, rfl⟩
    have hurl : P ++ "/" ++ D ++ "?" ++ (R ++ "/" ++ D) = (P ++ "/" ++ D ++ "?" ++ R) ++ "/" ++ D := by
      simp only [String.append_assoc]
    rw [hurl, behindLastSlash_append hD]

end Key

section Register

variable {σ : Type} {env : DataSourceEnv σ} {beans beans' : BeanFactory σ} {dataSources dataSources' : DataSourceMap σ}
  {props : List DataSourceProperties}

/-- The key of a property, unless its url is null. -/
def DataSourceProperties.key (prop : DataSourceProperties) : Option String := prop.beanName.toOption

/-- What a key is bound to by the properties: the bean that was there, or the one made for the first
property with the key. -/
def DataSourceEnv.boundTo (env : DataSourceEnv σ) (beans : BeanFactory σ) (props : List DataSourceProperties)
    (key : String) : Option (BeanObject σ) :=
  match props.find? (·.key == some key) with
  | none => none
  | some prop =>
    match beans key with
    | some bean => bean.toOption
    | none => some (.dataSource (env.configured prop))

/-- `ensureBean` leaves a bean of the name: the one that was there, or a new one. -/
theorem ensureBean_ok {beanName : String} {prop : DataSourceProperties}
    (h : env.ensureBean beanName prop beans = (.ok (), beans')) :
    beans' = Function.update beans beanName
      (some ((beans beanName).getD (.ok (.dataSource (env.configured prop))))) := by
  unfold DataSourceEnv.ensureBean at h
  obtain ⟨contains, s, hcontains, h⟩ := Action.bind_eq_ok h
  cases hcontains
  cases hbean : beans beanName with
  | some bean =>
    rw [hbean] at h
    cases h
    rw [Option.getD_some, ← hbean, Function.update_eq_self]
  | none =>
    rw [hbean] at h
    obtain ⟨⟨⟩, s, hcopy, h⟩ := Action.bind_eq_ok h
    obtain ⟨⟨⟩, s', hinit, h⟩ := Action.bind_eq_ok h
    have hs : s = beans := (Prod.mk.inj hcopy).2.symm
    have hs' : s' = s := (Prod.mk.inj hinit).2.symm
    cases h
    rw [hs', hs]
    rfl

/-- One round of the loop: the key gets the bean of its name, unless it has one already. -/
theorem registerLoop_cons {prop : DataSourceProperties}
    (h : env.registerLoop dataSources (prop :: props) beans = (.ok dataSources', beans')) :
    ∃ key bean, prop.key = some key ∧
      (beans key).getD (.ok (.dataSource (env.configured prop))) = .ok bean ∧
      env.registerLoop (putIfAbsent dataSources key bean) props (Function.update beans key (some (.ok bean))) =
        (.ok dataSources', beans') := by
  unfold DataSourceEnv.registerLoop at h
  obtain ⟨key, s, hkey, h⟩ := Action.bind_eq_ok h
  obtain ⟨hname, hs⟩ := Prod.mk.inj hkey
  subst hs
  obtain ⟨⟨⟩, s, hensure, h⟩ := Action.bind_eq_ok h
  have hbeans := ensureBean_ok hensure
  obtain ⟨bean, s', hget, h⟩ := Action.bind_eq_ok h
  have hbean : s key = some ((beans key).getD (.ok (.dataSource (env.configured prop)))) := by
    rw [hbeans, Function.update_self]
  unfold getBean at hget
  rw [hbean] at hget
  obtain ⟨hfound, hs'⟩ := Prod.mk.inj hget
  subst hs'
  refine ⟨key, bean, ?_, hfound, ?_⟩
  · unfold DataSourceProperties.key
    rw [hname]
    rfl
  · rw [← hfound, ← hbeans]
    exact h

theorem putIfAbsent_eq (key k : String) (bean : BeanObject σ) :
    putIfAbsent dataSources key bean k = if k = key then (dataSources key).or (some bean) else dataSources k := by
  unfold putIfAbsent
  by_cases hk : k = key
  · subst hk
    cases h : dataSources k with
    | none => simp
    | some b => simp [h]
  · cases h : dataSources key with
    | none => simp [hk]
    | some b => simp [hk]

/-- **What the loop binds the keys to**: a key that is bound already stays as it is. -/
theorem registerLoop_boundTo (h : env.registerLoop dataSources props beans = (.ok dataSources', beans'))
    (key : String) :
    dataSources' key = (dataSources key).or (env.boundTo beans props key) := by
  induction props generalizing dataSources beans with
  | nil =>
    cases h
    simp [DataSourceEnv.boundTo]
  | cons prop props ih =>
    obtain ⟨first, bean, hfirst, hbean, hrest⟩ := registerLoop_cons h
    rw [ih hrest, putIfAbsent_eq]
    by_cases hkey : key = first
    · subst hkey
      have hbound : env.boundTo beans (prop :: props) key = some bean := by
        unfold DataSourceEnv.boundTo
        rw [List.find?_cons_of_pos (by simp [hfirst])]
        cases hfactory : beans key with
        | none =>
          rw [hfactory] at hbean
          cases hbean
          rfl
        | some found =>
          rw [hfactory, Option.getD_some] at hbean
          subst hbean
          rfl
      rw [if_pos rfl, hbound]
      cases dataSources key <;> simp
    · have hne : first ≠ key := fun h => hkey h.symm
      have hfind : (prop :: props).find? (·.key == some key) = props.find? (·.key == some key) :=
        List.find?_cons_of_neg (by simp [hfirst, hne])
      have hbound : env.boundTo (Function.update beans first (some (.ok bean))) props key =
          env.boundTo beans (prop :: props) key := by
        unfold DataSourceEnv.boundTo
        rw [hfind, Function.update_of_ne hkey]
      rw [if_neg hkey, hbound]

/-- **What the map has for each key.** -/
theorem register_boundTo (h : env.registerDynamicDataSource props beans = (.ok dataSources, beans')) (key : String) :
    dataSources key = env.boundTo beans props key := by
  rw [registerLoop_boundTo h key]
  rfl

/-- A run that returns has a key for every property. -/
theorem registerLoop_keys (h : env.registerLoop dataSources props beans = (.ok dataSources', beans')) :
    ∀ prop ∈ props, ∃ key, prop.key = some key ∧ ∀ bean, beans key = some bean → ∃ b, bean = .ok b := by
  induction props generalizing dataSources beans with
  | nil => exact fun prop hprop => absurd hprop List.not_mem_nil
  | cons first props ih =>
    obtain ⟨firstKey, bean, hfirst, hbean, hrest⟩ := registerLoop_cons h
    intro prop hprop
    rcases List.mem_cons.1 hprop with rfl | hmem
    · refine ⟨firstKey, hfirst, fun found hfound => ⟨bean, ?_⟩⟩
      rw [hfound] at hbean
      exact hbean
    · obtain ⟨key, hkey, hok⟩ := ih hrest prop hmem
      refine ⟨key, hkey, fun found hfound => ?_⟩
      by_cases heq : key = firstKey
      · subst heq
        rw [hfound] at hbean
        exact ⟨bean, hbean⟩
      · exact hok found (by rw [Function.update_of_ne heq, hfound])

/-- The map has the keys of the properties and no others. -/
theorem register_keys (h : env.registerDynamicDataSource props beans = (.ok dataSources, beans')) (key : String) :
    (dataSources key).isSome ↔ ∃ prop ∈ props, prop.key = some key := by
  rw [register_boundTo h]
  unfold DataSourceEnv.boundTo
  cases hfind : props.find? (·.key == some key) with
  | none =>
    rw [List.find?_eq_none] at hfind
    simpa using hfind
  | some prop =>
    have hmem : prop ∈ props := List.mem_of_find?_eq_some hfind
    have hkey : prop.key = some key := by simpa using List.find?_some hfind
    refine iff_of_true ?_ ⟨prop, hmem, hkey⟩
    cases hfactory : beans key with
    | none => rfl
    | some bean =>
      obtain ⟨key', hkey', hok⟩ := registerLoop_keys h prop hmem
      obtain rfl : key' = key := Option.some.inj (hkey'.symm.trans hkey)
      obtain ⟨b, rfl⟩ := hok bean hfactory
      rfl

/-- The data source is the property's: its url, and its user name and password where they are given. -/
def Serves (env : DataSourceEnv σ) (prop : DataSourceProperties) (ds : DruidDataSource σ) : Prop :=
  ds.url = prop.url ∧
    ds.username = (if isBlank prop.username then env.dataSource.username else prop.username) ∧
    ds.password = (if isBlank prop.password then env.dataSource.password else prop.password)

/-- Every property has a key of its own, which is bound to a data source of its own. -/
def EachServed (env : DataSourceEnv σ) (props : List DataSourceProperties) (dataSources : DataSourceMap σ) : Prop :=
  (props.map DataSourceProperties.key).Nodup ∧
    ∀ prop ∈ props, ∃ key ds, prop.key = some key ∧ dataSources key = some (.dataSource ds) ∧ Serves env prop ds

/-- Among properties with different keys, the first one with a key is the one with the key. -/
theorem find?_key {prop : DataSourceProperties} {key : String} (hnodup : (props.map DataSourceProperties.key).Nodup)
    (hmem : prop ∈ props) (hkey : prop.key = some key) : props.find? (·.key == some key) = some prop := by
  cases hfind : props.find? (·.key == some key) with
  | none =>
    rw [List.find?_eq_none] at hfind
    exact absurd (by simp [hkey]) (hfind prop hmem)
  | some found =>
    have hfound : found.key = some key := by simpa using List.find?_some hfind
    rw [List.inj_on_of_nodup_map hnodup (List.mem_of_find?_eq_some hfind) hmem (hfound.trans hkey.symm)]

/-- **What `registerDynamicDataSource` returns.** The map has the keys of the properties. A key is bound to
the bean that the factory had under it, or to a data source for the first property with the key. So every
property is served if and only if the keys are different and each is free, or the bean under it serves the
property. -/
theorem register_serves (h : env.registerDynamicDataSource props beans = (.ok dataSources, beans')) :
    (∀ key, (dataSources key).isSome ↔ ∃ prop ∈ props, prop.key = some key) ∧
    (∀ key, dataSources key = env.boundTo beans props key) ∧
    (EachServed env props dataSources ↔ (props.map DataSourceProperties.key).Nodup ∧
      ∀ prop ∈ props, ∀ key, prop.key = some key →
        beans key = none ∨ ∃ ds, beans key = some (.ok (.dataSource ds)) ∧ Serves env prop ds) := by
  refine ⟨register_keys h, register_boundTo h, ?_⟩
  unfold EachServed
  refine and_congr_right fun hnodup => forall_congr' fun prop => forall_congr' fun hmem => ?_
  obtain ⟨key, hkey, hok⟩ := registerLoop_keys h prop hmem
  have hbound : dataSources key = env.boundTo beans props key := register_boundTo h key
  unfold DataSourceEnv.boundTo at hbound
  rw [find?_key hnodup hmem hkey] at hbound
  constructor
  · rintro ⟨key', ds, hkey', hds, hserves⟩ key'' hkey''
    obtain rfl : key' = key := Option.some.inj (hkey'.symm.trans hkey)
    obtain rfl : key'' = key' := Option.some.inj (hkey''.symm.trans hkey)
    cases hfactory : beans key'' with
    | none => exact .inl rfl
    | some bean =>
      obtain ⟨b, rfl⟩ := hok bean hfactory
      rw [hfactory, hds] at hbound
      cases hbound
      exact .inr ⟨ds, rfl, hserves⟩
  · intro hfree
    rcases hfree key hkey with hnone | ⟨ds, hds, hserves⟩
    · rw [hnone] at hbound
      exact ⟨key, env.configured prop, hkey, hbound, rfl, rfl, rfl⟩
    · rw [hds] at hbound
      exact ⟨key, ds, hkey, hbound, hserves⟩

/-- **The keys of the data sources.** The map has the keys of the properties. For a url without a
query the key has the name of the database; for a url with a query it has it just where the query
ends with a slash and that name. -/
theorem registered_key {D : String} (hD : '/' ∉ D.toList) :
    (∀ P (prop : DataSourceProperties), prop.url = some (P ++ "/" ++ D) → prop.key = some (dynamicDataSourceKey D)) ∧
    (∀ P Q (prop : DataSourceProperties), prop.url = some (P ++ "/" ++ D ++ "?" ++ Q) →
      (prop.key = some (dynamicDataSourceKey D) ↔ ∃ R, Q = R ++ "/" ++ D)) ∧
    ∀ (env : DataSourceEnv σ) props beans dataSources beans',
      env.registerDynamicDataSource props beans = (.ok dataSources, beans') →
        ∀ key, (dataSources key).isSome ↔ ∃ prop ∈ props, prop.key = some key := by
  refine ⟨fun P prop hurl => ?_, fun P Q prop hurl => ?_, fun env props beans dataSources beans' h => register_keys h⟩
  · unfold DataSourceProperties.key
    rw [beanName_of_url hurl, behindLastSlash_append hD]
    rfl
  · rw [← behindLastSlash_query (P := P) hD]
    unfold DataSourceProperties.key
    rw [beanName_of_url hurl]
    constructor
    · intro hkey
      exact dynamicDataSourceKey_inj (Option.some.inj hkey)
    · intro hname
      rw [hname]
      rfl

end Register

/-- All data sources can be made. -/
def plainEnv : DataSourceEnv Unit where
  dataSource := ⟨some "jdbc:mysql://h/study", some "admin", some "secret", ()⟩
  copyProperties := .ok ()
  init := fun _ => .ok ()

/-- A property with a url only. -/
def withUrl (url : String) : DataSourceProperties := ⟨some url, none, none⟩

theorem registered_key_test : (withUrl "jdbc:mysql://h/test").key = some "DynamicDataSource[test]" ∧
    ∃ dataSources beans', plainEnv.registerDynamicDataSource [withUrl "jdbc:mysql://h/test"] (fun _ => none) =
      (.ok dataSources, beans') ∧ (dataSources "DynamicDataSource[test]").isSome := by
  obtain ⟨hkey, -, hkeys⟩ := registered_key (σ := Unit) (D := "test") (by decide)
  have htest : (withUrl "jdbc:mysql://h/test").key = some "DynamicDataSource[test]" :=
    hkey "jdbc:mysql://h" (withUrl "jdbc:mysql://h/test") rfl
  obtain ⟨dataSources, beans', hrun⟩ : ∃ dataSources beans', plainEnv.registerDynamicDataSource
      [withUrl "jdbc:mysql://h/test"] (fun _ => none) = (.ok dataSources, beans') := ⟨_, _, rfl⟩
  exact ⟨htest, dataSources, beans', hrun, (hkeys _ _ _ _ _ hrun _).2 ⟨_, List.mem_cons_self, htest⟩⟩

/-- **With a query in the url, the key of the database leads to the default data source.** -/
theorem query_in_key : ∃ dataSources beans',
    plainEnv.registerDynamicDataSource [withUrl "jdbc:mysql://h/test?useSSL=false"] (fun _ => none) =
      (.ok dataSources, beans') ∧
    (dataSources "DynamicDataSource[test?useSSL=false]").isSome ∧ dataSources "DynamicDataSource[test]" = none ∧
    ((⟨.dataSource plainEnv.dataSource, dataSources, none⟩ : DynamicDataSource Unit).set
      (some "DynamicDataSource[test]")).determineTargetDataSource = .dataSource plainEnv.dataSource :=
  ⟨_, _, rfl, by decide +kernel, by decide +kernel, by decide +kernel⟩

/-- Two databases of different names on one host are both served. -/
theorem register_serves_two : ∃ dataSources beans',
    plainEnv.registerDynamicDataSource [withUrl "jdbc:mysql://a/test", withUrl "jdbc:mysql://a/study"] (fun _ => none) =
      (.ok dataSources, beans') ∧
    EachServed plainEnv [withUrl "jdbc:mysql://a/test", withUrl "jdbc:mysql://a/study"] dataSources := by
  obtain ⟨dataSources, beans', hrun⟩ : ∃ dataSources beans', plainEnv.registerDynamicDataSource
      [withUrl "jdbc:mysql://a/test", withUrl "jdbc:mysql://a/study"] (fun _ => none) = (.ok dataSources, beans') :=
    ⟨_, _, rfl⟩
  refine ⟨dataSources, beans', hrun, (register_serves hrun).2.2.2 ⟨by decide +kernel, ?_⟩⟩
  exact fun _ _ _ _ => .inl rfl

/-- Two databases of one name on different hosts. -/
def twoHosts : List DataSourceProperties := [withUrl "jdbc:mysql://a/test", withUrl "jdbc:mysql://b/test"]

/-- **The second of the two databases has no data source.** -/
theorem register_drops : ∃ dataSources beans',
    plainEnv.registerDynamicDataSource twoHosts (fun _ => none) = (.ok dataSources, beans') ∧
    twoHosts.Pairwise (fun p q => p.url ≠ q.url) ∧
    (withUrl "jdbc:mysql://b/test").key = some "DynamicDataSource[test]" ∧
    dataSources "DynamicDataSource[test]" =
      some (.dataSource (plainEnv.configured (withUrl "jdbc:mysql://a/test"))) ∧
    ¬ EachServed plainEnv twoHosts dataSources := by
  have hfirst : ((plainEnv.registerDynamicDataSource twoHosts fun _ => none).1.toOption.bind
      (· "DynamicDataSource[test]")) = some (.dataSource (plainEnv.configured (withUrl "jdbc:mysql://a/test"))) := by
    decide +kernel
  rcases hrun : plainEnv.registerDynamicDataSource twoHosts fun _ => none with ⟨e | dataSources, beans'⟩
  · rw [hrun] at hfirst
    cases hfirst
  · rw [hrun] at hfirst
    refine ⟨dataSources, beans', rfl, by decide +kernel, by decide +kernel, hfirst, fun h => ?_⟩
    exact absurd h.1 (by decide +kernel)

end StudyTech
