import Mathlib.Logic.Function.Basic
import StudyTech.Lib.Action
import StudyTech.Lib.StringIndex
import StudyTech.Spec.Message
import StudyTech.Spec.StringUtils

/-!
# `DynamicDataSourceConfig`

`registerDynamicDataSource` puts a data source into the bean factory for each of the configured
properties, under a name with the database's name in it, and collects them in a map. Of the bean
factory the sources use which names are there and what `getBean` ends with; what else is copied
from the default data source is not looked into.
-/

namespace StudyTech

open Lib

/-- `DataSourceProperties`, as far as it is read. -/
structure DataSourceProperties where
  url : Option String
  username : Option String
  password : Option String
  deriving DecidableEq, Repr

/-- `DruidDataSourceWrapper`; `rest` are its other properties. -/
structure DruidDataSource (σ : Type) where
  url : Option String
  username : Option String
  password : Option String
  rest : σ
  deriving DecidableEq, Repr

/-- What `getBean` returns: a data source or any other object. -/
inductive BeanObject (σ : Type)
  | dataSource (ds : DruidDataSource σ)
  | other (className : String)
  deriving DecidableEq, Repr

/-- The names in the bean factory, with what `getBean` ends with. -/
abbrev BeanFactory (σ : Type) := String → Option (Except JavaException (BeanObject σ))

abbrev BeanAct (σ α : Type) := Action JavaException (BeanFactory σ) α

/-- `Map<Object, Object>`. -/
abbrev DataSourceMap (σ : Type) := String → Option (BeanObject σ)

/-- What comes from outside: the properties of the default data source, how copying them ends
(`BeanUtils.copyProperties`), and how `init` ends. -/
structure DataSourceEnv (σ : Type) where
  dataSource : DruidDataSource σ
  copyProperties : Except JavaException Unit
  init : DruidDataSource σ → Except JavaException Unit

/-- `StringIndexOutOfBoundsException` in place of no string. -/
def orOutOfBounds : Option String → Except JavaException String
  | some s => .ok s
  | none => .error ⟨"java.lang.StringIndexOutOfBoundsException", none⟩

/-- The name of the database, cut out of the url. -/
def dbName (url : String) : Except JavaException String :=
  orOutOfBounds (substringOf url (lastIndexOf url '/' + 1) (max url.toList.length (indexOf url '?')))

def dynamicDataSourceKey (dbName : String) : String := "DynamicDataSource[" ++ dbName ++ "]"

/-- The name of the bean; `getUrl` may return `null`. -/
def DataSourceProperties.beanName (prop : DataSourceProperties) : Except JavaException String :=
  match prop.url with
  | none => .error ⟨"java.lang.NullPointerException", none⟩
  | some url => (dbName url).map dynamicDataSourceKey

/-- What ends without a look at the beans. -/
def ofExcept {σ α : Type} (x : Except JavaException α) : BeanAct σ α := fun beans => (x, beans)

def containsBean {σ : Type} (beanName : String) : BeanAct σ Bool := fun beans => (.ok (beans beanName).isSome, beans)

def registerSingleton {σ : Type} (beanName : String) (ds : DruidDataSource σ) : BeanAct σ Unit := fun beans =>
  (.ok (), Function.update beans beanName (some (.ok (.dataSource ds))))

def getBean {σ : Type} (beanName : String) : BeanAct σ (BeanObject σ) := fun beans =>
  match beans beanName with
  | some bean => (bean, beans)
  | none => (.error ⟨"org.springframework.beans.factory.NoSuchBeanDefinitionException", none⟩, beans)

def putIfAbsent {σ : Type} (dataSources : DataSourceMap σ) (key : String) (bean : BeanObject σ) : DataSourceMap σ :=
  match dataSources key with
  | some _ => dataSources
  | none => Function.update dataSources key (some bean)

namespace DataSourceEnv

variable {σ : Type} (env : DataSourceEnv σ)

/-- A copy of the default data source with what the properties set. -/
def configured (prop : DataSourceProperties) : DruidDataSource σ :=
  { env.dataSource with
    url := prop.url
    username := if isBlank prop.username then env.dataSource.username else prop.username
    password := if isBlank prop.password then env.dataSource.password else prop.password }

/-- Register the bean of a property, unless there is one of the name. -/
def ensureBean (beanName : String) (prop : DataSourceProperties) : BeanAct σ Unit := do
  if ← containsBean beanName then pure ()
  else do
    ofExcept env.copyProperties
    ofExcept (env.init (env.configured prop))
    registerSingleton beanName (env.configured prop)

/-- The loop of `registerDynamicDataSource`. -/
def registerLoop (dataSources : DataSourceMap σ) : List DataSourceProperties → BeanAct σ (DataSourceMap σ)
  | [] => pure dataSources
  | prop :: props => do
    let beanName ← ofExcept prop.beanName
    env.ensureBean beanName prop
    let bean ← getBean beanName
    registerLoop (putIfAbsent dataSources beanName bean) props

def registerDynamicDataSource (props : List DataSourceProperties) : BeanAct σ (DataSourceMap σ) :=
  env.registerLoop (fun _ => none) props

end DataSourceEnv

/-- `DynamicDataSource`, with the key that the thread has set; `AbstractRoutingDataSource` goes to
the default data source where the map has no entry for the key. -/
structure DynamicDataSource (σ : Type) where
  defaultTargetDataSource : BeanObject σ
  targetDataSources : DataSourceMap σ
  contextHolder : Option String := none

namespace DynamicDataSource

variable {σ : Type}

/-- `set`; `null` removes the key. -/
def set (d : DynamicDataSource σ) (dataSource : Option String) : DynamicDataSource σ :=
  { d with contextHolder := dataSource }

def determineCurrentLookupKey (d : DynamicDataSource σ) : Option String := d.contextHolder

def determineTargetDataSource (d : DynamicDataSource σ) : BeanObject σ :=
  (d.determineCurrentLookupKey.bind d.targetDataSources).getD d.defaultTargetDataSource

end DynamicDataSource

end StudyTech
