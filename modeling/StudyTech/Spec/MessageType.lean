import StudyTech.Spec.Listener

/-!
# `init`: the payload type of a listener

`getMessageType` looks for the class that extends `AbstractRocketMQListener` directly and takes
the first type argument that it gives, as reflection has it. `binding` is what the language makes
of the type parameter of `AbstractRocketMQListener` for the class of the listener, by
substitution along the chain of its superclasses.
-/

namespace StudyTech

/-- A `java.lang.reflect.Type`. A type variable has the class that declares it. An array is a
class where its component is one. -/
inductive ReflectType
  | cls (name : String)
  | parameterized (raw : String) (arguments : List ReflectType)
  | typeVariable (owner name : String)
  | array (component : ReflectType)
  | wildcard (upper lower : List ReflectType)
  deriving Repr

namespace ReflectType

mutual

/-- `Type.getTypeName`. -/
def typeName : ReflectType → String
  | .cls name => name
  | .parameterized raw arguments => raw ++ "<" ++ ", ".intercalate (typeNames arguments) ++ ">"
  | .typeVariable _ name => name
  | .array component => component.typeName ++ "[]"
  | .wildcard upper lower =>
    match typeNames upper, typeNames lower with
    | _, l :: ls => "? super " ++ " & ".intercalate (l :: ls)
    | u :: us, [] => "? extends " ++ " & ".intercalate (u :: us)
    | [], [] => "?"

def typeNames : List ReflectType → List String
  | [] => []
  | t :: ts => t.typeName :: typeNames ts

end

/-- The name of the class, where the type is a `Class`. -/
def asClass : ReflectType → Option String
  | .cls name => some name
  | .array component =>
    component.asClass.map fun name => if name.startsWith "[" then "[" ++ name else "[L" ++ name ++ ";"
  | _ => none

/-- The class that a value of the type has at run time, where the type is a class or a
parameterized type. -/
def rawClass : ReflectType → Option String
  | .parameterized raw _ => some raw
  | t => t.asClass

def isParameterized : ReflectType → Bool
  | .parameterized _ _ => true
  | _ => false

/-- `Type.toString`: a class says that it is one. -/
def toString (t : ReflectType) : String :=
  match t.asClass with
  | some name => "class " ++ name
  | none => t.typeName

mutual

/-- All type variables in the type satisfy `p`. -/
def allVariables (p : String → String → Bool) : ReflectType → Bool
  | .cls _ => true
  | .parameterized _ arguments => allVariablesOf p arguments
  | .typeVariable owner name => p owner name
  | .array component => component.allVariables p
  | .wildcard upper lower => allVariablesOf p upper && allVariablesOf p lower

def allVariablesOf (p : String → String → Bool) : List ReflectType → Bool
  | [] => true
  | t :: ts => t.allVariables p && allVariablesOf p ts

end

/-- The type mentions no type variable. -/
def isClosed (t : ReflectType) : Bool := t.allVariables fun _ _ => false

mutual

/-- The type with the type variables that `f` knows replaced. -/
def subst (f : String → String → Option ReflectType) : ReflectType → ReflectType
  | .cls name => .cls name
  | .parameterized raw arguments => .parameterized raw (substAll f arguments)
  | .typeVariable owner name => (f owner name).getD (.typeVariable owner name)
  | .array component => .array (component.subst f)
  | .wildcard upper lower => .wildcard (substAll f upper) (substAll f lower)

def substAll (f : String → String → Option ReflectType) : List ReflectType → List ReflectType
  | [] => []
  | t :: ts => t.subst f :: substAll f ts

end

end ReflectType

/-- A class: its type parameters, its superclass with the type arguments that it gives, none if
that is not generic or is used raw, and the class of the parameter of the `handleMessage` that it
declares, if it does. -/
structure JavaClass where
  name : String
  typeParameters : List String
  superclass : String
  superArguments : List ReflectType
  handleMessage : Option String

def abstractRocketMQListener : String := "com.ljt.study.rocketmq.core.AbstractRocketMQListener"

/-- What the type parameters of a class stand for where it is given the arguments. -/
def JavaClass.bind (d : JavaClass) (arguments : List ReflectType) (owner name : String) : Option ReflectType :=
  if owner = d.name then (d.typeParameters.zip arguments).lookup name else none

/-- The type variables in the type are parameters of the class. -/
def JavaClass.Scoped (c : JavaClass) (t : ReflectType) : Prop :=
  t.allVariables (fun owner name => owner == c.name && c.typeParameters.contains name) = true

/-- What the type parameter of `AbstractRocketMQListener` stands for in the first class of a
chain; nothing where a class of it is used raw. -/
def binding : List JavaClass → Option ReflectType
  | [] => none
  | [c] => c.superArguments.head?
  | c :: d :: cs =>
    if c.superArguments.length = d.typeParameters.length then
      (binding (d :: cs)).map fun t => t.subst (d.bind c.superArguments)
    else none

/-- The class of a listener and its superclasses up to `AbstractRocketMQListener`, as the compiler
admits them. A `handleMessage` takes what the parameter stands for in its class, and some class
of the chain declares one. -/
structure ListenerHierarchy where
  classes : List JavaClass
  linked : classes.IsChain fun c d => c.superclass = d.name
  top : ∃ c, classes.getLast? = some c ∧ c.superclass = abstractRocketMQListener
  distinct : (abstractRocketMQListener :: classes.map (·.name)).Nodup
  inScope : ∀ c ∈ classes, ∀ t ∈ c.superArguments, c.Scoped t
  overrides : ∀ c cs, c :: cs <:+ classes → ∀ p ∈ c.handleMessage, ∀ r ∈ (binding (c :: cs)).bind (·.rawClass), p = r
  implemented : ∃ c ∈ classes, c.handleMessage.isSome = true

/-- What `init` sets. -/
structure ListenerFields where
  messageType : ReflectType
  methodParameter : MethodParameter
  messageContext : MessageContext

namespace ListenerHierarchy

variable (h : ListenerHierarchy)

/-- The loop of `getMessageType`: the type arguments that are given to
`AbstractRocketMQListener`. Its own superclass is `Object`. -/
def actualTypeArguments : List JavaClass → Option (List ReflectType)
  | [] => none
  | clazz :: superclasses =>
    if clazz.superArguments ≠ [] ∧ clazz.superclass = abstractRocketMQListener then some clazz.superArguments
    else actualTypeArguments superclasses

def getMessageType : ReflectType :=
  match actualTypeArguments h.classes with
  | none => .cls "java.lang.Object"
  | some arguments => arguments.headD (.cls "java.lang.Object")

/-- `getClass().getMethod("handleMessage", clazz)`; `AbstractRocketMQListener` has the method for
`Object`. -/
def getMethod (clazz : String) : Option MethodParameter :=
  if clazz = "java.lang.Object" ∨ ∃ c ∈ h.classes, c.handleMessage = some clazz then some { parameterClass := clazz }
  else none

/-- `new RuntimeException("parameterType:" + type + …)`. -/
def notSupported (type : ReflectType) : JavaException :=
  runtimeException (some ("parameterType:" ++ type.toString ++ " of onMessage method is not supported"))

def getMethodParameter (smart : Bool) : Except JavaException MethodParameter :=
  let type := h.getMessageType
  let clazz := if type.isParameterized && smart then type.rawClass else type.asClass
  match clazz with
  | none => .error (notSupported type)
  | some clazz =>
    match h.getMethod clazz with
    | some methodParameter => .ok methodParameter
    | none => .error (notSupported type)

end ListenerHierarchy

/-- `init` of a listener whose class has these superclasses. -/
def AbstractRocketMQListener.init {σ P : Type} (L : AbstractRocketMQListener σ P) (h : ListenerHierarchy) :
    Except JavaException ListenerFields := do
  let methodParameter ← h.getMethodParameter L.messageConverter.smart
  let messageContext ← L.getMessageContext
  return ⟨h.getMessageType, methodParameter, messageContext⟩

end StudyTech
