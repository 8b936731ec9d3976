import Mathlib.Data.Int.Notation
import Mathlib.Data.Nat.Notation
import Mathlib.Tactic.Common

/-!
# Messages, contexts and configuration of the RocketMQ listeners
-/

namespace StudyTech

/-- A Java exception: its class and what `getMessage` returns (`null` is `none`). -/
structure JavaException where
  className : String
  message : Option String
  deriving DecidableEq, Repr

def runtimeException (message : Option String) : JavaException :=
  ⟨"java.lang.RuntimeException", message⟩

inductive MessageModel
  | broadcasting
  | clustering
  deriving DecidableEq, Repr

/-- `MessageExt`, as far as the listener reads it. -/
structure MessageExt where
  topic : String
  msgId : String
  body : List UInt8
  reconsumeTimes : ℤ
  deriving DecidableEq, Repr

/-- `MessageContext`; a field that is `null` is `none`. -/
structure MessageContext where
  consumerGroup : Option String
  messageModel : Option MessageModel
  deriving DecidableEq, Repr

/-- The `@RocketMQMessageListener` annotation. -/
structure RocketMQMessageListener where
  consumerGroup : String
  messageModel : MessageModel := .clustering
  maxReconsumeTimes : ℤ := -1
  deriving DecidableEq, Repr

/-- `rocketmq.custom`, with its defaults. -/
structure RocketMQCustomProperties where
  repeatPrefix : String := "rocketmq:repeat"
  repeatCacheTime : ℤ := 3600
  maxReconsumeTimes : ℤ := 2
  suspendCurrentQueueTimeMillis : ℤ := 2000
  delayLevelWhenNextConsume : ℤ := 2
  deriving DecidableEq, Repr

/-- A `java.lang.reflect.Type`, as far as a payload type can be one. -/
inductive JavaType
  | cls (name : String)
  | parameterized (raw : String) (arguments : List JavaType)
  | typeVariable (name : String)
  deriving Repr

mutual

/-- `Type.getTypeName`. -/
def JavaType.typeName : JavaType → String
  | .cls name => name
  | .parameterized raw arguments => raw ++ "<" ++ ", ".intercalate (JavaType.typeNames arguments) ++ ">"
  | .typeVariable name => name

def JavaType.typeNames : List JavaType → List String
  | [] => []
  | t :: ts => t.typeName :: JavaType.typeNames ts

end

/-- `Type.toString`: a class says that it is one. -/
def JavaType.toString : JavaType → String
  | .cls name => "class " ++ name
  | t => t.typeName

/-- `Objects.equals(type, String.class)`. -/
def JavaType.isStringClass : JavaType → Bool
  | .cls name => name == "java.lang.String"
  | _ => false

/-- The parameter of the `handleMessage` method that takes a class. -/
structure MethodParameter where
  parameterClass : String
  parameterIndex : ℕ := 0
  deriving DecidableEq, Repr

end StudyTech
