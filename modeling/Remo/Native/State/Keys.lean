import Remo.Native.Loop.LoopStates
import Remo.Native.Permission.Policy

/-!
# The commutative state keys

The keys of the permission extension and of the agent loop that are declared with
`MergeStrategy::Commutative`.
-/

namespace Remo

inductive CommutativeKey where
  | permissionPolicyKey
  | permissionOverridesKey
  | toolCallStates
  | contextMessageStore
  | toolFilterState
  | inferenceOverrideState
deriving Repr, DecidableEq

namespace CommutativeKey

/-- `StateKey::KEY`. -/
def key : CommutativeKey → String
  | permissionPolicyKey => "permission_policy"
  | permissionOverridesKey => "permission_overrides"
  | toolCallStates => "__runtime.tool_call_states"
  | contextMessageStore => "__runtime.context_message_store"
  | toolFilterState => "__runtime.tool_filter_state"
  | inferenceOverrideState => "__runtime.inference_override_state"

/-- `StateKey::Value`. -/
def Value (engine : PatternEngine) : CommutativeKey → Type
  | permissionPolicyKey => PermissionPolicy engine
  | permissionOverridesKey => PermissionOverrides engine
  | toolCallStates => ToolCallStateMap
  | contextMessageStore => ContextMessageStoreValue
  | toolFilterState => ToolFilterStateValue
  | inferenceOverrideState => InferenceOverrideStateValue

/-- `StateKey::Update`. -/
def Update : CommutativeKey → Type
  | permissionPolicyKey => PermissionAction
  | permissionOverridesKey => PermissionAction
  | toolCallStates => ToolCallStatesUpdate
  | contextMessageStore => ContextMessageAction
  | toolFilterState => ToolFilterStateAction
  | inferenceOverrideState => InferenceOverrideStateAction

/-- `Default` of the values. -/
def default (engine : PatternEngine) : (K : CommutativeKey) → K.Value engine
  | permissionPolicyKey => PermissionPolicy.default
  | permissionOverridesKey => PermissionOverrides.default
  | toolCallStates => ToolCallStateMap.default
  | contextMessageStore => ContextMessageStoreValue.default
  | toolFilterState => ToolFilterStateValue.default
  | inferenceOverrideState => InferenceOverrideStateValue.default

/-- `StateKey::apply`. -/
def apply {engine : PatternEngine} : (K : CommutativeKey) → K.Value engine → K.Update →
    K.Value engine
  | permissionPolicyKey, value, action => PermissionPolicy.reduce value action
  | permissionOverridesKey, value, action => PermissionOverrides.reduce value action
  | toolCallStates, value, update => ToolCallStateMap.apply value update
  | contextMessageStore, value, action => ContextMessageStoreValue.apply value action
  | toolFilterState, value, action => ToolFilterStateValue.apply value action
  | inferenceOverrideState, value, action => InferenceOverrideStateValue.apply value action

end CommutativeKey

def commutativeKeys (engine : PatternEngine) : StateKeys where
  Key := CommutativeKey
  decEq := inferInstance
  key := CommutativeKey.key
  merge _ := .commutative
  Value K := K.Value engine
  Update K := K.Update
  default := CommutativeKey.default engine
  apply K := K.apply

end Remo
