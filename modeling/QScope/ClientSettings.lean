import QScope.Texts

/-! # Client settings: the two switches of the server and what a client may send for them -/
namespace QScope

structure Settings where
  debug : Bool
  linting : Bool
deriving DecidableEq

/-- A value that a client sends as its settings, as far as it can matter. -/
inductive Payload
  | flag (value : Bool)
  | group (members : List (Text × Payload))
  | other

namespace Payload

/-- Only a literal true switches a setting on. -/
def isOn (members : List (Text × Payload)) (key : String) : Bool :=
  match members.lookup key.toList with
  | some (flag true) => true
  | _ => false

/-- The settings in the `kdb` group of a payload, if there is one. -/
def settings? : Payload → Option Settings
  | group members =>
    match members.lookup "kdb".toList with
    | some (group kdb) => some ⟨isOn kdb "debug_parser",isOn kdb "linting"⟩
    | _ => none
  | flag _ | other => none

/-- The settings after a payload arrives; one without the group changes nothing. -/
def applyTo (p : Payload) (current : Settings) : Settings := p.settings?.getD current

/-- The settings after each of a sequence of payloads. -/
def applyAll (current : Settings) : List Payload → List Settings
  | [] => []
  | p :: ps => p.applyTo current :: applyAll (p.applyTo current) ps

end Payload
end QScope
