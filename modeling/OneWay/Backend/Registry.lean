import OneWay.Backend.Simulator

/-!
# Backends by name

A registry knows simulators by name, each with default settings that apply where a request gives
none.
-/

namespace OneWay

/-- The default settings of the backends that are known, by name. -/
structure Registry where
  entries : SortedMap String (SortedMap String Json) := ∅
  deriving Inhabited

namespace Registry

/-- Makes a backend known under a name; a later registration replaces an earlier one. -/
def register (r : Registry) (name : String) (defaults : SortedMap String Json := ∅) : Registry :=
  ⟨r.entries.insert name defaults⟩

/-- The names in order. -/
def names (r : Registry) : List String := r.entries.keys

/-- Whether a name is known. -/
def contains (r : Registry) (name : String) : Bool := r.entries.contains name

/-- The backend that settings name, on a machine. -/
def create {σ : Type} (r : Registry) (machine : Machine σ) (config : BackendConfig) :
    Except BackendFault (Simulator σ) :=
  match r.entries.get? config.name with
  | some defaults => Simulator.ofConfig machine (config.withDefaults defaults)
  | none =>
    let known := ", ".intercalate r.names
    .error (.unavailable s!"unknown backend '{config.name}' (known: {known})")

end Registry

end OneWay
