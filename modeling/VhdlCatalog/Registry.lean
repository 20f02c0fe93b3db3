import VhdlCatalog.Declaration
import VhdlCatalog.Table

/-!
**Registries.**

A registry keeps implementations under names, so that one can be picked by its name.

Main definitions:

* `VhdlCatalog.Registry` — implementations by name, in the order in which they were registered;
* `VhdlCatalog.Registry.register`, `VhdlCatalog.Registry.get` — registering and picking one;
* `VhdlCatalog.Registry.create` — picking one and making something of it;
* `VhdlCatalog.RegistryError` — a name that is taken, unknown or reserved.
-/

set_option relaxedAutoImplicit false
set_option autoImplicit false

namespace VhdlCatalog

/-- Implementations by name. -/
structure Registry (α : Type) where
  /-- What is registered here, in words. -/
  name : String
  /-- The implementations, oldest first. -/
  items : Table String α

/-- Why a registry refuses. -/
inductive RegistryError where
  /-- The key is already used, by the implementation called `holder`. -/
  | taken (registry key holder : String)
  /-- The key is not one of those that are there. -/
  | unknown (registry key : String) (available : List String)
  /-- An option has a name that creating uses for itself. -/
  | reserved (option : String)
  deriving DecidableEq, Repr

namespace RegistryError

/-- The refusal in words. -/
def message : RegistryError → String
  | taken registry key holder =>
      registry ++ ": '" ++ key ++ "' is already taken by " ++ holder
  | unknown registry key available =>
      registry ++ ": unknown key '" ++ key ++ "'. Available: " ++ ", ".intercalate available
  | reserved option =>
      "Registry.create() got multiple values for argument '" ++ option ++ "'"

end RegistryError

namespace Registry

variable {α : Type}

/-- A registry without implementations. -/
def empty (name : String) : Registry α := ⟨name, .empty⟩

/-- The registry with one more implementation; `nameOf` says what an implementation is called. -/
def register (nameOf : α → String) (r : Registry α) (key : String) (item : α) :
    Except RegistryError (Registry α) :=
  match r.items.get? key with
  | some holder => .error (.taken r.name key (nameOf holder))
  | none => .ok { r with items := r.items.push key item }

/-- The implementation with the given key. -/
def get (r : Registry α) (key : String) : Except RegistryError α :=
  match r.items.get? key with
  | some item => .ok item
  | none => .error (.unknown r.name key (sortNames r.items.keys))

/-- The names that options of an implementation cannot have. -/
def reservedOptions : List String := ["self", "key"]

/-- What `make` makes of the implementation with the given key, when it is created with options of
the given names. -/
def create {β : Type} (r : Registry α) (key : String) (options : List String) (make : α → β) :
    Except RegistryError β :=
  match options.find? reservedOptions.contains with
  | some option => .error (.reserved option)
  | none => (r.get key).map make

/-- The keys, oldest first. -/
def keys (r : Registry α) : List String := r.items.keys

end Registry

end VhdlCatalog
