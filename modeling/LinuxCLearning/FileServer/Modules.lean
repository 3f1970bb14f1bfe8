import LinuxCLearning.Base.Bytes
import LinuxCLearning.Base.Machine

/-! The module manager of the file server: plugins opened with `dlopen` in an array whose
front part is in use, with the last one moved into the place of one that is unloaded. -/

namespace LinuxCLearning.FileServer

open Machine

/-- `MAX_MODULES`. -/
def maxModules : Nat := 16

/-- `module_t`; of the function pointers, whether they were found. -/
structure Module where
  name : CharArray 64
  path : CharArray 256
  handle : Nat
  init : Bool
  cleanup : Bool
  onCommand : Bool
  loaded : Bool
  deriving DecidableEq

/-- A module of zeros. -/
def Module.blank : Module := ⟨.ofBytes 64 [], .ofBytes 256 [], 0, false, false, false, false⟩

/-- What `strcmp` finds in `name`. -/
def Module.storedName (entry : Module) : CString := .ofBuffer entry.name.bytes

/-- `module_manager_t`, with the handles that `dlopen` returned and `dlclose` was called
with so far. -/
structure ModuleManager where
  modules : List Module
  full : modules.length = maxModules
  count : Nat
  dlopened : List Nat
  dlclosed : List Nat

/-- What `dlopen`, the `dlsym` calls and the module's `init` return. -/
structure LoadOutcome where
  handle : Option Nat
  init : Option Int
  cleanup : Bool
  onCommand : Bool

/-- The calls of the module manager; a null argument is `none`. -/
inductive ModuleCall where
  | load (name path : Option CString) (outcome : LoadOutcome)
  | unload (name : Option CString)
  | unloadAll

/-- The module that `module_load` fills in before it calls `init`. -/
def filledModule (name path : CString) (handle : Nat) (outcome : LoadOutcome) : Module where
  name := .strncpy 64 name.bytes
  path := .strncpy 256 path.bytes
  handle := handle
  init := outcome.init.isSome
  cleanup := outcome.cleanup
  onCommand := outcome.onCommand
  loaded := false

namespace ModuleManager

/-- `module_manager_init`. -/
def init : ModuleManager where
  modules := List.replicate maxModules .blank
  full := List.length_replicate
  count := 0
  dlopened := []
  dlclosed := []

def setModule (manager : ModuleManager) (index : Nat) (entry : Module) : ModuleManager :=
  { manager with
    modules := manager.modules.set index entry
    full := (List.length_set ..).trans manager.full }

/-- The part of the array in use. -/
def inUse (manager : ModuleManager) : List Module := manager.modules.take manager.count

/-- The search of `module_load` and `module_unload`. -/
def find (manager : ModuleManager) (name : CString) : Option Nat :=
  manager.inUse.findIdx? fun entry => entry.loaded && decide (entry.storedName = name)

/-- `module_load`. -/
def moduleLoad (manager : ModuleManager) (name path : Option CString) (outcome : LoadOutcome) :
    Int × ModuleManager :=
  match name, path with
  | some name, some path =>
    if manager.count ≥ maxModules then (-1, manager)
    else if (manager.find name).isSome then (-1, manager)
    else
      match outcome.handle with
      | none => (-1, manager)
      | some handle =>
        let opened := { manager with dlopened := manager.dlopened ++ [handle] }
        let filled := filledModule name path handle outcome
        if outcome.init.getD 0 ≠ 0 then
          (-1,
            { opened.setModule manager.count filled with dlclosed := manager.dlclosed ++ [handle] })
        else
          (0, { opened.setModule manager.count { filled with loaded := true } with
            count := manager.count + 1 })
  | _, _ => (-1, manager)

/-- `module_unload` at the place that was found. -/
def unloadAt (manager : ModuleManager) (index : Nat) : ModuleManager :=
  let entry := manager.modules.getD index .blank
  let closed := { manager.setModule index { entry with loaded := false } with
    dlclosed := manager.dlclosed ++ [entry.handle] }
  let compacted :=
    if index < manager.count - 1 then
      (closed.setModule index (closed.modules.getD (manager.count - 1) .blank)).setModule
        (manager.count - 1) .blank
    else closed
  { compacted with count := manager.count - 1 }

/-- `module_unload`. -/
def moduleUnload (manager : ModuleManager) (name : Option CString) : Int × ModuleManager :=
  match name with
  | some name =>
    match manager.find name with
    | some index => (0, manager.unloadAt index)
    | none => (-1, manager)
  | none => (-1, manager)

/-- The loop of `module_unload_all` from a place down. -/
def unloadDown : Nat → ModuleManager → ModuleManager
  | 0, manager => manager
  | index + 1, manager =>
    let entry := manager.modules.getD index .blank
    unloadDown index
      (if entry.loaded then
        { manager.setModule index { entry with loaded := false } with
          dlclosed := manager.dlclosed ++ [entry.handle] }
      else manager)

/-- `module_unload_all`. -/
def moduleUnloadAll (manager : ModuleManager) : ModuleManager :=
  { unloadDown manager.count manager with count := 0 }

/-- One call and what it returns; `module_unload_all` returns nothing. -/
def call (manager : ModuleManager) : ModuleCall → Int × ModuleManager
  | .load name path outcome => manager.moduleLoad name path outcome
  | .unload name => manager.moduleUnload name
  | .unloadAll => (0, manager.moduleUnloadAll)

end ModuleManager

end LinuxCLearning.FileServer
