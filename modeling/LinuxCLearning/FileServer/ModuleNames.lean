import LinuxCLearning.FileServer.ModulesInvariant

/-! The module manager as a set of names. A module is found by the name that fits into
`name[64]`, so the manager is the set of the callers' names as long as these fit. -/

namespace LinuxCLearning.FileServer

open Machine

/-- A call with a library that opens and an `init`, if there is one, that returns 0. -/
inductive NameCall where
  | load (name path : CString) (handle : Nat) (hasInit cleanup onCommand : Bool)
  | unload (name : CString)

def NameCall.name : NameCall → CString
  | .load name _ _ _ _ _ => name
  | .unload name => name

/-- The call of the module manager. -/
def NameCall.call : NameCall → ModuleCall
  | .load name path handle hasInit cleanup onCommand =>
    .load (some name) (some path) ⟨some handle, if hasInit then some 0
      else none, cleanup, onCommand⟩
  | .unload name => .unload (some name)

def ModuleManager.callNamed (manager : ModuleManager) (call : NameCall) : Int × ModuleManager :=
  manager.call call.call

/-- A bounded set of names with the replies that its keys ask for. -/
def nameSetCall (names : Finset CString) : NameCall → Int × Finset CString
  | .load name _ _ _ _ _ =>
    if names.card ≥ maxModules ∨ name ∈ names then (-1, names) else (0, insert name names)
  | .unload name => if name ∈ names then (0, names.erase name) else (-1, names)

/-- The name that a module keeps are the first 63 bytes of the caller's. -/
theorem filledModule_storedName (name path : CString) (handle : Nat) (outcome : LoadOutcome) :
    (filledModule name path handle outcome).storedName.bytes = name.bytes.take 63 := by
  have nulFree : (0 : UInt8) ∉ name.bytes.take 63 :=
    fun member => name.nulFree (List.mem_of_mem_take member)
  have cut : CharArray.strncpy 64 name.bytes = CharArray.strncpy 64 (name.bytes.take 63) := by
    rw [CharArray.strncpy, CharArray.strncpy, List.take_take]
    rfl
  have short : CString.length ⟨name.bytes.take 63, nulFree⟩ < 64 := by
    have length := List.length_take_le 63 name.bytes
    simp only [CString.length]
    omega
  have read := CharArray.strncpy_string ⟨name.bytes.take 63, nulFree⟩ short []
  rw [List.append_nil] at read
  simp only [Module.storedName, filledModule, cut, read]

namespace ModuleManager
variable {manager : ModuleManager} {names : Finset CString}

/-- The names of the modules in use. -/
def storedNames (manager : ModuleManager) : List CString := manager.inUse.map Module.storedName

theorem Sound.inUse_length (sound : manager.Sound) : manager.inUse.length = manager.count := by
  rw [inUse, List.length_take, manager.full]
  exact Nat.min_eq_left sound.bounded

theorem Sound.inUse_loaded (sound : manager.Sound) {entry : Module}
    (member : entry ∈ manager.inUse) :
    entry.loaded = true := by
  obtain ⟨index, inside, rfl⟩ := List.mem_iff_getElem.mp member
  have used : index < manager.count := by rwa [sound.inUse_length] at inside
  have present : manager.modules[index]? = some manager.inUse[index] := by
    simp only [inUse, List.getElem_take]
    exact List.getElem?_eq_getElem _
  exact (sound.loadedFront index _ present).mpr used

theorem Sound.find_eq_none (sound : manager.Sound) {name : CString} :
    manager.find name = none ↔ name ∉ manager.storedNames := by
  rw [find, List.findIdx?_eq_none_iff, storedNames, List.mem_map, not_exists]
  constructor
  · intro missing entry ⟨member, stored⟩
    have absent := missing entry member
    simp [sound.inUse_loaded member, stored] at absent
  · intro missing entry member
    have different : entry.storedName ≠ name := fun stored => missing entry ⟨member, stored⟩
    simp [different]

theorem find_storedName {name : CString} {index : Nat} (found : manager.find name = some index) :
    (manager.modules.getD index .blank).storedName = name := by
  obtain ⟨inside, matching, -⟩ := List.findIdx?_eq_some_iff_getElem.mp found
  rw [Bool.and_eq_true, decide_eq_true_iff] at matching
  rw [← matching.2]
  simp only [inUse, List.getElem_take]
  rw [List.getD_eq_getElem]

/-- The stored names are the set's. -/
structure Keyed (manager : ModuleManager) (names : Finset CString) : Prop where
  sound : manager.Sound
  distinct : manager.storedNames.Nodup
  keys : ∀ name, name ∈ manager.storedNames ↔ name ∈ names

theorem Keyed.count (keyed : manager.Keyed names) : names.card = manager.count := by
  have same : manager.storedNames.toFinset = names := by
    ext name
    rw [List.mem_toFinset]
    exact keyed.keys name
  rw [← same, List.toFinset_card_of_nodup keyed.distinct, storedNames, List.length_map,
    keyed.sound.inUse_length]

theorem moduleLoad_succeeds (room : manager.count < maxModules) {name : CString} (path : CString)
    (missing : manager.find name = none) (outcome : LoadOutcome) {handle : Nat}
    (opens : outcome.handle = some handle) (inits : outcome.init.getD 0 = 0) :
    (manager.moduleLoad (some name) (some path) outcome).1 = 0 ∧
      (manager.moduleLoad (some name) (some path) outcome).2.storedNames =
        manager.storedNames ++ [(filledModule name path handle outcome).storedName] := by
  have small : manager.count < manager.modules.length := by
    rw [manager.full]
    exact room
  simp only [moduleLoad, not_le.mpr room, missing, opens, inits]
  refine ⟨rfl, ?_⟩
  simp only [storedNames, inUse, setModule, Option.isSome_none, Bool.false_eq_true, if_false, ne_eq,
    not_true_eq_false, take_set_end small, List.map_append, List.map_cons, List.map_nil]
  rfl

theorem moduleLoad_refused {name path : CString} {outcome : LoadOutcome}
    (refused : ¬ (manager.count < maxModules ∧ manager.find name = none)) :
    manager.moduleLoad (some name) (some path) outcome = (-1, manager) := by
  by_cases full : manager.count ≥ maxModules
  · simp only [moduleLoad, if_pos full]
  · have found : (manager.find name).isSome = true := by
      rw [Option.isSome_iff_ne_none]
      intro missing
      exact refused ⟨not_le.mp full, missing⟩
    simp only [moduleLoad, if_neg full, if_pos found]

theorem unloadAt_storedNames (sound : manager.Sound) {name : CString} {index : Nat}
    (found : manager.find name = some index) :
    (name :: (manager.unloadAt index).storedNames).Perm manager.storedNames := by
  have parts := (unloadAt_inUse sound.bounded (find_lt found)).map Module.storedName
  rw [List.map_cons, find_storedName found] at parts
  exact parts

section Call
variable {name : CString}

theorem storedName_short {path : CString} {handle : Nat} {outcome : LoadOutcome}
    (short : name.length < 64) : (filledModule name path handle outcome).storedName = name := by
  apply CString.eq_of_bytes
  rw [filledModule_storedName]
  exact List.take_of_length_le (Nat.le_of_lt_succ short)

theorem Keyed.load (keyed : manager.Keyed names) (short : name.length < 64) (path : CString)
    (outcome : LoadOutcome) {handle : Nat} (opens : outcome.handle = some handle)
    (inits : outcome.init.getD 0 = 0) :
    (manager.moduleLoad (some name) (some path) outcome).1 =
        (if names.card ≥ maxModules ∨ name ∈ names then -1 else 0) ∧
      (manager.moduleLoad (some name) (some path) outcome).2.Keyed
        (if names.card ≥ maxModules ∨ name ∈ names then names else insert name names) := by
  have sound := keyed.sound.load (some name) (some path) outcome
  rw [keyed.count]
  by_cases full : manager.count ≥ maxModules
  · rw [if_pos (Or.inl full), if_pos (Or.inl full),
      moduleLoad_refused fun accepted => absurd accepted.1 (not_lt.mpr full)]
    exact ⟨rfl, keyed⟩
  · cases found : manager.find name with
    | some index =>
      have stored : name ∈ names := by
        rw [← keyed.keys]
        by_contra absent
        rw [keyed.sound.find_eq_none.mpr absent] at found
        cases found
      rw [if_pos (Or.inr stored), if_pos (Or.inr stored), moduleLoad_refused (by simp [found])]
      exact ⟨rfl, keyed⟩
    | none =>
      have absent := keyed.sound.find_eq_none.mp found
      have unlisted : ¬ (manager.count ≥ maxModules ∨ name ∈ names) :=
        not_or.mpr ⟨full, fun member => absent ((keyed.keys name).mpr member)⟩
      obtain ⟨reply, stored⟩ := moduleLoad_succeeds (not_le.mp full) path found outcome opens inits
      rw [storedName_short short] at stored
      rw [if_neg unlisted, if_neg unlisted]
      refine ⟨reply, sound, ?_, ?_⟩
      · rw [stored]
        exact (List.perm_append_singleton _ _).nodup_iff.mpr
          (List.nodup_cons.mpr ⟨absent, keyed.distinct⟩)
      · intro other
        rw [stored, List.mem_append, List.mem_singleton, keyed.keys, Finset.mem_insert, or_comm]

theorem Keyed.unload (keyed : manager.Keyed names) (name : CString) :
    (manager.moduleUnload (some name)).1 = (if name ∈ names then 0 else -1) ∧
      (manager.moduleUnload (some name)).2.Keyed (if name ∈ names then
        names.erase name else names) := by
  have sound := keyed.sound.unload (some name)
  simp only [moduleUnload] at sound ⊢
  cases found : manager.find name with
  | none =>
    have absent : name ∉ names := by
      rw [← keyed.keys]
      exact keyed.sound.find_eq_none.mp found
    rw [if_neg absent, if_neg absent]
    exact ⟨rfl, keyed⟩
  | some index =>
    rw [found] at sound
    have parts := unloadAt_storedNames keyed.sound found
    have distinct := parts.nodup_iff.mpr keyed.distinct
    obtain ⟨removed, rest⟩ := List.nodup_cons.mp distinct
    have stored : name ∈ names := by
      rw [← keyed.keys]
      exact parts.mem_iff.mp (List.mem_cons_self ..)
    rw [if_pos stored, if_pos stored]
    refine ⟨rfl, sound, rest, ?_⟩
    intro other
    have members := parts.mem_iff (a := other)
    rw [List.mem_cons, keyed.keys] at members
    rw [Finset.mem_erase, ← members]
    constructor
    · intro member
      exact ⟨fun same => removed (same ▸ member), Or.inr member⟩
    · intro ⟨different, member⟩
      exact member.resolve_left different

theorem Keyed.callNamed (keyed : manager.Keyed names) (call : NameCall)
    (short : call.name.length < 64) :
    (manager.callNamed call).1 = (nameSetCall names call).1 ∧
      (manager.callNamed call).2.Keyed (nameSetCall names call).2 := by
  cases call with
  | load name path handle hasInit cleanup onCommand =>
    have inits : (if hasInit then some (0 : Int) else none).getD 0 = 0 := by cases hasInit <;> rfl
    have fits : name.length < 64 := short
    obtain ⟨reply, after⟩ := keyed.load fits path
      ⟨some handle, if hasInit then some 0 else none, cleanup, onCommand⟩ rfl inits
    simp only [nameSetCall]
    split
    · rename_i refused
      rw [if_pos refused] at reply after
      exact ⟨reply, after⟩
    · rename_i accepted
      rw [if_neg accepted] at reply after
      exact ⟨reply, after⟩
  | unload name =>
    obtain ⟨reply, after⟩ := keyed.unload name
    simp only [nameSetCall]
    split
    · rename_i member
      rw [if_pos member] at reply after
      exact ⟨reply, after⟩
    · rename_i absent
      rw [if_neg absent] at reply after
      exact ⟨reply, after⟩

theorem init_keyed : init.Keyed ∅ := ⟨init_sound, List.nodup_nil, fun _ => Iff.rfl⟩

end Call

/-- No stored name fills the whole array. -/
structure NamesFit (manager : ModuleManager) : Prop where
  sound : manager.Sound
  short : ∀ name ∈ manager.storedNames, name.length < 64

theorem storedName_length (name path : CString) (handle : Nat) (outcome : LoadOutcome) :
    (filledModule name path handle outcome).storedName.length < 64 := by
  have length := List.length_take_le 63 name.bytes
  rw [CString.length, filledModule_storedName]
  omega

theorem NamesFit.callNamed (fit : manager.NamesFit) (call : NameCall) :
    (manager.callNamed call).2.NamesFit := by
  refine ⟨fit.sound.call call.call, ?_⟩
  cases call with
  | load name path handle hasInit cleanup onCommand =>
    have inits : (if hasInit then some (0 : Int) else none).getD 0 = 0 := by cases hasInit <;> rfl
    intro other member
    by_cases accepted : manager.count < maxModules ∧ manager.find name = none
    · have stored := (moduleLoad_succeeds accepted.1 path accepted.2
        ⟨some handle, if hasInit then some 0 else none, cleanup, onCommand⟩ rfl inits).2
      rw [ModuleManager.callNamed, NameCall.call, ModuleManager.call, stored] at member
      rcases List.mem_append.mp member with old | new
      · exact fit.short other old
      · rw [List.mem_singleton.mp new]
        exact storedName_length ..
    · rw [ModuleManager.callNamed, NameCall.call, ModuleManager.call,
        moduleLoad_refused accepted] at member
      exact fit.short other member
  | unload name =>
    intro other member
    simp only [ModuleManager.callNamed, NameCall.call, ModuleManager.call, moduleUnload] at member
    cases found : manager.find name with
    | none =>
      rw [found] at member
      exact fit.short other member
    | some index =>
      rw [found] at member
      have parts := unloadAt_storedNames fit.sound found
      exact fit.short other (parts.mem_iff.mp (List.mem_cons_of_mem _ member))

/-- A name that does not fit is never found. -/
theorem NamesFit.find_long (fit : manager.NamesFit) {name : CString} (long : 64 ≤ name.length) :
    manager.find name = none := by
  apply fit.sound.find_eq_none.mpr
  intro member
  exact absurd (fit.short name member) (not_lt.mpr long)

end ModuleManager

/-- In every sequence of calls whose names are shorter than 64 bytes, the module manager
answers as the set of the callers' names and holds that set; a longer name is loaded
without being found again, neither by `module_unload` nor by another `module_load`. -/
theorem module_names_form_set (calls : List NameCall) :
    ((∀ call ∈ calls, call.name.length < 64) →
      (run ModuleManager.callNamed ModuleManager.init calls).1 = (run nameSetCall ∅ calls).1 ∧
      ∀ name, name ∈ (run ModuleManager.callNamed ModuleManager.init calls).2.storedNames ↔
        name ∈ (run nameSetCall ∅ calls).2) ∧
    ∀ (name path : CString) (handle : Nat), 64 ≤ name.length →
      let manager := (run ModuleManager.callNamed ModuleManager.init calls).2
      let loaded := manager.callNamed (.load name path handle false false false)
      (manager.count < maxModules → loaded.1 = 0) ∧
      (loaded.2.callNamed (.unload name)).1 = -1 ∧
      (loaded.2.count < maxModules →
        (loaded.2.callNamed (.load name path handle false false false)).1 = 0) := by
  constructor
  · intro short
    obtain ⟨replies, keyed⟩ := run_simulates_admitted
      (fun _ _ call short keyed => keyed.callNamed call short) calls short ModuleManager.init_keyed
    exact ⟨replies, keyed.keys⟩
  · intro name path handle long manager loaded
    have fit : manager.NamesFit := by
      have every : ∀ call ∈ calls, True := fun _ _ => trivial
      refine run_keeps ?_ calls every ⟨ModuleManager.init_sound, ?_⟩
      · intro state call _ holds
        exact holds.callNamed call
      · intro other member
        cases member
    have after : loaded.2.NamesFit := fit.callNamed _
    refine ⟨?_, ?_, ?_⟩
    · intro room
      exact (ModuleManager.moduleLoad_succeeds room path (fit.find_long long) _ rfl rfl).1
    · simp only [ModuleManager.callNamed, NameCall.call, ModuleManager.call,
        ModuleManager.moduleUnload,
        after.find_long long]
    · intro room
      exact (ModuleManager.moduleLoad_succeeds room path (after.find_long long) _ rfl rfl).1

/-- A name of 64 bytes is loaded twice and cannot be unloaded. -/
theorem long_name_loaded_twice :
    let name : CString := ⟨List.replicate 64 97, by decide⟩
    let load : NameCall := .load name name 1 false false false
    (run ModuleManager.callNamed ModuleManager.init [load, load, .unload name]).1 = [0, 0, -1] ∧
      (run nameSetCall ∅ [load, load, .unload name]).1 = [0, -1, 0] := by
  decide +kernel

end LinuxCLearning.FileServer
