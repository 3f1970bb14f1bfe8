import LinuxCLearning.Base.SlotTable
import LinuxCLearning.FileServer.Modules

/-! Who holds the handles of the loaded modules. The part of the array in use is exactly
the loaded part, and every handle that `dlopen` returned is in it or was closed; handles
are counted with their multiplicity, since `dlopen` returns the same one again for a
library that is open already. -/

namespace LinuxCLearning.FileServer

open Machine

namespace ModuleManager

/-- What every sequence of calls keeps. -/
structure Sound (manager : ModuleManager) : Prop where
  bounded : manager.count ≤ maxModules
  loadedFront : ∀ (index : Nat) entry, manager.modules[index]? = some entry →
    (entry.loaded = true ↔ index < manager.count)
  handles : (manager.inUse.map Module.handle ++ manager.dlclosed).Perm manager.dlopened

variable {manager : ModuleManager}

theorem init_sound : init.Sound := by
  refine ⟨Nat.zero_le _, ?_, .nil⟩
  intro index entry present
  obtain ⟨-, rfl⟩ := List.mem_replicate.mp (List.mem_of_getElem? present)
  simp [Module.blank, init]

theorem take_set_behind {modules : List Module} {count index : Nat} (behind : count ≤ index)
    (entry : Module) : (modules.set index entry).take count = modules.take count := by
  rw [List.take_set, List.set_eq_of_length_le]
  exact (List.length_take_le _ _).trans behind

theorem setModule_inUse_behind {index : Nat} (behind : manager.count ≤ index) (entry : Module) :
    (manager.setModule index entry).inUse = manager.inUse :=
  take_set_behind behind entry

/-- Writing at the end of the part in use and taking it in. -/
theorem take_set_end {modules : List Module} {count : Nat} (room : count < modules.length)
    (entry : Module) : (modules.set count entry).take (count + 1) =
      modules.take count ++ [entry] := by
  have inside : count < (modules.set count entry).length := by rwa [List.length_set]
  rw [List.take_succ_eq_append_getElem inside, take_set_behind (le_refl count),
    List.getElem_set_self]

theorem set_get {modules : List Module} {index other : Nat} {new entry : Module}
    (inside : index < modules.length) (present : (modules.set index new)[other]? = some entry) :
    (other = index ∧ entry = new) ∨ (other ≠ index ∧ modules[other]? = some entry) := by
  rw [SlotTable.get_set inside] at present
  split at present
  · rename_i same
    exact Or.inl ⟨same, (Option.some.inj present).symm⟩
  · rename_i different
    exact Or.inr ⟨different, present⟩

theorem moduleLoad_failed {name path : Option CString} {outcome : LoadOutcome}
    (failed : (manager.moduleLoad name path outcome).1 = -1) :
    (manager.moduleLoad name path outcome).2.inUse = manager.inUse := by
  unfold moduleLoad at failed ⊢
  split
  · split
    · rfl
    · split
      · rfl
      · split
        · rfl
        · split
          · exact setModule_inUse_behind (le_refl manager.count) _
          · rename_i succeeds
            simp_all
  · rfl

theorem Sound.load (sound : manager.Sound) (name path : Option CString) (outcome : LoadOutcome) :
    (manager.moduleLoad name path outcome).2.Sound := by
  unfold moduleLoad
  split
  · split
    · exact sound
    · rename_i room
      have small : manager.count < manager.modules.length := by
        rw [manager.full]
        exact not_le.mp room
      split
      · exact sound
      · split
        · exact sound
        · rename_i handle _
          split
          · refine ⟨sound.bounded, ?_, ?_⟩
            · intro index entry present
              rcases set_get small present with ⟨rfl, rfl⟩ | ⟨_, old⟩
              · simp [filledModule, setModule]
              · exact sound.loadedFront index entry old
            · simp only [inUse, setModule, take_set_behind (le_refl manager.count)]
              rw [← List.append_assoc]
              exact sound.handles.append_right [handle]
          · refine ⟨not_le.mp room, ?_, ?_⟩
            · intro index entry present
              rcases set_get small present with ⟨rfl, rfl⟩ | ⟨different, old⟩
              · simp
              · rw [sound.loadedFront index entry old]
                simp only
                omega
            · simp only [inUse, setModule, take_set_end small]
              rw [List.map_append, List.append_assoc]
              refine List.Perm.trans ?_ (sound.handles.append_right [handle])
              rw [List.append_assoc]
              exact List.perm_append_comm.append_left _
  · exact sound

section Unload
variable {index last : Nat}

theorem unloadAt_keeps (manager : ModuleManager) (index : Nat) :
    (manager.unloadAt index).count = manager.count - 1 ∧
      (manager.unloadAt index).dlopened = manager.dlopened ∧
      (manager.unloadAt index).dlclosed =
        manager.dlclosed ++ [(manager.modules.getD index .blank).handle] := by
  unfold unloadAt
  refine ⟨rfl, ?_, ?_⟩
  · simp only
    split <;> rfl
  · simp only
    split <;> rfl

theorem unloadAt_before (counted : manager.count = last + 1) (before : index < last) :
    (manager.unloadAt index).modules =
      (manager.modules.set index (manager.modules.getD last .blank)).set last .blank := by
  have apart : index ≠ last := before.ne
  simp [unloadAt, counted, before, setModule, List.set_set, apart]

theorem unloadAt_last (counted : manager.count = last + 1) :
    (manager.unloadAt last).modules =
      manager.modules.set last { manager.modules.getD last .blank with loaded := false } := by
  simp [unloadAt, counted, setModule]

/-- An item and the list with it replaced make up the list and the replacement. -/
theorem replaced_perm {items : List Module} (inside : index < items.length) (item : Module) :
    (items[index] :: items.set index item).Perm (items ++ [item]) := by
  have replaced := List.set_perm_cons_eraseIdx inside item
  have whole := List.getElem_cons_eraseIdx_perm inside
  refine (replaced.cons items[index]).trans ?_
  refine (List.Perm.swap ..).trans ?_
  exact (whole.cons item).trans (List.perm_append_singleton item items).symm

/-- What is unloaded and what is left make up what was in use. -/
theorem unloadAt_inUse (bounded : manager.count ≤ maxModules) (used : index < manager.count) :
    (manager.modules.getD index .blank :: (manager.unloadAt index).inUse).Perm manager.inUse := by
  obtain ⟨last, counted⟩ : ∃ last, manager.count = last + 1 := ⟨manager.count - 1, by omega⟩
  have inside : last < manager.modules.length := by
    rw [manager.full]
    omega
  have whole : manager.inUse = manager.modules.take last ++ [manager.modules[last]] := by
    rw [inUse, counted, List.take_succ_eq_append_getElem inside]
  have count : (manager.unloadAt index).count = last := by
    rw [(unloadAt_keeps manager index).1, counted, Nat.add_sub_cancel]
  rw [whole]
  rcases Nat.lt_or_ge index last with before | behind
  · have shorter : index < (manager.modules.take last).length := by
      rw [List.length_take]
      omega
    have left : (manager.unloadAt index).inUse =
        (manager.modules.take last).set index manager.modules[last] := by
      rw [inUse, count, unloadAt_before counted before,
        take_set_behind (le_refl last), List.take_set,
        List.getD_eq_getElem _ _ inside]
    have item : manager.modules.getD index .blank = (manager.modules.take last)[index] := by
      rw [List.getElem_take, List.getD_eq_getElem]
    rw [left, item]
    exact replaced_perm shorter _
  · obtain rfl : index = last := by omega
    have left : (manager.unloadAt index).inUse = manager.modules.take index := by
      rw [inUse, count, unloadAt_last counted, take_set_behind (le_refl index)]
    rw [left, List.getD_eq_getElem _ _ inside]
    exact (List.perm_append_singleton _ _).symm

theorem Sound.unloadAt (sound : manager.Sound) (used : index < manager.count) :
    (manager.unloadAt index).Sound := by
  obtain ⟨count, opened, closed⟩ := unloadAt_keeps manager index
  have bounded := sound.bounded
  refine ⟨by omega, ?_, ?_⟩
  · obtain ⟨last, counted⟩ : ∃ last, manager.count = last + 1 := ⟨manager.count - 1, by omega⟩
    have inside : last < manager.modules.length := by
      rw [manager.full]
      omega
    rw [count, counted, Nat.add_sub_cancel]
    intro other entry present
    rcases Nat.lt_or_ge index last with before | behind
    · rw [unloadAt_before counted before] at present
      rcases set_get (by rwa [List.length_set]) present with ⟨rfl, rfl⟩ | ⟨notLast, moved⟩
      · simp [Module.blank]
      · rcases set_get (by omega) moved with ⟨rfl, rfl⟩ | ⟨_, old⟩
        · have loaded := sound.loadedFront last manager.modules[last]
            (List.getElem?_eq_getElem inside)
          rw [List.getD_eq_getElem _ _ inside, loaded]
          omega
        · rw [sound.loadedFront other entry old]
          omega
    · obtain rfl : index = last := by omega
      rw [unloadAt_last counted] at present
      rcases set_get inside present with ⟨rfl, rfl⟩ | ⟨notLast, old⟩
      · simp
      · rw [sound.loadedFront other entry old]
        omega
  · rw [opened, closed]
    have parts := (unloadAt_inUse sound.bounded used).map Module.handle
    refine List.Perm.trans ?_ ((parts.append_right manager.dlclosed).trans sound.handles)
    rw [List.map_cons, List.cons_append, ← List.append_assoc]
    exact List.perm_append_singleton _ _

theorem find_lt {name : CString} (found : manager.find name = some index) :
    index < manager.count := by
  have inside := (List.findIdx?_eq_some_iff_getElem.mp found).1
  rw [inUse, List.length_take] at inside
  omega

theorem Sound.unload (sound : manager.Sound) (name : Option CString) :
    (manager.moduleUnload name).2.Sound := by
  unfold moduleUnload
  split
  · split
    · rename_i index found
      exact sound.unloadAt (find_lt found)
    · exact sound
  · exact sound

/-- The loop of `module_unload_all` closes the handles of the places it passes. -/
theorem unloadDown_front {top : Nat} (manager : ModuleManager) (inside : top ≤ maxModules)
    (loaded : ∀ (index : Nat) entry, manager.modules[index]? = some entry → index < top →
      entry.loaded = true) :
    (unloadDown top manager).dlopened = manager.dlopened ∧
      (unloadDown top manager).dlclosed.Perm
        (manager.dlclosed ++ (manager.modules.take top).map Module.handle) ∧
      ∀ (index : Nat) entry, (unloadDown top manager).modules[index]? = some entry →
        (index < top ∧ entry.loaded = false) ∨
          (top ≤ index ∧ manager.modules[index]? = some entry) := by
  induction top generalizing manager with
  | zero =>
    exact ⟨rfl, by simp [unloadDown], fun index entry present => Or.inr ⟨Nat.zero_le _, present⟩⟩
  | succ top ih =>
    have here : top < manager.modules.length := by
      rw [manager.full]
      exact inside
    have get : manager.modules.getD top .blank = manager.modules[top] :=
      List.getD_eq_getElem _ _ here
    have isLoaded := loaded top manager.modules[top] (List.getElem?_eq_getElem here)
      (Nat.lt_succ_self top)
    rw [unloadDown]
    simp only [get, isLoaded, if_true]
    obtain ⟨opened, closed, others⟩ := ih
      { manager.setModule top { manager.modules[top] with loaded := false } with
        dlclosed := manager.dlclosed ++ [manager.modules[top].handle] } (by omega) (by
        intro index entry present below
        rcases set_get here present with ⟨rfl, rfl⟩ | ⟨_, old⟩
        · exact absurd below (Nat.lt_irrefl _)
        · exact loaded index entry old (Nat.lt_succ_of_lt below))
    refine ⟨opened, ?_, ?_⟩
    · refine closed.trans ?_
      simp only [setModule, take_set_behind (le_refl top)]
      rw [List.take_succ_eq_append_getElem here, List.map_append, List.append_assoc]
      exact List.perm_append_comm.append_left _
    · intro index entry present
      rcases others index entry present with ⟨below, unloaded⟩ | ⟨above, kept⟩
      · exact Or.inl ⟨Nat.lt_succ_of_lt below, unloaded⟩
      · rcases set_get here kept with ⟨rfl, rfl⟩ | ⟨different, old⟩
        · exact Or.inl ⟨Nat.lt_succ_self _, rfl⟩
        · exact Or.inr ⟨by omega, old⟩

theorem Sound.unloadAll (sound : manager.Sound) : manager.moduleUnloadAll.Sound := by
  obtain ⟨opened, closed, others⟩ := unloadDown_front manager sound.bounded
    fun index entry present below => (sound.loadedFront index entry present).mpr below
  refine ⟨Nat.zero_le _, ?_, ?_⟩
  · intro index entry present
    have unloaded : entry.loaded = false := by
      rcases others index entry present with ⟨_, unloaded⟩ | ⟨above, old⟩
      · exact unloaded
      · have front := sound.loadedFront index entry old
        by_contra loaded
        exact absurd (front.mp (by simpa using loaded)) (not_lt.mpr above)
    simp [unloaded, moduleUnloadAll]
  · rw [moduleUnloadAll, opened]
    refine closed.trans (List.perm_append_comm.trans sound.handles)

theorem Sound.call (sound : manager.Sound) (call : ModuleCall) : (manager.call call).2.Sound := by
  cases call with
  | load name path outcome => exact sound.load name path outcome
  | unload name => exact sound.unload name
  | unloadAll => exact sound.unloadAll

end Unload

end ModuleManager

/-- After any sequence of calls the loaded modules are those in the first `count` places,
every handle that `dlopen` returned is held by one of them or was closed once, and a
`module_load` that fails leaves them as they are. -/
theorem module_handles_owned (calls : List ModuleCall) :
    let manager := (run ModuleManager.call ModuleManager.init calls).2
    manager.count ≤ maxModules ∧
    (∀ (index : Nat) entry, manager.modules[index]? = some entry →
      (entry.loaded = true ↔ index < manager.count)) ∧
    (manager.inUse.map Module.handle ++ manager.dlclosed).Perm manager.dlopened ∧
    ∀ name path outcome, (manager.moduleLoad name path outcome).1 = -1 →
      (manager.moduleLoad name path outcome).2.inUse = manager.inUse := by
  intro manager
  have sound : manager.Sound := by
    have every : ∀ call ∈ calls, True := fun _ _ => trivial
    refine run_keeps ?_ calls every ModuleManager.init_sound
    intro state call _ holds
    exact holds.call call
  exact ⟨sound.bounded, sound.loadedFront, sound.handles,
    fun name path outcome failed => ModuleManager.moduleLoad_failed failed⟩

end LinuxCLearning.FileServer
