import LinuxCLearning.FileServer.ClientsInvariant

/-! `server_stop` against the workers that finish their sessions. The sweep closes the
descriptors of the active slots and clears them without touching the count; a worker
then finds no slot in `remove_client` and closes its copy of the descriptor again. -/

namespace LinuxCLearning.FileServer

open Machine

namespace ClientServer
variable {maxClients : Nat} {server after : ClientServer maxClients} {index : Nat}

section Sweep
variable {slots : List (Fin maxClients)} {slot : Fin maxClients}

theorem sweepSlot_keeps (server : ClientServer maxClients) (slot : Fin maxClients) :
    (server.sweepSlot slot).clientCount = server.clientCount ∧
      (server.sweepSlot slot).sessions = server.sessions := by
  unfold sweepSlot safeClose
  split
  · split <;> exact ⟨rfl, rfl⟩
  · exact ⟨rfl, rfl⟩

theorem sweepSlot_inactive (server : ClientServer maxClients) (slot other : Fin maxClients)
    (inactive : other = slot ∨ (server.slots other).active = false) :
    ((server.sweepSlot slot).slots other).active = false := by
  unfold sweepSlot
  by_cases same : other = slot
  · subst same
    split
    · simp
    · rename_i unset
      simpa using unset
  · have still : (server.slots other).active = false := inactive.resolve_left same
    split
    · simpa [same] using still
    · exact still

theorem sweep_keeps (server : ClientServer maxClients) (slots : List (Fin maxClients)) :
    (slots.foldl sweepSlot server).clientCount = server.clientCount ∧
      (slots.foldl sweepSlot server).sessions = server.sessions := by
  induction slots generalizing server with
  | nil => exact ⟨rfl, rfl⟩
  | cons slot slots ih =>
    obtain ⟨count, sessions⟩ := sweepSlot_keeps server slot
    obtain ⟨restCount, restSessions⟩ := ih (server.sweepSlot slot)
    exact ⟨restCount.trans count, restSessions.trans sessions⟩

theorem sweep_inactive (server : ClientServer maxClients) (slots : List (Fin maxClients))
    (other : Fin maxClients) (inactive : other ∈ slots ∨ (server.slots other).active = false) :
    ((slots.foldl sweepSlot server).slots other).active = false := by
  induction slots generalizing server with
  | nil => simpa using inactive
  | cons slot slots ih =>
    apply ih
    rcases inactive with member | already
    · rcases List.mem_cons.mp member with same | later
      · exact Or.inr (sweepSlot_inactive server slot other (Or.inl same))
      · exact Or.inl later
    · exact Or.inr (sweepSlot_inactive server slot other (Or.inr already))

theorem sweep_idle (server : ClientServer maxClients) (slots : List (Fin maxClients))
    (idle : ∀ slot, (server.slots slot).active = false) :
      slots.foldl sweepSlot server = server := by
  induction slots with
  | nil => rfl
  | cons slot slots ih =>
    have nothing : server.sweepSlot slot = server := by simp [sweepSlot, idle slot]
    rw [List.foldl_cons, nothing]
    exact ih

end Sweep

/-- A connection that has not come to `add_client` is still in the accept loop. -/
def Looping (server : ClientServer maxClients) : Prop :=
  ∀ session ∈ server.sessions, session.stage = .accepted → session.inLoop = true

theorem safeClose_keeps (server : ClientServer maxClients) (fd : Int) :
    (server.safeClose fd).sessions = server.sessions ∧ (server.safeClose fd).slots = server.slots ∧
      (server.safeClose fd).clientCount = server.clientCount ∧
      (server.safeClose fd).stopped = server.stopped := by
  unfold safeClose
  split <;> exact ⟨rfl, rfl, rfl, rfl⟩

theorem removeClient_keeps (server : ClientServer maxClients) (fd : Int) :
    (server.removeClient fd).sessions = server.sessions ∧
      (server.removeClient fd).stopped = server.stopped := by
  unfold removeClient
  split <;> exact ⟨rfl, rfl⟩

/-- `remove_client` finds nothing in a table without active slots. -/
theorem removeClient_idle (idle : ∀ slot, (server.slots slot).active = false) (fd : Int) :
    server.removeClient fd = server := by
  have nothing : SlotTable.first server.slots (fun slot => slot.active && slot.fd == fd) =
      none := by
    apply SlotTable.first_eq_none.mpr
    intro slot
    simp [idle slot]
  simp [removeClient, nothing]

/-- A step of a connection: nothing returns to `add_client`, and past it an empty table
stays as it is. -/
theorem advance_cases {session : ClientSession maxClients} {submitted : Bool}
    (stepped : server.advance index submitted session = some after) :
    ∃ next, after.sessions = server.sessions.set index next ∧ next.stage ≠ .accepted ∧
      after.stopped = server.stopped ∧
      (session.stage ≠ .accepted → (∀ slot, (server.slots slot).active = false) →
        after.slots = server.slots ∧ after.clientCount = server.clientCount) := by
  cases stage : session.stage with
  | accepted =>
    simp only [advance, stage, addClient] at stepped
    cases found : SlotTable.first server.slots (!·.active) with
    | some slot =>
      rw [found] at stepped
      cases stepped
      exact ⟨_, rfl, by simp, rfl, fun other => absurd rfl other⟩
    | none =>
      rw [found] at stepped
      cases stepped
      exact ⟨_, rfl, by simp, rfl, fun other => absurd rfl other⟩
  | rejected =>
    simp only [advance, stage, Option.some.injEq] at stepped
    subst stepped
    obtain ⟨sessions, slots, count, stopped⟩ := safeClose_keeps server session.fd
    refine ⟨{ session with stage := .closed, inLoop := false }, ?_, by simp, stopped,
      fun _ _ => ⟨slots, count⟩⟩
    rw [setSession, sessions]
  | added slot =>
    simp only [advance, stage, Option.some.injEq] at stepped
    subst stepped
    refine ⟨_, rfl, ?_, rfl, fun _ _ => ⟨rfl, rfl⟩⟩
    split <;> simp
  | queued slot =>
    simp only [advance, stage, Option.some.injEq] at stepped
    subst stepped
    exact ⟨_, rfl, by simp, rfl, fun _ _ => ⟨rfl, rfl⟩⟩
  | serving slot fd =>
    simp only [advance, stage, Option.some.injEq] at stepped
    subst stepped
    exact ⟨_, rfl, by simp, rfl, fun _ _ => ⟨rfl, rfl⟩⟩
  | removing slot fd =>
    simp only [advance, stage, Option.some.injEq] at stepped
    subst stepped
    obtain ⟨sessions, stopped⟩ := removeClient_keeps server fd
    refine ⟨{ session with stage := .closing fd }, ?_, by simp, stopped, ?_⟩
    · rw [setSession, sessions]
    · intro _ idle
      rw [removeClient_idle idle fd]
      exact ⟨rfl, rfl⟩
  | closing fd =>
    simp only [advance, stage, Option.some.injEq] at stepped
    subst stepped
    obtain ⟨sessions, slots, count, stopped⟩ := safeClose_keeps server fd
    refine ⟨{ session with stage := .closed, inLoop := false }, ?_, by simp, stopped,
      fun _ _ => ⟨slots, count⟩⟩
    rw [setSession, sessions]
  | closed => simp [advance, stage] at stepped

theorem Looping.step (looping : server.Looping) {action : ClientAction}
    (stepped : server.step action = some after) : after.Looping := by
  cases action with
  | accept fd =>
    simp only [ClientServer.step] at stepped
    split at stepped
    · cases stepped
      intro session member accepted
      rcases List.mem_append.mp member with old | last
      · exact looping session old accepted
      · rw [List.mem_singleton.mp last]
    · cases stepped
  | advance index submitted =>
    obtain ⟨session, -, moved⟩ := Option.bind_eq_some_iff.mp stepped
    obtain ⟨next, sessions, notAccepted, -⟩ := advance_cases moved
    intro other member accepted
    rw [sessions] at member
    rcases List.mem_or_eq_of_mem_set member with old | rfl
    · exact looping other old accepted
    · exact absurd accepted notAccepted
  | stop =>
    simp only [ClientServer.step] at stepped
    split at stepped
    · cases stepped
      intro session member accepted
      have sessions := (sweep_keeps server (List.finRange maxClients)).2
      exact looping session (sessions ▸ member) accepted
    · cases stepped

/-- The table behind the sweep: no active slot, the count of before, and no connection on
its way to `add_client`. -/
structure Swept (count : Int) (server : ClientServer maxClients) : Prop where
  stopped : server.stopped = true
  idle : ∀ slot, (server.slots slot).active = false
  count : server.clientCount = count
  past : ∀ session ∈ server.sessions, session.stage ≠ .accepted

theorem Looping.swept (looping : server.Looping) (loopIdle : server.loopIdle = true) :
    server.serverStop.Swept server.clientCount := by
  obtain ⟨count, sessions⟩ := sweep_keeps server (List.finRange maxClients)
  refine ⟨rfl, ?_, count, ?_⟩
  · intro slot
    exact sweep_inactive server (List.finRange maxClients) slot (Or.inl (List.mem_finRange slot))
  · intro session member accepted
    have before : session ∈ server.sessions := sessions ▸ member
    have inLoop := looping session before accepted
    have outside := List.all_eq_true.mp loopIdle session before
    simp [inLoop] at outside

theorem Swept.step {count : Int} (swept : server.Swept count) {action : ClientAction}
    (stepped : server.step action = some after) : after.Swept count := by
  cases action with
  | accept fd => simp [ClientServer.step, swept.stopped] at stepped
  | advance index submitted =>
    obtain ⟨session, here, moved⟩ := Option.bind_eq_some_iff.mp stepped
    obtain ⟨next, sessions, notAccepted, stopped, still⟩ := advance_cases moved
    obtain ⟨slots, counted⟩ := still (swept.past session (List.mem_of_getElem? here)) swept.idle
    refine ⟨stopped.trans swept.stopped, ?_, counted.trans swept.count, ?_⟩
    · rw [slots]
      exact swept.idle
    · intro other member
      rw [sessions] at member
      rcases List.mem_or_eq_of_mem_set member with old | rfl
      · exact swept.past other old
      · exact notAccepted
  | stop => simp [ClientServer.step, swept.stopped] at stepped

/-- A sweep without active slots leaves the table as consistent as it was. -/
theorem Consistent.stop (consistent : server.Consistent)
    (idle : ∀ slot, (server.slots slot).active = false) : server.serverStop.Consistent := by
  obtain ⟨counted, fits, occupied, known, once, real⟩ := consistent
  rw [serverStop, sweep_idle server _ idle]
  refine ⟨counted, ?_, occupied, known, once, real⟩
  intro index session here
  obtain ⟨slotted, copied, owned, closes⟩ := fits index session here
  exact ⟨slotted, copied, owned, closes⟩

/-- A consistent table behind the sweep. -/
structure Settling (count : Int) (server : ClientServer maxClients) : Prop where
  swept : server.Swept count
  consistent : server.Consistent

theorem Settling.step {count : Int} (settling : server.Settling count) {action : ClientAction}
    (stepped : server.step action = some after) : after.Settling count := by
  refine ⟨settling.swept.step stepped, settling.consistent.step ?_ stepped⟩
  intro again
  simp [again, ClientServer.step, settling.swept.stopped] at stepped

/-- The shutdown went as it should: the count is that of the active slots, no call of
`close` found a descriptor closed already, and every connection was closed once. -/
def ShutDown (server : ClientServer maxClients) : Prop :=
  server.clientCount = server.activeSlots ∧ none ∉ server.closes ∧
    ∀ index < server.sessions.length, server.closes.count (some index) = 1

end ClientServer

/-- The state in which all workers have finished is as it should be exactly if no slot was
active when `server_stop` took the lock. -/
theorem shut_down_iff_no_active_slot (maxClients : Nat)
    {before after final : ClientServer maxClients}
    (reached : Arrives ClientServer.step (fun _ action => action ≠ .stop)
      (ClientServer.init maxClients) before)
    (stopped : before.step .stop = some after)
    (ended : Arrives ClientServer.step (fun _ _ => True) after final)
    (finished : ∀ session ∈ final.sessions, session.stage = .closed) :
    final.ShutDown ↔ ∀ slot, (before.slots slot).active = false := by
  have consistent : before.Consistent := by
    refine reached.keeps (ClientServer.init_consistent maxClients) ?_
    intro state action next holds running stepped
    exact holds.step running stepped
  have looping : before.Looping := by
    refine reached.keeps ?_ ?_
    · intro session member
      cases member
    · intro state action next holds _ stepped
      exact holds.step stepped
  simp only [ClientServer.step] at stopped
  split at stopped
  · rename_i allowed
    cases stopped
    have swept : final.Swept before.clientCount := by
      refine ended.keeps (looping.swept allowed.1) ?_
      intro state action next holds _ stepped
      exact holds.step stepped
    have none_active : final.activeSlots = 0 := SlotTable.tally_eq_zero.mpr swept.idle
    constructor
    · intro down
      have counted := down.1
      rw [swept.count, consistent.counted, none_active] at counted
      exact SlotTable.tally_eq_zero.mp (Int.ofNat_inj.mp counted)
    · intro idle
      have still : final.Consistent := by
        have settling : final.Settling before.clientCount := by
          refine ended.keeps ⟨looping.swept allowed.1, consistent.stop idle⟩ ?_
          intro state action next holds _ stepped
          exact holds.step stepped
        exact settling.consistent
      refine ⟨still.counted, still.no_stray, ?_⟩
      intro index inside
      have here := List.getElem?_eq_getElem inside
      rw [still.closed_once here, if_pos (finished _ (List.getElem_mem inside))]
  · cases stopped

/-- A served client that ends its session before the sweep. -/
theorem shut_down_iff_no_active_slot_one_client :
    ∃ before after : ClientServer 1,
      follow ClientServer.step (ClientServer.init 1)
        [.accept 5, .advance 0 true, .advance 0 true, .advance 0 true, .advance 0 true,
          .advance 0 true] = some before ∧
      before.step .stop = some after ∧
      ∃ final, after.step (.advance 0 true) = some final ∧ final.ShutDown := by
  have run : ∃ before after final : ClientServer 1, follow ClientServer.step (ClientServer.init 1)
      [.accept 5, .advance 0 true, .advance 0 true, .advance 0 true, .advance 0 true,
        .advance 0 true] = some before ∧ before.step .stop = some after ∧
      after.step (.advance 0 true) = some final ∧ (before.slots 0).active = false ∧
      final.sessions.map ClientSession.stage = [.closed] := ⟨_, _, _, rfl, rfl, rfl, rfl, rfl⟩
  obtain ⟨before, after, final, ran, stopped, ended, inactive, stages⟩ := run
  refine ⟨before, after, ran, stopped, final, ended, ?_⟩
  refine (shut_down_iff_no_active_slot 1 (Arrives.start.follow (by simp) ran) stopped
    (Arrives.start.next _ trivial ended) ?_).mpr ?_
  · intro session member
    have stage : session.stage ∈ final.sessions.map ClientSession.stage :=
      List.mem_map_of_mem member
    rw [stages] at stage
    exact List.mem_singleton.mp stage
  · intro slot
    rw [Subsingleton.elim slot 0]
    exact inactive

/-- A client that is being served at the sweep: its descriptor is closed twice and the
count stays at one. -/
theorem served_client_not_shut_down :
    ¬ ∀ before after final : ClientServer 1,
      Arrives ClientServer.step (fun _ action => action ≠ .stop) (ClientServer.init 1) before →
      before.step .stop = some after → Arrives ClientServer.step (fun _ _ => True) after final →
      (∀ session ∈ final.sessions, session.stage = .closed) → final.ShutDown := by
  intro always
  have run : ∃ before after final : ClientServer 1, follow ClientServer.step (ClientServer.init 1)
      [.accept 5, .advance 0 true, .advance 0 true, .advance 0 true] = some before ∧
      before.step .stop = some after ∧
      follow ClientServer.step after [.advance 0 true, .advance 0 true, .advance 0 true] =
        some final ∧
      final.sessions.map ClientSession.stage = [.closed] ∧ final.closes = [some 0, none] ∧
      final.clientCount = 1 := ⟨_, _, _, rfl, rfl, rfl, rfl, rfl, rfl⟩
  obtain ⟨before, after, final, ran, stopped, ended, stages, closes, count⟩ := run
  have down := always before after final (Arrives.start.follow (by simp) ran) stopped
    (Arrives.start.follow (fun _ _ _ => trivial) ended) (by
      intro session member
      have stage : session.stage ∈ final.sessions.map ClientSession.stage :=
        List.mem_map_of_mem member
      rw [stages] at stage
      exact List.mem_singleton.mp stage)
  apply down.2.1
  rw [closes]
  simp

end LinuxCLearning.FileServer
