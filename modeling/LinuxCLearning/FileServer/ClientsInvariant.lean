import LinuxCLearning.FileServer.Clients

/-! The client table before `server_stop`: which connection a slot, an open descriptor
and a `close` belong to. A connection keeps its slot from `add_client` to the section
of `remove_client`, and its descriptor until it is closed. -/

namespace LinuxCLearning.FileServer

open Machine

variable {maxClients : Nat}

/-- The slot of a connection. -/
def SessionStage.slot : SessionStage maxClients → Option (Fin maxClients)
  | .added slot | .queued slot | .serving slot _ | .removing slot _ => some slot
  | _ => none

/-- The descriptor that the thread of a connection has in hand. -/
def SessionStage.held : SessionStage maxClients → Option Int
  | .serving _ fd | .removing _ fd | .closing fd => some fd
  | _ => none

theorem SessionStage.slot_open {stage : SessionStage maxClients}
    {slot : Fin maxClients} (has : stage.slot = some slot) : stage ≠ .closed := by
  intro closed
  rw [closed] at has
  cases has

namespace ClientServer

/-- What a connection has: its slot, its descriptor, and a `close` once it is closed. -/
structure Fits (server : ClientServer maxClients) (index : Nat)
    (session : ClientSession maxClients) :
    Prop where
  slotted : ∀ slot, session.stage.slot = some slot → server.slots slot = ⟨session.fd, true⟩
  copied : ∀ fd, session.stage.held = some fd → fd = session.fd
  owned : session.stage ≠ .closed → server.owner session.fd = some index
  closes : some index ∈ server.closes ↔ session.stage = .closed

/-- The count is right, every connection has what is its own, and every active slot,
open descriptor and `close` belongs to a connection. -/
structure Consistent (server : ClientServer maxClients) : Prop where
  counted : server.clientCount = server.activeSlots
  fits : ∀ (index : Nat) session, server.sessions[index]? = some session → server.Fits index session
  occupied : ∀ slot, (server.slots slot).active = true → ∃ (index : Nat) (session : _),
    server.sessions[index]? = some session ∧ session.stage.slot = some slot
  known : ∀ fd (index : Nat), server.owner fd = some index → ∃ session,
    server.sessions[index]? = some session ∧ session.fd = fd ∧ session.stage ≠ .closed
  once : server.closes.Nodup
  real : ∀ call ∈ server.closes, ∃ index < server.sessions.length, call = some index

theorem init_consistent (maxClients : Nat) : (init maxClients).Consistent := by
  constructor
  · have none_active : (init maxClients).activeSlots = 0 := SlotTable.tally_eq_zero.mpr fun _ => rfl
    rw [none_active]
    rfl
  · intro index session present
    simp [init] at present
  · intro slot active
    cases active
  · intro fd index owned
    cases owned
  · exact List.nodup_nil
  · intro call member
    cases member

variable {server : ClientServer maxClients} {index : Nat} {session : ClientSession maxClients}

theorem Consistent.same_index (consistent : server.Consistent) {other : Nat}
    {another : ClientSession maxClients} (here : server.sessions[index]? = some session)
    (there : server.sessions[other]? = some another) (opened : session.stage ≠ .closed)
    (alsoOpened : another.stage ≠ .closed) (same : session.fd = another.fd) : index = other := by
  have mine := (consistent.fits index session here).owned opened
  have theirs := (consistent.fits other another there).owned alsoOpened
  rw [same, theirs] at mine
  exact (Option.some.inj mine).symm

theorem Consistent.slot_unique (consistent : server.Consistent) {first second : Fin maxClients}
    (firstActive : (server.slots first).active = true)
    (secondActive : (server.slots second).active = true)
    (same : (server.slots first).fd = (server.slots second).fd) : first = second := by
  obtain ⟨index, session, here, has⟩ := consistent.occupied first firstActive
  obtain ⟨other, another, there, alsoHas⟩ := consistent.occupied second secondActive
  rw [(consistent.fits index session here).slotted first has,
    (consistent.fits other another there).slotted second alsoHas] at same
  have equal := consistent.same_index here there (SessionStage.slot_open has)
    (SessionStage.slot_open alsoHas) (Int.ofNat_inj.mp same)
  subst equal
  cases here.symm.trans there
  exact Option.some.inj (has.symm.trans alsoHas)

theorem Fits.unclosed (fits : server.Fits index session) (opened : session.stage ≠ .closed)
    {stage : SessionStage maxClients} (stillOpen : stage ≠ .closed) :
    some index ∈ server.closes ↔ stage = .closed := by
  rw [fits.closes]
  simp [opened, stillOpen]

section Step
variable {next : ClientSession maxClients} {after : ClientServer maxClients}

theorem Consistent.update (consistent : server.Consistent)
    (here : server.sessions[index]? = some session)
    (sessions : after.sessions = server.sessions.set index next) (sameFd : next.fd = session.fd)
    (counted : after.clientCount = after.activeSlots) (mine : after.Fits index next)
    (others : ∀ (other : Nat) another, other ≠ index → server.sessions[other]? = some another →
      server.Fits other another → after.Fits other another)
    (occupied : ∀ slot, (after.slots slot).active = true → next.stage.slot = some slot ∨
      ((server.slots slot).active = true ∧ session.stage.slot ≠ some slot))
    (known : ∀ fd other, after.owner fd = some other →
      server.owner fd = some other ∧ (other = index → next.stage ≠ .closed))
    (once : after.closes.Nodup)
    (real : ∀ call ∈ after.closes, call ∈ server.closes ∨ call = some index) :
    after.Consistent := by
  have inside : index < server.sessions.length := (List.getElem?_eq_some_iff.mp here).1
  have get : ∀ other : Nat, after.sessions[other]? =
      if other = index then some next else server.sessions[other]? := by
    intro other
    rw [sessions]
    exact SlotTable.get_set inside next other
  constructor
  · exact counted
  · intro other another present
    rw [get] at present
    split at present
    · rename_i same
      cases present
      rw [same]
      exact mine
    · rename_i different
      exact others other another different present (consistent.fits other another present)
  · intro slot active
    rcases occupied slot active with has | ⟨before, notMine⟩
    · exact ⟨index, next, by rw [get, if_pos rfl], has⟩
    · obtain ⟨other, another, present, has⟩ := consistent.occupied slot before
      refine ⟨other, another, ?_, has⟩
      rw [get, if_neg]
      · exact present
      · intro same
        subst same
        cases here.symm.trans present
        exact notMine has
  · intro fd other owned
    obtain ⟨before, unclosed⟩ := known fd other owned
    obtain ⟨another, present, descriptor, opened⟩ := consistent.known fd other before
    by_cases same : other = index
    · subst same
      cases here.symm.trans present
      exact ⟨next, by rw [get, if_pos rfl], sameFd.trans descriptor, unclosed rfl⟩
    · exact ⟨another, by rw [get, if_neg same]; exact present, descriptor, opened⟩
  · exact once
  · intro call member
    rw [sessions, List.length_set]
    rcases real call member with old | rfl
    · exact consistent.real call old
    · exact ⟨index, inside, rfl⟩

theorem Consistent.restage (consistent : server.Consistent)
    (here : server.sessions[index]? = some session)
    (sameFd : next.fd = session.fd) (sameSlot : next.stage.slot = session.stage.slot)
    (copied : ∀ fd, next.stage.held = some fd → fd = session.fd) (opened : session.stage ≠ .closed)
    (stillOpen : next.stage ≠ .closed) : (server.setSession index next).Consistent := by
  have before := consistent.fits index session here
  refine consistent.update here rfl sameFd consistent.counted ⟨?_, ?_, ?_, ?_⟩ ?_ ?_ ?_
    consistent.once fun call member => Or.inl member
  · intro slot has
    rw [sameFd]
    exact before.slotted slot (sameSlot ▸ has)
  · intro fd holds
    rw [sameFd]
    exact copied fd holds
  · intro _
    rw [sameFd]
    exact before.owned opened
  · exact before.unclosed opened stillOpen
  · intro other another _ _ fits
    exact ⟨fits.slotted, fits.copied, fits.owned, fits.closes⟩
  · intro slot active
    by_cases mine : session.stage.slot = some slot
    · exact Or.inl (sameSlot.trans mine)
    · exact Or.inr ⟨active, mine⟩
  · intro fd other owned
    exact ⟨owned, fun _ => stillOpen⟩

theorem Consistent.add (consistent : server.Consistent)
    (here : server.sessions[index]? = some session)
    (stage : session.stage = .accepted) {slot : Fin maxClients}
    (free : (server.slots slot).active = false) :
    ({ server with
        slots := Function.update server.slots slot ⟨session.fd, true⟩
        clientCount := server.clientCount + 1 }.setSession index
      { session with stage := .added slot }).Consistent := by
  have before := consistent.fits index session here
  have opened : session.stage ≠ .closed := by simp [stage]
  refine consistent.update here rfl rfl ?_ ⟨?_, ?_, ?_, ?_⟩ ?_ ?_ ?_ consistent.once
    fun call member => Or.inl member
  · have more := SlotTable.tally_update server.slots (·.active) slot ⟨session.fd, true⟩
    simp only [free, Bool.toNat_false, Bool.toNat_true, Nat.add_zero] at more
    have counted := consistent.counted
    simp only [activeSlots, setSession] at counted ⊢
    rw [more, counted]
    push_cast
    rfl
  · intro other has
    cases has
    exact Function.update_self ..
  · intro fd holds
    cases holds
  · intro _
    exact before.owned opened
  · exact before.unclosed opened (by simp)
  · intro other another _ _ fits
    refine ⟨?_, fits.copied, fits.owned, fits.closes⟩
    intro place has
    have taken := fits.slotted place has
    have different : place ≠ slot := by
      intro same
      rw [← same, taken] at free
      cases free
    exact (Function.update_of_ne different ..).trans taken
  · intro place active
    by_cases same : place = slot
    · exact Or.inl (by rw [same]; rfl)
    · refine Or.inr ⟨?_, by simp [stage, SessionStage.slot]⟩
      simpa [setSession, same] using active
  · intro fd other owned
    refine ⟨owned, ?_⟩
    intro _ closed
    cases closed

theorem Consistent.removeClient (consistent : server.Consistent)
    (here : server.sessions[index]? = some session) {slot : Fin maxClients} {fd : Int}
    (stage : session.stage = .removing slot fd) :
    server.removeClient fd = { server with
      slots := Function.update server.slots slot ⟨-1, false⟩
      clientCount := server.clientCount - 1 } := by
  have before := consistent.fits index session here
  have mine := before.slotted slot (by rw [stage]; rfl)
  have same := before.copied fd (by rw [stage]; rfl)
  have found : SlotTable.first server.slots (fun slot => slot.active && slot.fd == fd) =
      some slot := by
    apply SlotTable.first_unique
    · simp [mine, same]
    · intro other matching
      simp only [Bool.and_eq_true, beq_iff_eq] at matching
      refine consistent.slot_unique matching.1 (by rw [mine]) ?_
      rw [matching.2, same, mine]
  simp only [ClientServer.removeClient, found]

theorem Consistent.remove (consistent : server.Consistent)
    (here : server.sessions[index]? = some session)
    {slot : Fin maxClients} {fd : Int} (stage : session.stage = .removing slot fd) :
    ((server.removeClient fd).setSession index
      { session with stage := .closing fd }).Consistent := by
  have before := consistent.fits index session here
  have opened : session.stage ≠ .closed := by simp [stage]
  have has : session.stage.slot = some slot := by rw [stage]; rfl
  have mine := before.slotted slot has
  rw [consistent.removeClient here stage]
  refine consistent.update here rfl rfl ?_ ⟨?_, ?_, ?_, ?_⟩ ?_ ?_ ?_ consistent.once
    fun call member => Or.inl member
  · have less := SlotTable.tally_update server.slots (·.active) slot ⟨-1, false⟩
    simp only [mine, Bool.toNat_false, Bool.toNat_true, Nat.add_zero] at less
    have counted := consistent.counted
    simp only [activeSlots, setSession] at counted ⊢
    rw [counted, ← less]
    push_cast
    omega
  · intro other none_left
    cases none_left
  · intro other holds
    cases holds
    exact before.copied fd (by rw [stage]; rfl)
  · intro _
    exact before.owned opened
  · exact before.unclosed opened (by simp)
  · intro other another notMine there fits
    refine ⟨?_, fits.copied, fits.owned, fits.closes⟩
    intro place alsoHas
    have taken := fits.slotted place alsoHas
    have different : place ≠ slot := by
      intro same
      rw [same, mine] at taken
      have fds : session.fd = another.fd := by
        simpa using congrArg ClientSlot.fd taken
      exact notMine (consistent.same_index here there opened
        (SessionStage.slot_open alsoHas) fds).symm
    exact (Function.update_of_ne different ..).trans taken
  · intro place active
    have different : place ≠ slot := by
      intro same
      simp [setSession, same] at active
    refine Or.inr ⟨?_, ?_⟩
    · simpa [setSession, different] using active
    · rw [has]
      exact fun same => different (Option.some.inj same).symm
  · intro other owner owned
    refine ⟨owned, ?_⟩
    intro _ closed
    cases closed

theorem Consistent.close (consistent : server.Consistent)
    (here : server.sessions[index]? = some session)
    (opened : session.stage ≠ .closed) (slotless : session.stage.slot = none) :
    ((server.safeClose session.fd).setSession index
      { session with stage := .closed, inLoop := false }).Consistent := by
  have before := consistent.fits index session here
  have own := before.owned opened
  have unclosed : some index ∉ server.closes := fun member => opened (before.closes.mp member)
  rw [safeClose, if_pos (Int.natCast_nonneg session.fd), Int.toNat_natCast, own]
  refine consistent.update here rfl rfl consistent.counted ⟨?_, ?_, ?_, ?_⟩ ?_ ?_ ?_ ?_ ?_
  · intro slot has
    cases has
  · intro fd holds
    cases holds
  · intro unclosed
    exact absurd rfl unclosed
  · simp [setSession]
  · intro other another notMine there fits
    refine ⟨fits.slotted, fits.copied, ?_, ?_⟩
    · intro alsoOpened
      have theirs := fits.owned alsoOpened
      have different : another.fd ≠ session.fd := by
        intro same
        rw [same, own] at theirs
        exact notMine (Option.some.inj theirs).symm
      exact (Function.update_of_ne different ..).trans theirs
    · rw [← fits.closes]
      simp [setSession, notMine]
  · intro slot active
    refine Or.inr ⟨active, ?_⟩
    rw [slotless]
    intro has
    cases has
  · intro fd other owned
    have different : fd ≠ session.fd := by
      intro same
      simp [setSession, same] at owned
    have still : server.owner fd = some other := by simpa [setSession, different] using owned
    refine ⟨still, ?_⟩
    intro same
    obtain ⟨another, present, descriptor, -⟩ := consistent.known fd other still
    rw [same, here] at present
    cases present
    exact absurd descriptor.symm different
  · refine List.nodup_append.mpr ⟨consistent.once, List.nodup_singleton _, ?_⟩
    intro call member single last same
    rw [same, List.mem_singleton.mp last] at member
    exact unclosed member
  · intro call member
    rcases List.mem_append.mp member with old | last
    · exact Or.inl old
    · exact Or.inr (List.mem_singleton.mp last)

theorem Consistent.accept (consistent : server.Consistent) {fd : Nat}
    (unopened : server.owner fd = none) :
    (server.accept fd).Consistent := by
  have old : ∀ (index : Nat) session, server.sessions[index]? = some session →
      (server.accept fd).sessions[index]? = some session := by
    intro index session present
    exact (List.getElem?_append_left (List.getElem?_eq_some_iff.mp present).1).trans present
  constructor
  · exact consistent.counted
  · intro index session present
    rcases Nat.lt_trichotomy index server.sessions.length with inside | rfl | outside
    · have here : server.sessions[index]? = some session :=
        (List.getElem?_append_left inside).symm.trans present
      have fits := consistent.fits index session here
      refine ⟨fits.slotted, fits.copied, ?_, fits.closes⟩
      intro opened
      have owned := fits.owned opened
      have different : session.fd ≠ fd := by
        intro same
        rw [same, unopened] at owned
        cases owned
      exact (Function.update_of_ne different ..).trans owned
    · have last : session = ⟨fd, .accepted, true⟩ := by
        simpa [ClientServer.accept, eq_comm] using present
      subst last
      refine ⟨?_, ?_, fun _ => Function.update_self .., ?_⟩
      · intro slot has
        cases has
      · intro other holds
        cases holds
      · constructor
        · intro member
          obtain ⟨index, inside, called⟩ := consistent.real _ member
          exact absurd (Option.some.inj called) (Nat.ne_of_gt inside)
        · intro closed
          cases closed
    · have none_there : (server.accept fd).sessions[index]? = none := by
        apply List.getElem?_eq_none
        rw [ClientServer.accept, List.length_append]
        exact outside
      rw [none_there] at present
      cases present
  · intro slot active
    obtain ⟨index, session, present, has⟩ := consistent.occupied slot active
    exact ⟨index, session, old index session present, has⟩
  · intro other index owned
    by_cases same : other = fd
    · subst same
      simp only [ClientServer.accept, Function.update_self, Option.some.injEq] at owned
      subst owned
      exact ⟨⟨other, .accepted, true⟩, by simp [ClientServer.accept], rfl, by simp⟩
    · obtain ⟨session, present, descriptor, opened⟩ :=
        consistent.known other index (by simpa [ClientServer.accept, same] using owned)
      exact ⟨session, old index session present, descriptor, opened⟩
  · exact consistent.once
  · intro call member
    obtain ⟨index, inside, called⟩ := consistent.real call member
    refine ⟨index, ?_, called⟩
    rw [ClientServer.accept, List.length_append]
    exact Nat.lt_add_right _ inside

theorem Consistent.advance (consistent : server.Consistent)
    (here : server.sessions[index]? = some session)
    {submitted : Bool} (stepped : server.advance index submitted session = some after) :
    after.Consistent := by
  have fits := consistent.fits index session here
  cases stage : session.stage with
  | accepted =>
    simp only [ClientServer.advance, stage, addClient] at stepped
    cases found : SlotTable.first server.slots (!·.active) with
    | some slot =>
      rw [found] at stepped
      cases stepped
      exact consistent.add here stage (by simpa using SlotTable.first_wanted found)
    | none =>
      rw [found] at stepped
      cases stepped
      exact consistent.restage here rfl (by simp [stage, SessionStage.slot])
        (by simp [SessionStage.held]) (by simp [stage]) (by simp)
  | rejected =>
    simp only [ClientServer.advance, stage, Option.some.injEq] at stepped
    subst stepped
    exact consistent.close here (by simp [stage]) (by rw [stage]; rfl)
  | added slot =>
    simp only [ClientServer.advance, stage, Option.some.injEq] at stepped
    subst stepped
    cases submitted with
    | true =>
      exact consistent.restage here rfl (by rw [stage]; rfl) (by simp [SessionStage.held])
        (by simp [stage]) (by simp)
    | false =>
      exact consistent.restage here rfl (by rw [stage]; rfl)
        (by simp [SessionStage.held]) (by simp [stage]) (by simp)
  | queued slot =>
    simp only [ClientServer.advance, stage, Option.some.injEq] at stepped
    subst stepped
    have mine := fits.slotted slot (by rw [stage]; rfl)
    refine consistent.restage here rfl (by rw [stage]; rfl) ?_ (by simp [stage]) (by simp)
    intro fd holds
    cases holds
    rw [mine]
  | serving slot fd =>
    simp only [ClientServer.advance, stage, Option.some.injEq] at stepped
    subst stepped
    refine consistent.restage here rfl (by rw [stage]; rfl) ?_ (by simp [stage]) (by simp)
    intro other holds
    cases holds
    exact fits.copied fd (by rw [stage]; rfl)
  | removing slot fd =>
    simp only [ClientServer.advance, stage, Option.some.injEq] at stepped
    subst stepped
    exact consistent.remove here stage
  | closing fd =>
    simp only [ClientServer.advance, stage, Option.some.injEq] at stepped
    subst stepped
    rw [fits.copied fd (by rw [stage]; rfl)]
    exact consistent.close here (by simp [stage]) (by rw [stage]; rfl)
  | closed => simp [ClientServer.advance, stage] at stepped

theorem Consistent.step (consistent : server.Consistent) {action : ClientAction}
    (running : action ≠ .stop) (stepped : server.step action = some after) : after.Consistent := by
  cases action with
  | accept fd =>
    simp only [ClientServer.step] at stepped
    split at stepped
    · rename_i allowed
      cases stepped
      exact consistent.accept allowed.2.2
    · cases stepped
  | advance index submitted =>
    obtain ⟨session, here, moved⟩ := Option.bind_eq_some_iff.mp stepped
    exact consistent.advance here moved
  | stop => exact absurd rfl running

end Step

/-- Open connections have not been closed, closed ones once, and nothing else was. -/
theorem Consistent.closed_once (consistent : server.Consistent)
    (here : server.sessions[index]? = some session) :
    server.closes.count (some index) = if session.stage = .closed then 1 else 0 := by
  have fits := consistent.fits index session here
  split
  · rename_i closed
    exact List.count_eq_one_of_mem consistent.once (fits.closes.mpr closed)
  · rename_i opened
    exact List.count_eq_zero.mpr fun member => opened (fits.closes.mp member)

theorem Consistent.no_stray (consistent : server.Consistent) : none ∉ server.closes := by
  intro member
  obtain ⟨index, -, called⟩ := consistent.real none member
  cases called

theorem activeSlots_le (server : ClientServer maxClients) : server.activeSlots ≤ maxClients := by
  calc server.activeSlots ≤ (List.finRange maxClients).length := List.countP_le_length
    _ = maxClients := List.length_finRange

end ClientServer

/-- Before `server_stop`, the count is that of the active slots and within the maximum, no
two active slots hold one descriptor, those they hold are open, and every connection is
closed once: when it was rejected or its session is over. -/
theorem client_table_consistent (maxClients : Nat) {server : ClientServer maxClients}
    (reached : Arrives ClientServer.step (fun _ action => action ≠ .stop)
      (ClientServer.init maxClients) server) :
    server.clientCount = server.activeSlots ∧ server.clientCount ≤ maxClients ∧
    (∀ first second, (server.slots first).active = true → (server.slots second).active = true →
      (server.slots first).fd = (server.slots second).fd → first = second) ∧
    (∀ slot, (server.slots slot).active = true →
      ∃ fd : Nat, (server.slots slot).fd = fd ∧ server.owner fd ≠ none) ∧
    none ∉ server.closes ∧
    ∀ (index : Nat) session, server.sessions[index]? = some session →
      server.closes.count (some index) = if session.stage = .closed then 1 else 0 := by
  have consistent : server.Consistent := by
    refine reached.keeps (ClientServer.init_consistent maxClients) ?_
    intro state action next holds running stepped
    exact holds.step running stepped
  refine ⟨consistent.counted, ?_, ?_, ?_, consistent.no_stray, ?_⟩
  · rw [consistent.counted]
    exact_mod_cast server.activeSlots_le
  · intro first second firstActive secondActive same
    exact consistent.slot_unique firstActive secondActive same
  · intro slot active
    obtain ⟨index, session, here, has⟩ := consistent.occupied slot active
    have fits := consistent.fits index session here
    refine ⟨session.fd, by rw [fits.slotted slot has], ?_⟩
    rw [fits.owned (SessionStage.slot_open has)]
    exact Option.some_ne_none index
  · intro index session here
    exact consistent.closed_once here

/-- One slot: the second connection is rejected, the first one served, and its
descriptor comes again with the third. -/
theorem client_table_consistent_one_slot :
    ∃ server, follow ClientServer.step (ClientServer.init 1)
        [.accept 5, .advance 0 true, .advance 0 true, .accept 6, .advance 1 true, .advance 1 true,
          .advance 0 true, .advance 0 true, .advance 0 true, .advance 0 true,
          .accept 5] = some server ∧
      server.closes = [some 1, some 0] ∧ server.owner 5 = some 2 ∧
      server.clientCount = server.activeSlots ∧ none ∉ server.closes := by
  have run : ∃ server, follow ClientServer.step (ClientServer.init 1)
      [.accept 5, .advance 0 true, .advance 0 true, .accept 6, .advance 1 true, .advance 1 true,
        .advance 0 true, .advance 0 true, .advance 0 true, .advance 0 true,
        .accept 5] = some server ∧
      server.closes = [some 1, some 0] ∧ server.owner 5 = some 2 := ⟨_, rfl, rfl, rfl⟩
  obtain ⟨server, ran, closes, owner⟩ := run
  have reached : Arrives ClientServer.step (fun _ action => action ≠ .stop)
      (ClientServer.init 1) server :=
    Arrives.start.follow (by simp) ran
  obtain ⟨counted, -, -, -, stray, -⟩ := client_table_consistent 1 reached
  exact ⟨server, ran, closes, owner, counted, stray⟩

end LinuxCLearning.FileServer
