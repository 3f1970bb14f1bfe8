import LinuxCLearning.Base.Machine
import LinuxCLearning.Base.Bytes
import LinuxCLearning.Base.Ring

/-! The queue of accepted connections between the accept loop and the worker threads.
The web server and the network proxy have the same loops; they differ in the call that
turns a connection away. Each section under the mutex is one step, and so is every test
of `running` outside it; a condition wait may end at any time. -/

namespace LinuxCLearning.WebServer

open Machine

/-- The programs with such a queue. -/
inductive QueueProgram where
  | webServer
  | networkProxy

/-- The call that answers a connection for which there is no room. -/
inductive ErrorCall where
  | httpSendError (status : Nat)
  | proxySendError (status : Nat) (message : Bytes)
  deriving DecidableEq

def QueueProgram.refusal : QueueProgram → ErrorCall
  | .webServer => .httpSendError 503
  | .networkProxy => .proxySendError 503 (text "Service Unavailable")

/-- Where the accept loop stands: at its test, in `accept`, or past its end. -/
inductive Acceptor where
  | testing
  | accepting
  | ended
  deriving DecidableEq

/-- Where a worker stands: at the test of its loop, at the mutex or in its wait, in
`handle_client`, or past its end. -/
inductive QueueWorker where
  | testing
  | waiting
  | handling (clientFd : Int)
  | ended
  deriving DecidableEq

/-- The server structure, the threads, and beside them what `accept` has returned so far,
the descriptors that were answered with an error and closed, and the calls of
`handle_client`. -/
structure ConnectionServer where
  ring : Ring Int
  running : Bool
  acceptor : Acceptor
  workers : List QueueWorker
  accepted : List Int
  refused : List (Int × ErrorCall)
  handed : List (Nat × Int)

/-- One step of a thread, or of the one that stops the server. -/
inductive QueueAction where
  | test
  | accept (clientFd : Nat)
  | acceptFails (interrupted : Bool)
  | worker (index : Nat)
  | stop

namespace ConnectionServer

/-- `http_server_create` and `proxy_create` up to the accept loop: `malloc` leaves
anything in the queue. -/
def create (maxConnections threads : Nat) (garbage : Nat → Int) : ConnectionServer where
  ring := ⟨maxConnections, garbage, 0, 0, 0⟩
  running := true
  acceptor := .testing
  workers := List.replicate threads .testing
  accepted := []
  refused := []
  handed := []

/-- The section of the accept loop under the mutex. -/
def enqueue (program : QueueProgram) (server : ConnectionServer) (clientFd : Int) :
    ConnectionServer :=
  if server.ring.count < server.ring.capacity then { server with ring := server.ring.push clientFd }
  else { server with refused := server.refused ++ [(clientFd, program.refusal)] }

def setWorker (server : ConnectionServer) (index : Nat) (worker : QueueWorker) : ConnectionServer :=
  { server with workers := server.workers.set index worker }

/-- The section of `worker_thread` under the mutex, from the lock or from the end of a
wait on, and the call of `handle_client` behind it. -/
def dequeue (server : ConnectionServer) (index : Nat) : ConnectionServer :=
  if server.ring.count = 0 ∧ server.running = true then server
  else if server.ring.count > 0 then
    let clientFd := server.ring.front
    let popped := { server with ring := server.ring.pop }
    if clientFd ≥ 0 then
      { popped.setWorker index (.handling clientFd) with handed := server.handed ++ [(index, clientFd)] }
    else popped.setWorker index .testing
  else server.setWorker index .testing

/-- The next step of a worker. -/
def workerThread (server : ConnectionServer) (index : Nat) : QueueWorker → Option ConnectionServer
  | .testing => some (server.setWorker index (if server.running then .waiting else .ended))
  | .waiting => some (server.dequeue index)
  | .handling _ => some (server.setWorker index .testing)
  | .ended => none

/-- The state after a step. -/
def step (program : QueueProgram) (server : ConnectionServer) :
    QueueAction → Option ConnectionServer
  | .test =>
    if server.acceptor = .testing then
      some { server with acceptor := if server.running then .accepting else .ended }
    else none
  | .accept clientFd =>
    if server.acceptor = .accepting then
      let accepted := server.accepted ++ [(clientFd : Int)]
      some (enqueue program { server with acceptor := .testing, accepted } clientFd)
    else none
  | .acceptFails interrupted =>
    if server.acceptor = .accepting then
      some { server with acceptor := if interrupted then .testing else .ended }
    else none
  | .worker index => server.workers[index]?.bind (server.workerThread index)
  | .stop => some { server with running := false }

end ConnectionServer

/-- An accepted connection: its place in the order of arrival, and its descriptor, which
the kernel may have given out before. -/
structure Connection where
  arrival : Nat
  fd : Nat
  deriving DecidableEq

/-- A bounded queue that turns away what it has no room for. -/
structure Fifo where
  accepted : List Connection
  refused : List Connection
  waiting : List Connection
  handed : List (Nat × Connection)

namespace Fifo

def empty : Fifo := ⟨[], [], [], []⟩

/-- The next connection to arrive. -/
def arriving (fifo : Fifo) (fd : Nat) : Connection := ⟨fifo.accepted.length, fd⟩

inductive Step (bound : Nat) (fifo : Fifo) : Fifo → Prop where
  | enqueue (fd : Nat) (room : fifo.waiting.length < bound) :
      Step bound fifo { fifo with
        accepted := fifo.accepted ++ [fifo.arriving fd]
        waiting := fifo.waiting ++ [fifo.arriving fd] }
  | refuse (fd : Nat) (full : ¬ fifo.waiting.length < bound) :
      Step bound fifo { fifo with
        accepted := fifo.accepted ++ [fifo.arriving fd]
        refused := fifo.refused ++ [fifo.arriving fd] }
  | hand (worker : Nat) (first : Connection) (rest : List Connection)
      (front : fifo.waiting = first :: rest) :
      Step bound fifo { fifo with
        waiting := rest
        handed := fifo.handed ++ [(worker, first)] }

/-- Every accepted connection is in one place, and they leave in the order of arrival. -/
structure Orderly (bound : Nat) (fifo : Fifo) : Prop where
  numbered : fifo.accepted.map Connection.arrival = List.range fifo.accepted.length
  onePlace : (fifo.refused ++ fifo.handed.map Prod.snd ++ fifo.waiting).Perm fifo.accepted
  inOrder : (fifo.handed.map Prod.snd ++ fifo.waiting).Sublist fifo.accepted
  bounded : fifo.waiting.length ≤ bound

variable {bound : Nat} {fifo next : Fifo}

theorem Orderly.empty (bound : Nat) : Orderly bound Fifo.empty :=
  ⟨rfl, .nil, .slnil, Nat.zero_le bound⟩

theorem Orderly.arrive (orderly : fifo.Orderly bound) (fd : Nat) :
    (fifo.accepted ++ [fifo.arriving fd]).map Connection.arrival =
      List.range (fifo.accepted ++ [fifo.arriving fd]).length := by
  rw [List.map_append, orderly.numbered, List.length_append, List.length_singleton, List.range_succ]
  rfl

theorem Orderly.step (orderly : fifo.Orderly bound) (step : Step bound fifo next) :
    next.Orderly bound := by
  cases step with
  | enqueue fd room =>
    refine ⟨orderly.arrive fd, ?_, ?_, ?_⟩
    · rw [← List.append_assoc]
      exact orderly.onePlace.append_right [fifo.arriving fd]
    · rw [← List.append_assoc]
      exact orderly.inOrder.append (List.Sublist.refl _)
    · rw [List.length_append]
      exact room
  | refuse fd full =>
    refine ⟨orderly.arrive fd, ?_, orderly.inOrder.trans (List.sublist_append_left _ _),
      orderly.bounded⟩
    have last : (fifo.refused ++ [fifo.arriving fd] ++
        fifo.handed.map Prod.snd ++ fifo.waiting).Perm
        (fifo.refused ++ fifo.handed.map Prod.snd ++ fifo.waiting ++ [fifo.arriving fd]) := by
      simp only [List.append_assoc]
      apply List.Perm.append_left
      rw [← List.append_assoc (fifo.handed.map Prod.snd)]
      exact List.perm_append_comm
    exact last.trans (orderly.onePlace.append_right [fifo.arriving fd])
  | hand worker first rest front =>
    have same : fifo.handed.map Prod.snd ++ fifo.waiting =
        (fifo.handed ++ [(worker, first)]).map Prod.snd ++ rest := by
      rw [front]
      simp
    obtain ⟨numbered, onePlace, inOrder, bounded⟩ := orderly
    refine ⟨numbered, ?_, ?_, ?_⟩
    · rw [List.append_assoc, ← same, ← List.append_assoc]
      exact onePlace
    · rw [← same]
      exact inOrder
    · rw [front] at bounded
      exact (Nat.le_succ _).trans bounded

theorem Orderly.run (orderly : fifo.Orderly bound)
    (ran : Relation.ReflTransGen (Step bound) fifo next) :
    next.Orderly bound := by
  induction ran with
  | refl => exact orderly
  | tail _ step ih => exact ih.step step

end Fifo

/-- The ring holds the waiting connections of a bounded queue. What `accept` has returned
is what arrived there, the same ones are turned away and the same workers have the others. -/
structure ConnectionServer.Represents (program : QueueProgram) (bound : Nat)
    (server : ConnectionServer) (fifo : Fifo) : Prop where
  sound : server.ring.Sound
  capacity : server.ring.capacity = bound
  accepted : server.accepted = fifo.accepted.map fun connection => (connection.fd : Int)
  waiting : server.ring.contents = fifo.waiting.map fun connection => (connection.fd : Int)
  refused : server.refused = fifo.refused.map fun connection =>
    ((connection.fd : Int), program.refusal)
  handed : server.handed = fifo.handed.map fun (worker, connection) =>
    (worker, (connection.fd : Int))

namespace ConnectionServer
variable {program : QueueProgram} {bound : Nat} {server next : ConnectionServer} {fifo : Fifo}

theorem Represents.waiting_length (represents : server.Represents program bound fifo) :
    fifo.waiting.length = server.ring.count := by
  rw [← Ring.contents_length, represents.waiting, List.length_map]

/-- The section of the accept loop adds the connection or turns it away. -/
theorem Represents.enqueue (represents : server.Represents program bound fifo) (fd : Nat) :
    ∃ following, fifo.Step bound following ∧
      (ConnectionServer.enqueue program { server with accepted := server.accepted ++ [(fd : Int)] }
        fd).Represents
        program bound following := by
  have waiting := represents.waiting_length
  have accepted : server.accepted ++ [(fd : Int)] =
      (fifo.accepted ++ [fifo.arriving fd]).map fun connection => (connection.fd : Int) := by
    rw [represents.accepted, List.map_append]
    rfl
  unfold ConnectionServer.enqueue
  split
  · rename_i room
    have space : fifo.waiting.length < bound := by
      rw [waiting, ← represents.capacity]
      exact room
    refine ⟨_, .enqueue fd space, represents.sound.push room fd, represents.capacity, accepted, ?_,
      represents.refused, represents.handed⟩
    refine (represents.sound.push_contents room fd).trans ?_
    rw [represents.waiting]
    simp [Fifo.arriving]
  · rename_i full
    have none_left : ¬ fifo.waiting.length < bound := by
      rw [waiting, ← represents.capacity]
      exact full
    refine ⟨_, .refuse fd none_left, represents.sound, represents.capacity, accepted,
      represents.waiting, ?_,
      represents.handed⟩
    simp [Fifo.arriving, represents.refused]

/-- The section of a worker takes the first connection or leaves the queue alone. -/
theorem Represents.dequeue (represents : server.Represents program bound fifo) (index : Nat) :
    ∃ following, (following = fifo ∨ fifo.Step bound following) ∧
      (server.dequeue index).Represents program bound following := by
  rw [ConnectionServer.dequeue]
  split
  · exact ⟨fifo, Or.inl rfl, represents⟩
  · split
    · rename_i some_item
      have shape := represents.sound.contents_pop some_item
      rw [represents.waiting] at shape
      obtain ⟨first, rest, front, descriptor, others⟩ := List.map_eq_cons_iff.mp shape
      simp only
      rw [← descriptor, if_pos (Int.natCast_nonneg first.fd)]
      refine ⟨_, Or.inr (.hand index first rest front), represents.sound.pop some_item,
        represents.capacity, represents.accepted, others.symm, represents.refused, ?_⟩
      simp [represents.handed]
    · exact ⟨fifo, Or.inl rfl, represents.sound, represents.capacity, represents.accepted,
        represents.waiting, represents.refused, represents.handed⟩

/-- Every step is a step of the bounded queue or does not touch it. -/
theorem Represents.step {action : QueueAction} (represents : server.Represents program bound fifo)
    (stepped : server.step program action = some next) :
    ∃ following, (following = fifo ∨ fifo.Step bound following) ∧
      next.Represents program bound following := by
  obtain ⟨sound, capacity, accepted, waiting, refused, handed⟩ := represents
  cases action with
  | test =>
    simp only [ConnectionServer.step] at stepped
    split at stepped
    · cases stepped
      exact ⟨fifo, Or.inl rfl, sound, capacity, accepted, waiting, refused, handed⟩
    · cases stepped
  | accept clientFd =>
    simp only [ConnectionServer.step] at stepped
    split at stepped
    · cases stepped
      have before : Represents program bound { server with acceptor := .testing } fifo :=
        ⟨sound, capacity, accepted, waiting, refused, handed⟩
      obtain ⟨following, moved, after⟩ := before.enqueue clientFd
      exact ⟨following, Or.inr moved, after⟩
    · cases stepped
  | acceptFails interrupted =>
    simp only [ConnectionServer.step] at stepped
    split at stepped
    · cases stepped
      exact ⟨fifo, Or.inl rfl, sound, capacity, accepted, waiting, refused, handed⟩
    · cases stepped
  | worker index =>
    obtain ⟨worker, -, moved⟩ := Option.bind_eq_some_iff.mp stepped
    cases worker with
    | testing =>
      cases moved
      exact ⟨fifo, Or.inl rfl, sound, capacity, accepted, waiting, refused, handed⟩
    | waiting =>
      cases moved
      exact Represents.dequeue ⟨sound, capacity, accepted, waiting, refused, handed⟩ index
    | handling clientFd =>
      cases moved
      exact ⟨fifo, Or.inl rfl, sound, capacity, accepted, waiting, refused, handed⟩
    | ended => cases moved
  | stop =>
    cases stepped
    exact ⟨fifo, Or.inl rfl, sound, capacity, accepted, waiting, refused, handed⟩

theorem create_represents (program : QueueProgram) {maxConnections : Nat}
    (positive : 1 ≤ maxConnections) (threads : Nat) (garbage : Nat → Int) :
    (create maxConnections threads garbage).Represents program maxConnections Fifo.empty :=
  ⟨⟨positive, positive, Nat.zero_le _, (Nat.zero_mod _).symm⟩, rfl, rfl, rfl, rfl, rfl⟩

/-- Some run of the bounded queue leads to what the server holds. -/
def Refines (program : QueueProgram) (bound : Nat) (server : ConnectionServer) : Prop :=
  ∃ fifo, Relation.ReflTransGen (Fifo.Step bound) Fifo.empty fifo ∧
    server.Represents program bound fifo

theorem Refines.step {action : QueueAction} (refines : server.Refines program bound)
    (stepped : server.step program action = some next) : next.Refines program bound := by
  obtain ⟨fifo, ran, represents⟩ := refines
  obtain ⟨following, unchanged | moved, after⟩ := represents.step stepped
  · exact ⟨following, unchanged ▸ ran, after⟩
  · exact ⟨following, ran.tail moved, after⟩

end ConnectionServer

/-- In every reachable state of both programs the ring is that of a run of the bounded
queue: its indices are within range, and every descriptor that `accept` has returned is
turned away, waiting or handed to one worker, in the order of arrival. -/
theorem connection_queue_refines_fifo (program : QueueProgram) (maxConnections threads : Nat)
    (garbage : Nat → Int) (positive : 1 ≤ maxConnections) {server : ConnectionServer}
    (reached : Arrives (ConnectionServer.step program) (fun _ _ => True)
      (ConnectionServer.create maxConnections threads garbage) server) :
    server.ring.count ≤ maxConnections ∧
    server.ring.tail = (server.ring.head + server.ring.count) % maxConnections ∧
    server.ring.head < maxConnections ∧ server.ring.tail < maxConnections ∧
    ∃ fifo, Relation.ReflTransGen (Fifo.Step maxConnections) Fifo.empty fifo ∧
      server.Represents program maxConnections fifo ∧ fifo.Orderly maxConnections := by
  have refines : server.Refines program maxConnections := by
    refine reached.keeps ⟨Fifo.empty, .refl,
      ConnectionServer.create_represents program positive threads garbage⟩ ?_
    intro state action next holds _ stepped
    exact holds.step stepped
  obtain ⟨fifo, ran, represents⟩ := refines
  obtain ⟨sound, capacity⟩ := And.intro represents.sound represents.capacity
  refine ⟨?_, ?_, ?_, ?_, fifo, ran, represents, (Fifo.Orderly.empty maxConnections).run ran⟩
  · rw [← capacity]
    exact sound.bounded
  · rw [← capacity]
    exact sound.tailEq
  · rw [← capacity]
    exact sound.headInside
  · rw [← capacity, sound.tailEq]
    exact Nat.mod_lt _ sound.positive

/-- Room for one connection and one worker: the first connection is handed over, the
second one turned away. -/
theorem connection_queue_refines_fifo_one_place :
    ∃ server, follow (ConnectionServer.step .webServer) (ConnectionServer.create 1 1 fun _ => -1)
        [.test, .accept 5, .test, .accept 6, .worker 0, .worker 0] = some server ∧
      server.accepted = [5, 6] ∧
      server.refused = [(6, .httpSendError 503)] ∧ server.handed = [(0, 5)] ∧
      ∃ fifo, server.Represents .webServer 1 fifo ∧ fifo.Orderly 1 := by
  have run : ∃ server, follow (ConnectionServer.step .webServer)
      (ConnectionServer.create 1 1 fun _ => -1)
      [.test, .accept 5, .test, .accept 6, .worker 0, .worker 0] = some server ∧
      server.accepted = [5, 6] ∧
      server.refused = [(6, .httpSendError 503)] ∧ server.handed = [(0, 5)] :=
    ⟨_, rfl, rfl, rfl, rfl⟩
  obtain ⟨server, ran, accepted, refused, handed⟩ := run
  obtain ⟨-, -, -, -, fifo, -, represents, orderly⟩ := connection_queue_refines_fifo .webServer 1 1
    (fun _ => -1) (le_refl 1) (Arrives.start.follow (fun _ _ _ => trivial) ran)
  exact ⟨server, ran, accepted, refused, handed, fifo, represents, orderly⟩

end LinuxCLearning.WebServer
