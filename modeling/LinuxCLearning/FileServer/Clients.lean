import LinuxCLearning.Base.Machine
import LinuxCLearning.Base.SlotTable

/-! The client table of the file server: connections on their way from `accept` through
`add_client`, the thread pool and `server_handle_client` to `remove_client`, and the
end in `server_stop`. The sections under `client_lock` are one step each; so are a
`close` and the read of a slot's descriptor. The kernel is what it knows about open
descriptors: the connection each of them belongs to. -/

namespace LinuxCLearning.FileServer

open Machine

/-- The fields of `client_info_t` that the table is about. -/
structure ClientSlot where
  fd : Int
  active : Bool
  deriving DecidableEq

/-- Where a connection stands: accepted, rejected by `add_client`, in a slot before its
task is submitted, waiting in the thread pool, served with the descriptor read from the
slot, at the lock of `remove_client`, behind it, or closed. -/
inductive SessionStage (maxClients : Nat) where
  | accepted
  | rejected
  | added (slot : Fin maxClients)
  | queued (slot : Fin maxClients)
  | serving (slot : Fin maxClients) (fd : Int)
  | removing (slot : Fin maxClients) (fd : Int)
  | closing (fd : Int)
  | closed
  deriving DecidableEq

/-- A connection: the descriptor that `accept` returned, how far it is, and whether the
accept loop is still busy with it. -/
structure ClientSession (maxClients : Nat) where
  fd : Nat
  stage : SessionStage maxClients
  inLoop : Bool

/-- The server context. `owner` gives the connection of an open descriptor, and `closes`
lists, for every call of `close`, the connection that it closed, if there was one. -/
structure ClientServer (maxClients : Nat) where
  slots : Fin maxClients → ClientSlot
  clientCount : Int
  stopped : Bool
  sessions : List (ClientSession maxClients)
  owner : Nat → Option Nat
  closes : List (Option Nat)

/-- A step: a new connection, the next step of the thread that has a connection in hand,
or the sweep of `server_stop`. -/
inductive ClientAction where
  | accept (fd : Nat)
  | advance (index : Nat) (submitted : Bool)
  | stop

namespace ClientServer
variable {maxClients : Nat}

/-- `server_init`. -/
def init (maxClients : Nat) : ClientServer maxClients where
  slots := fun _ => ⟨-1, false⟩
  clientCount := 0
  stopped := false
  sessions := []
  owner := fun _ => none
  closes := []

def setSession (server : ClientServer maxClients) (index : Nat)
    (session : ClientSession maxClients) :
    ClientServer maxClients :=
  { server with sessions := server.sessions.set index session }

/-- `SAFE_CLOSE`. -/
def safeClose (server : ClientServer maxClients) (fd : Int) : ClientServer maxClients :=
  if fd ≥ 0 then
    { server with
      owner := Function.update server.owner fd.toNat none
      closes := server.closes ++ [server.owner fd.toNat] }
  else server

/-- `accept` returns a descriptor. -/
def accept (server : ClientServer maxClients) (fd : Nat) : ClientServer maxClients :=
  { server with
    sessions := server.sessions ++ [⟨fd, .accepted, true⟩]
    owner := Function.update server.owner fd (some server.sessions.length) }

/-- `add_client`. -/
def addClient (server : ClientServer maxClients) (fd : Int) :
    Option (Fin maxClients) × ClientServer maxClients :=
  match SlotTable.first server.slots (!·.active) with
  | some slot =>
    (some slot, { server with
      slots := Function.update server.slots slot ⟨fd, true⟩
      clientCount := server.clientCount + 1 })
  | none => (none, server)

/-- `remove_client` under the lock. -/
def removeClient (server : ClientServer maxClients) (fd : Int) : ClientServer maxClients :=
  match SlotTable.first server.slots fun slot => slot.active && slot.fd == fd with
  | some slot =>
    { server with
      slots := Function.update server.slots slot ⟨-1, false⟩
      clientCount := server.clientCount - 1 }
  | none => server

/-- The round of `server_stop` for one slot. -/
def sweepSlot (server : ClientServer maxClients) (slot : Fin maxClients) :
    ClientServer maxClients :=
  if (server.slots slot).active then
    { server.safeClose (server.slots slot).fd with
      slots := Function.update server.slots slot
        ⟨if (server.slots slot).fd ≥ 0 then -1 else (server.slots slot).fd, false⟩ }
  else server

/-- `server_stop` under the lock. -/
def serverStop (server : ClientServer maxClients) : ClientServer maxClients :=
  { (List.finRange maxClients).foldl sweepSlot server with stopped := true }

/-- The next step with a connection: in the accept branch of `server_start`, in the
thread pool, or in `server_handle_client`. -/
def advance (server : ClientServer maxClients) (index : Nat) (submitted : Bool)
    (session : ClientSession maxClients) : Option (ClientServer maxClients) :=
  match session.stage with
  | .accepted =>
    match server.addClient session.fd with
    | (some slot, added) => some (added.setSession index { session with stage := .added slot })
    | (none, full) => some (full.setSession index { session with stage := .rejected })
  | .rejected =>
    some ((server.safeClose session.fd).setSession index
      { session with stage := .closed, inLoop := false })
  | .added slot =>
    some (server.setSession index (if submitted then
        { session with stage := .queued slot, inLoop := false }
      else { session with stage := .removing slot session.fd }))
  | .queued slot =>
    some (server.setSession index { session with stage := .serving slot (server.slots slot).fd })
  | .serving slot fd => some (server.setSession index { session with stage := .removing slot fd })
  | .removing _ fd =>
    some ((server.removeClient fd).setSession index { session with stage := .closing fd })
  | .closing fd =>
    some ((server.safeClose fd).setSession index { session with stage := .closed, inLoop := false })
  | .closed => none

/-- The accept loop has nothing in hand. -/
def loopIdle (server : ClientServer maxClients) : Bool := server.sessions.all (!·.inLoop)

/-- The state after a step. `accept` returns a descriptor that is not open; `server_stop`
is called once the accept loop has ended. -/
def step (server : ClientServer maxClients) : ClientAction → Option (ClientServer maxClients)
  | .accept fd =>
    if server.loopIdle = true ∧ server.stopped = false ∧ server.owner fd = none then
      some (server.accept fd)
    else none
  | .advance index submitted => server.sessions[index]?.bind (server.advance index submitted)
  | .stop =>
    if server.loopIdle = true ∧ server.stopped = false then some server.serverStop else none

/-- How many slots are active. -/
def activeSlots (server : ClientServer maxClients) : Nat := SlotTable.tally server.slots (·.active)

end ClientServer

end LinuxCLearning.FileServer
