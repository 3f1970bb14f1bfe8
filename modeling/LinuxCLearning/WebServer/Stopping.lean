import LinuxCLearning.Base.Monitor
import LinuxCLearning.Base.Ring

/-! How the web server and the proxy end: `http_server_stop` and `proxy_stop` clear `running`
without the mutex, wake all workers and join them. -/

namespace LinuxCLearning.WebServer

open Machine Monitor

/-- The part of `http_server_t` and of `proxy_server_t` that the workers share. -/
structure SharedQueue where
  ring : Ring Int
  running : Bool

/-- `worker_thread` of both programs; its place is `client_fd`, which is -1 until a connection
has been taken off the queue. -/
def workerLoop : Loop SharedQueue Int where
  head server _ := if server.running then some (-1) else none
  blocks server := server.ring.count = 0 && server.running
  enter server _ :=
    if server.ring.count > 0 then
      let clientFd := server.ring.front
      ({ server with ring := server.ring.pop }, if clientFd ≥ 0 then .busy clientFd
        else .outside clientFd)
    else (server, .outside (-1))

/-- `http_server_start` up to the accept loop. -/
def started (maxConnections threads : Nat) (garbage : Nat → Int) : State SharedQueue Int :=
  ⟨⟨⟨maxConnections, garbage, 0, 0, 0⟩, true⟩, List.replicate threads (.outside (-1))⟩

/-- A step of a worker, the end of a wait that nothing has ended, a connection that wakes a
worker if one waits, or the first store of the call that stops the server. -/
inductive ServerAction where
  | worker (index : Nat)
  | spurious (index : Nat)
  | connection (clientFd : Nat) (woken : Nat)
  | clearRunning

def serverStep (server : State SharedQueue Int) : ServerAction → Option (State SharedQueue Int)
  | .worker index => workerLoop.step server index
  | .spurious index => some (server.signal index)
  | .connection clientFd woken =>
    if server.free then
      some (if server.shared.ring.count < server.shared.ring.capacity then
        State.signal { server with shared.ring := server.shared.ring.push clientFd } woken
      else server)
    else none
  | .clearRunning => some { server with shared.running := false }

/-- How far a worker is from its end when it need not wait. -/
def workerRank : Phase Int → Nat
  | .outside _ => 1
  | .locking _ => 2
  | .busy _ => 3
  | .checked _ => 1
  | .asleep _ => 0
  | .ended => 0

theorem workerLoop_finishing :
    workerLoop.Finishing (fun server => server.running = false)
      (fun server => server.ring.count) workerRank where
  passes server stopped := by simp [workerLoop, stopped]
  keeps server place stopped := by
    simp only [workerLoop]
    split <;> exact stopped
  enters server place stopped := by
    simp only [workerLoop]
    split
    · left
      simp only [Ring.pop]
      omega
    · exact Or.inr ⟨rfl, by simp [workerRank]⟩
  lively server place := by
    simp only [workerLoop]
    split
    · split <;> rfl
    · rfl
  heads server place stopped := by simp [workerLoop, stopped, workerRank]
  works place := by simp [workerRank]
  rests place := by simp [workerRank]

theorem serverStep_exclusive {server next : State SharedQueue Int} {action : ServerAction}
    (exclusive : server.threads.countP Phase.holds ≤ 1)
    (stepped : serverStep server action = some next) :
    next.threads.countP Phase.holds ≤ 1 := by
  cases action with
  | worker index => exact Loop.step_exclusive exclusive stepped
  | spurious index =>
    cases stepped
    rwa [Loop.signal_exclusive]
  | connection clientFd woken =>
    simp only [serverStep] at stepped
    split at stepped
    · cases stepped
      split
      · rwa [Loop.signal_exclusive]
      · exact exclusive
    · cases stepped
  | clearRunning =>
    cases stepped
    exact exclusive

/-- Workers that have settled behind the stop all end when they are woken once more. -/
theorem settled_woken {final : State SharedQueue Int} (cleared : final.shared.running = false)
    (settled : final.Settled) : Inevitable workerLoop.step State.AllEnded final.broadcast := by
  refine (workerLoop_finishing.broadcast_iff cleared).mpr ?_
  intro phase member
  have either := settled phase member
  cases phase <;> simp [Phase.isEnded, Phase.sleeps] at either <;> rfl

end LinuxCLearning.WebServer
