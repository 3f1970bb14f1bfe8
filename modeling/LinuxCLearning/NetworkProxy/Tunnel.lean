import LinuxCLearning.Base.Bytes
import LinuxCLearning.Base.Machine

/-! The tunnel between a client and an upstream server. Every system call of
`proxy_tunnel` is one step, with the outcome that the system gives it. -/

namespace LinuxCLearning.NetworkProxy

/-- The socket that bytes are read from; they go to the other one. -/
inductive Side where
  | client
  | upstream
  deriving DecidableEq

structure ProxyStats where
  totalConnections : UInt64
  activeConnections : UInt64
  bytesSent : UInt64
  bytesReceived : UInt64
  cacheHits : UInt64
  cacheMisses : UInt64
  errors : UInt64
  deriving DecidableEq

/-- `stats->bytes_sent += n` for bytes of the client, `stats->bytes_received += n` for
those of the upstream server. -/
def ProxyStats.count (stats : ProxyStats) (n : Nat) : Side → ProxyStats
  | .client => { stats with bytesSent := stats.bytesSent + UInt64.ofNat n }
  | .upstream => { stats with bytesReceived := stats.bytesReceived + UInt64.ofNat n }

def tunnelBufferSize : Nat := 4096

/-- The system call that is next: `select`, `recv` from a side, or `send` of the rest of
`n` bytes to the other side. While the client is served, the flag says whether the
upstream server is ready too. -/
inductive TunnelPlace where
  | selecting
  | receiving (side : Side) (upstreamReady : Bool)
  | sending (side : Side) (upstreamReady : Bool) (n sent : Nat)
  | returned (result : Int)
  deriving DecidableEq

/-- What has been read from a side, and what of it has been written to the other one. -/
structure Flow where
  read : Bytes
  written : Bytes
  deriving DecidableEq

/-- The tunnel with its one buffer; `stats` may be `NULL`. -/
structure Tunnel where
  place : TunnelPlace
  buffer : CharArray tunnelBufferSize
  stats : Option ProxyStats
  flows : Side → Flow

/-- The outcome of a system call. -/
inductive Outcome where
  | interrupted
  | selectFailed
  | timeout
  | ready (client upstream : Bool)
  | closed
  | received (chunk : Bytes)
  | sendFailed
  | sent (m : Nat)

namespace Tunnel

/-- A call of `proxy_tunnel`, whose buffer is not initialised. -/
def started (buffer : CharArray tunnelBufferSize) (stats : Option ProxyStats) : Tunnel :=
  ⟨.selecting, buffer, stats, fun _ => ⟨[], []⟩⟩

/-- What follows when a side has been served. -/
def served : Side → Bool → TunnelPlace
  | .client, true => .receiving .upstream true
  | _, _ => .selecting

/-- The outcomes of `select`. -/
def select (tunnel : Tunnel) : Outcome → Option Tunnel
  | .interrupted => some tunnel
  | .selectFailed => some { tunnel with place := .returned (-1) }
  | .timeout => some { tunnel with place := .returned 0 }
  | .ready client upstream =>
    some { tunnel with
      place :=
        if client then .receiving .client upstream
        else if upstream then .receiving .upstream true
        else .selecting }
  | _ => none

/-- The outcomes of `recv` into the buffer. -/
def recv (tunnel : Tunnel) (side : Side) (upstreamReady : Bool) : Outcome → Option Tunnel
  | .closed => some { tunnel with place := .returned 0 }
  | .received chunk =>
    if 0 < chunk.length ∧ chunk.length ≤ tunnelBufferSize then
      some { tunnel with
        place := .sending side upstreamReady chunk.length 0
        buffer := .ofBytes tunnelBufferSize (chunk ++ tunnel.buffer.bytes.drop chunk.length)
        flows := Function.update tunnel.flows side
          { tunnel.flows side with read := (tunnel.flows side).read ++ chunk } }
    else none
  | _ => none

/-- The flows when `m` bytes of the buffer from `sent` on have been written. -/
def wrote (tunnel : Tunnel) (side : Side) (sent m : Nat) : Side → Flow :=
  Function.update tunnel.flows side
    { tunnel.flows side with
      written := (tunnel.flows side).written ++ (tunnel.buffer.bytes.drop sent).take m }

/-- The outcomes of `send` of what is left of `n` bytes in the buffer. -/
def send (tunnel : Tunnel) (side : Side) (upstreamReady : Bool) (n sent : Nat) :
    Outcome → Option Tunnel
  | .sendFailed => some { tunnel with place := .returned (-1) }
  | .sent m =>
    if 0 < m ∧ m ≤ n - sent then
      if sent + m < n then
        some { tunnel with
          place := .sending side upstreamReady n (sent + m)
          flows := tunnel.wrote side sent m }
      else
        some { tunnel with
          place := served side upstreamReady
          stats := tunnel.stats.map fun stats => stats.count n side
          flows := tunnel.wrote side sent m }
    else none
  | _ => none

def step (tunnel : Tunnel) (outcome : Outcome) : Option Tunnel :=
  match tunnel.place with
  | .selecting => tunnel.select outcome
  | .receiving side upstreamReady => tunnel.recv side upstreamReady outcome
  | .sending side upstreamReady n sent => tunnel.send side upstreamReady n sent outcome
  | .returned _ => none

end Tunnel

/-- The counters after as many bytes from each side. -/
def ProxyStats.grown (stats : ProxyStats) (amount : Side → Nat) : ProxyStats :=
  { stats with
    bytesSent := stats.bytesSent + UInt64.ofNat (amount .client)
    bytesReceived := stats.bytesReceived + UInt64.ofNat (amount .upstream) }

/-- Everything read has been written and counted. -/
structure Settled (before : Option ProxyStats) (tunnel : Tunnel) : Prop where
  written : ∀ side, (tunnel.flows side).written = (tunnel.flows side).read
  counted : tunnel.stats = before.map fun stats => stats.grown fun side =>
    (tunnel.flows side).read.length

/-- All but the bytes from `sent` to `n` in the buffer have been written, and all but the
first `n` bytes of the buffer have been counted. -/
structure Transferring (before : Option ProxyStats) (source : Side) (n sent : Nat)
    (tunnel : Tunnel) : Prop where
  left : sent < n ∧ n ≤ tunnelBufferSize
  relayed : ∃ base, (tunnel.flows source).read = base ++ tunnel.buffer.bytes.take n ∧
    (tunnel.flows source).written = base ++ tunnel.buffer.bytes.take sent
  other : ∀ side, side ≠ source → (tunnel.flows side).written = (tunnel.flows side).read
  counted : tunnel.stats = before.map fun stats => stats.grown fun side =>
    if side = source then (tunnel.flows side).read.length - n else (tunnel.flows side).read.length

/-- What holds at each place of `proxy_tunnel`. -/
def Faithful (before : Option ProxyStats) (tunnel : Tunnel) : Prop :=
  match tunnel.place with
  | .selecting => Settled before tunnel
  | .receiving _ _ => Settled before tunnel
  | .sending side _ n sent => Transferring before side n sent tunnel
  | .returned result =>
    (∀ side, (tunnel.flows side).written <+: (tunnel.flows side).read) ∧
      (result = 0 → Settled before tunnel)

section Steps
variable {before : Option ProxyStats} {tunnel : Tunnel}

theorem Settled.prefixes (settled : Settled before tunnel) (side : Side) :
    (tunnel.flows side).written <+: (tunnel.flows side).read := by
  rw [settled.written side]

theorem Transferring.prefixes {source : Side} {n sent : Nat}
    (transferring : Transferring before source n sent tunnel)
    (side : Side) : (tunnel.flows side).written <+: (tunnel.flows side).read := by
  by_cases same : side = source
  · obtain ⟨base, read, written⟩ := transferring.relayed
    rw [same, read, written]
    exact (List.prefix_append_right_inj base).mpr
      (List.take_prefix_take_left transferring.left.1.le)
  · rw [transferring.other side same]

/-- At every moment the bytes written to a side are the first ones read from the other. -/
theorem Faithful.prefixes (faithful : Faithful before tunnel) (side : Side) :
    (tunnel.flows side).written <+: (tunnel.flows side).read := by
  unfold Faithful at faithful
  split at faithful
  · exact faithful.prefixes side
  · exact faithful.prefixes side
  · exact faithful.prefixes side
  · exact faithful.1 side

theorem count_grown (stats : ProxyStats) (amount : Side → Nat) (n : Nat) (source : Side) :
    (stats.grown amount).count n source =
      stats.grown fun side => if side = source then amount side + n else amount side := by
  cases source with
  | client => simp [ProxyStats.grown, ProxyStats.count, add_assoc]
  | upstream => simp [ProxyStats.grown, ProxyStats.count, add_assoc]

theorem Settled.place (settled : Settled before tunnel) (place : TunnelPlace) :
    Settled before { tunnel with place := place } :=
  ⟨settled.written, settled.counted⟩

theorem Settled.select (settled : Settled before tunnel) (selecting : tunnel.place = .selecting)
    {outcome : Outcome} {next : Tunnel} (stepped : tunnel.select outcome = some next) :
    Faithful before next := by
  unfold Tunnel.select at stepped
  split at stepped
  · cases stepped
    rw [Faithful, selecting]
    exact settled
  · cases stepped
    exact ⟨settled.prefixes, fun success => absurd success (by decide)⟩
  · cases stepped
    exact ⟨settled.prefixes, fun _ => settled.place _⟩
  · rename_i client upstream
    cases stepped
    cases client with
    | true => exact settled.place _
    | false =>
      cases upstream with
      | true => exact settled.place _
      | false => exact settled.place _
  · cases stepped

theorem buffer_received (buffer : CharArray tunnelBufferSize) {chunk : Bytes}
    (fits : chunk.length ≤ tunnelBufferSize) :
    (CharArray.ofBytes tunnelBufferSize (chunk ++ buffer.bytes.drop chunk.length)).bytes.take
      chunk.length = chunk := by
  have size : (chunk ++ buffer.bytes.drop chunk.length).length = tunnelBufferSize := by
    rw [List.length_append, List.length_drop, buffer.full]
    omega
  change ((chunk ++ buffer.bytes.drop chunk.length).takeD tunnelBufferSize 0).take chunk.length =
    chunk
  rw [List.takeD_eq_take 0 size.ge, List.take_of_length_le size.le, List.take_left]

theorem Settled.recv (settled : Settled before tunnel) {side : Side} {upstreamReady : Bool}
    {outcome : Outcome} {next : Tunnel}
    (stepped : tunnel.recv side upstreamReady outcome = some next) :
    Faithful before next := by
  unfold Tunnel.recv at stepped
  split at stepped
  · cases stepped
    exact ⟨settled.prefixes, fun _ => settled.place _⟩
  · rename_i chunk
    split at stepped
    · rename_i size
      cases stepped
      refine ⟨size, ?_, ?_, ?_⟩
      · refine ⟨(tunnel.flows side).read, ?_, ?_⟩
        · simp only [Function.update_self]
          rw [buffer_received tunnel.buffer size.2]
        · simp only [Function.update_self]
          rw [settled.written side, List.take_zero, List.append_nil]
      · intro other different
        simp only [Function.update_of_ne different]
        exact settled.written other
      · dsimp only
        rw [settled.counted]
        congr 2
        funext stats
        congr 1
        funext other
        by_cases same : other = side
        · subst same
          simp
        · simp [same]
    · cases stepped
  · cases stepped

theorem wrote_read (tunnel : Tunnel) (side other : Side) (sent m : Nat) :
    (tunnel.wrote side sent m other).read = (tunnel.flows other).read := by
  unfold Tunnel.wrote
  by_cases same : other = side
  · subst same
    rw [Function.update_self]
  · rw [Function.update_of_ne same]

theorem wrote_other (tunnel : Tunnel) {side other : Side}
    (different : other ≠ side) (sent m : Nat) :
    tunnel.wrote side sent m other = tunnel.flows other := Function.update_of_ne different ..

section Sending
variable {side : Side} {n sent m : Nat}

theorem wrote_written {base : Bytes}
    (written : (tunnel.flows side).written = base ++ tunnel.buffer.bytes.take sent) :
    (tunnel.wrote side sent m side).written = base ++ tunnel.buffer.bytes.take (sent + m) := by
  rw [Tunnel.wrote, Function.update_self, written, List.append_assoc, ← List.take_add]

theorem Transferring.further (transferring : Transferring before side n sent tunnel)
    (more : sent + m < n) (place : TunnelPlace) :
    Transferring before side n (sent + m)
      { tunnel with place, flows := tunnel.wrote side sent m } := by
  obtain ⟨base, read, written⟩ := transferring.relayed
  refine ⟨⟨more, transferring.left.2⟩, ⟨base, ?_, wrote_written written⟩, ?_, ?_⟩
  · exact (wrote_read tunnel side side sent m).trans read
  · intro other different
    dsimp only
    rw [wrote_other tunnel different]
    exact transferring.other other different
  · simp only [wrote_read]
    exact transferring.counted

theorem Transferring.finish (transferring : Transferring before side n sent tunnel)
    (all : sent + m = n) (place : TunnelPlace) :
    Settled before
      { place
        buffer := tunnel.buffer
        stats := tunnel.stats.map fun stats => stats.count n side
        flows := tunnel.wrote side sent m } := by
  obtain ⟨base, read, written⟩ := transferring.relayed
  have some_read : n ≤ (tunnel.flows side).read.length := by
    have full := tunnel.buffer.full
    have left := transferring.left
    rw [read, List.length_append, List.length_take]
    omega
  constructor
  · intro other
    by_cases same : other = side
    · subst same
      rw [wrote_read, read, wrote_written written, all]
    · dsimp only
      rw [wrote_other tunnel same]
      exact transferring.other other same
  · simp only [wrote_read]
    rw [transferring.counted, Option.map_map]
    congr 1
    funext stats
    rw [Function.comp_apply, count_grown]
    congr 1
    funext other
    by_cases same : other = side
    · subst same
      simp [Nat.sub_add_cancel some_read]
    · simp [same]

theorem Transferring.send {upstreamReady : Bool}
    (transferring : Transferring before side n sent tunnel) {outcome : Outcome} {next : Tunnel}
    (stepped : tunnel.send side upstreamReady n sent outcome = some next) :
      Faithful before next := by
  unfold Tunnel.send at stepped
  split at stepped
  · cases stepped
    exact ⟨transferring.prefixes, fun success => absurd success (by decide)⟩
  · rename_i m
    split at stepped
    · rename_i size
      split at stepped
      · rename_i more
        cases stepped
        exact transferring.further more _
      · rename_i finished
        have left := transferring.left
        have settled := transferring.finish (m := m) (by omega)
        cases stepped
        cases side with
        | client =>
          cases upstreamReady with
          | true => exact settled _
          | false => exact settled _
        | upstream => exact settled _
    · cases stepped
  · cases stepped

end Sending

theorem Faithful.step (faithful : Faithful before tunnel) {outcome : Outcome} {next : Tunnel}
    (stepped : tunnel.step outcome = some next) : Faithful before next := by
  unfold Tunnel.step at stepped
  unfold Faithful at faithful
  split at stepped
  · rename_i selecting
    rw [selecting] at faithful
    exact faithful.select selecting stepped
  · rename_i receiving
    rw [receiving] at faithful
    exact faithful.recv stepped
  · rename_i sending
    rw [sending] at faithful
    exact faithful.send stepped
  · cases stepped

end Steps

/-- Whatever the system calls return, in each direction the bytes written are the first
ones read, and when `proxy_tunnel` returns 0 everything read has been written and counted. -/
theorem tunnel_faithful {buffer : CharArray tunnelBufferSize}
    {before : Option ProxyStats} {tunnel : Tunnel}
    (reached : Machine.Arrives Tunnel.step (fun _ _ => True) (.started buffer before) tunnel) :
    (∀ side, (tunnel.flows side).written <+: (tunnel.flows side).read) ∧
      (tunnel.place = .returned 0 →
        (∀ side, (tunnel.flows side).written = (tunnel.flows side).read) ∧
        tunnel.stats = before.map fun stats => stats.grown fun side =>
          (tunnel.flows side).written.length) := by
  have faithful : Faithful before tunnel := by
    apply reached.keeps
    · refine ⟨fun side => rfl, ?_⟩
      cases before with
      | none => rfl
      | some stats => simp [Tunnel.started, ProxyStats.grown]
    · intro state outcome next kept _ stepped
      exact kept.step stepped
  refine ⟨faithful.prefixes, ?_⟩
  intro success
  rw [Faithful, success] at faithful
  have settled := faithful.2 rfl
  refine ⟨settled.written, ?_⟩
  rw [settled.counted]
  simp only [settled.written]

/-- Two bytes of the client, written in two pieces, and four of the upstream server. -/
theorem tunnel_faithful_both :
    ∃ tunnel : Tunnel, tunnel.place = .returned 0 ∧
      tunnel.flows .client = ⟨text "hi", text "hi"⟩ ∧
      tunnel.flows .upstream = ⟨text "abcd", text "abcd"⟩ ∧
      (∀ side, (tunnel.flows side).written = (tunnel.flows side).read) ∧
      tunnel.stats = some ⟨1, 1, 2, 4, 0, 0, 0⟩ := by
  have ran : Machine.follow Tunnel.step
      (.started (.ofBytes tunnelBufferSize []) (some ⟨1, 1, 0, 0, 0, 0, 0⟩))
      [.ready true true, .received (text "hi"), .sent 1, .sent 1, .received (text "abc"), .sent 3,
        .interrupted, .ready false true, .received (text "d"), .sent 1, .timeout] = some _ := rfl
  have reached := Machine.Arrives.start.follow (fun _ _ _ => trivial) ran
  obtain ⟨whole, counted⟩ := (tunnel_faithful reached).2 rfl
  exact ⟨_, rfl, rfl, rfl, whole, counted⟩

end LinuxCLearning.NetworkProxy
