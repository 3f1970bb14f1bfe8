import LinuxCLearning.NetworkProxy.Connect
import LinuxCLearning.NetworkProxy.RequestBuffer
import LinuxCLearning.NetworkProxy.Tunnel

/-! One call of `handle_client`: the descriptors that it opens and closes, on every way
through its handlers. -/

namespace LinuxCLearning.NetworkProxy

inductive DescriptorCall where
  | opened (fd : Int)
  | closed (fd : Int)
  deriving DecidableEq

/-- How `proxy_connect_upstream` fares in `getaddrinfo`, `socket` and `connect`. -/
inductive Upstream where
  | unresolved
  | socketless
  | refused (fd : Int)
  | connected (fd : Int)
  deriving DecidableEq

namespace Upstream

/-- The descriptor that `proxy_connect_upstream` returns, unless it is `-1`. -/
def fd? : Upstream → Option Int
  | .connected fd => some fd
  | _ => none

/-- What `proxy_connect_upstream` does with descriptors. -/
def calls : Upstream → List DescriptorCall
  | .unresolved => []
  | .socketless => []
  | .refused fd => [.opened fd, .closed fd]
  | .connected fd => [.opened fd]

end Upstream

/-- What the system gives to one call of `handle_client`: the bytes of `recv`, if there are
any, the upstream connection and how much of a request its `send` takes, what is in `host`
and in the tunnel's buffer before they are written, and the outcomes of the tunnel's system
calls. The descriptor of the client is in use when a socket is made. -/
structure Surroundings (client : Int) where
  received : Option Bytes
  upstream : Upstream
  takes : Nat
  stack : CharArray maxHostLength
  buffer : CharArray tunnelBufferSize
  outcomes : List Outcome
  one_read : ∀ chunk, received = some chunk → 0 < chunk.length ∧ chunk.length < maxRequestSize
  in_use : .opened client ∉ upstream.calls

/-- What a call comes to: it is still in the tunnel, it has accessed memory outside of an
array, or it has returned. -/
inductive ClientResult where
  | running
  | undefined
  | returned (calls : List DescriptorCall) (stats : ProxyStats)
  deriving DecidableEq

namespace Surroundings
variable {client : Int}

/-- `proxy_tunnel` with both descriptors, and the two calls of `close` behind it. -/
def tunnelled (surroundings : Surroundings client) (fd : Int) (stats : ProxyStats) : ClientResult :=
  match Machine.follow Tunnel.step (.started surroundings.buffer (some stats))
    surroundings.outcomes with
  | some ⟨.returned _, _, some after, _⟩ =>
    .returned (surroundings.upstream.calls ++ [.closed fd, .closed client]) after
  | _ => .running

/-- `handle_http_proxy` to its end. -/
def httpProxy (surroundings : Surroundings client) (stats : ProxyStats) (request : CString) :
    ClientResult :=
  match handleHttpProxy (fun _ _ => surroundings.upstream.fd?.map fun _ => surroundings.takes)
      request,
      surroundings.upstream.fd? with
  | .badRequest, _ => .returned [.closed client] stats
  | .overflow, _ => .undefined
  | .forwarded _, some fd => surroundings.tunnelled fd stats
  | _, _ => .returned (surroundings.upstream.calls ++ [.closed client]) stats

/-- `handle_connect` to its end. -/
def connectTunnel (surroundings : Surroundings client) (stats : ProxyStats) (request : CString) :
    ClientResult :=
  match handleConnect (fun _ _ => surroundings.upstream.fd?.isSome) surroundings.stack request,
      surroundings.upstream.fd? with
  | .badRequest, _ => .returned [.closed client] stats
  | .unterminated, _ => .undefined
  | .connected _ _, some fd => surroundings.tunnelled fd stats
  | _, _ => .returned (surroundings.upstream.calls ++ [.closed client]) stats

end Surroundings

/-- A connection is counted. -/
def ProxyStats.enter (stats : ProxyStats) : ProxyStats :=
  { stats with
    totalConnections := stats.totalConnections + 1
    activeConnections := stats.activeConnections + 1 }

/-- A connection is no longer active. -/
def ProxyStats.leave (stats : ProxyStats) : ProxyStats :=
  { stats with activeConnections := stats.activeConnections - 1 }

/-- The update of the statistics when a handler has returned. -/
def ClientResult.leave : ClientResult → ClientResult
  | .returned calls stats => .returned calls stats.leave
  | result => result

/-- `handle_client`. -/
def handleClient {client : Int} (surroundings : Surroundings client) (stats : ProxyStats) :
    ClientResult :=
  match surroundings.received with
  | none => .returned [.closed client] stats
  | some chunk =>
    match scanWord 15 (CString.ofBuffer chunk).bytes with
    | none => (ClientResult.returned [] stats.enter).leave
    | some (method, _) =>
      if method = text "CONNECT" then
        (surroundings.connectTunnel stats.enter (.ofBuffer chunk)).leave
      else (surroundings.httpProxy stats.enter (.ofBuffer chunk)).leave

/-- The client and every upstream descriptor that has been opened are closed once, and the
number of active connections is what it was. -/
structure Released (client : Int) (before : ProxyStats) (calls : List DescriptorCall)
    (after : ProxyStats) : Prop where
  client_once : calls.count (.closed client) = 1
  upstream_once : ∀ fd, .opened fd ∈ calls → calls.count (.opened fd) = 1 ∧
    calls.count (.closed fd) = 1
  active : after.activeConnections = before.activeConnections

/-- A call that has not left its arrays has released everything when it returns. -/
def Balanced (client : Int) (before : ProxyStats) : ClientResult → Prop
  | .running => True
  | .undefined => False
  | .returned calls after => Released client before calls after

/-- The bytes received contain a word, and the handler that they select stays within its
arrays: the host of a CONNECT request ends within `host`, and any other request that is
forwarded is covered in `new_request`. -/
def Served {client : Int} (surroundings : Surroundings client) : Prop :=
  ∀ chunk, surroundings.received = some chunk →
    (∃ byte ∈ (CString.ofBuffer chunk).bytes, isspace byte = false) ∧
      ∀ line, proxyParseRequestLine (.ofBuffer chunk) = some line →
        if line.method = text "CONNECT" then
          (hostPart line.url).length < maxHostLength - 1 ∨
            surroundings.stack.bytes.drop (maxHostLength - 1) = [0]
        else ∀ url, proxyParseUrl line.url = some url → surroundings.upstream.fd?.isSome →
          LineCovered (.ofBuffer chunk) line url.path

section Tunnels

theorem Tunnel.step_active {tunnel next : Tunnel} {outcome : Outcome}
    (stepped : tunnel.step outcome = some next) :
    next.stats.map ProxyStats.activeConnections =
      tunnel.stats.map ProxyStats.activeConnections := by
  unfold Tunnel.step at stepped
  split at stepped
  · unfold Tunnel.select at stepped
    split at stepped <;> cases stepped <;> rfl
  · unfold Tunnel.recv at stepped
    split at stepped
    · cases stepped
      rfl
    · split at stepped <;> cases stepped
      rfl
    · cases stepped
  · rename_i side _ n _ _
    have counted (stats : Option ProxyStats) :
        (stats.map fun stats => stats.count n side).map ProxyStats.activeConnections =
          stats.map ProxyStats.activeConnections := by
      cases side <;> cases stats <;> rfl
    unfold Tunnel.send at stepped
    split at stepped
    · cases stepped
      rfl
    · split at stepped
      · split at stepped
        · cases stepped
          rfl
        · cases stepped
          exact counted _
      · cases stepped
    · cases stepped
  · cases stepped

end Tunnels

section Descriptors
variable {client : Int} {surroundings : Surroundings client} {before after : ProxyStats}

/-- Only the client is closed. -/
theorem released_client (same : after.activeConnections = before.activeConnections) :
    Released client before [.closed client] after :=
  ⟨by simp, by simp, same⟩

theorem released_gateway (failed : surroundings.upstream.fd? = none)
    (same : after.activeConnections = before.activeConnections) :
    Released client before (surroundings.upstream.calls ++ [.closed client]) after := by
  have in_use := surroundings.in_use
  cases shape : surroundings.upstream with
  | unresolved => exact released_client same
  | socketless => exact released_client same
  | refused fd =>
    have other : client ≠ fd := by
      rintro rfl
      exact in_use (by simp [shape, Upstream.calls])
    refine ⟨?_, ?_, same⟩
    · simp [Upstream.calls, other.symm]
    · intro opened member
      obtain rfl : opened = fd := by simpa [Upstream.calls] using member
      simp [Upstream.calls, other]
  | connected fd =>
    rw [shape] at failed
    cases failed

theorem released_tunnel {fd : Int} (connected : surroundings.upstream.fd? = some fd)
    (same : after.activeConnections = before.activeConnections) :
    Released client before (surroundings.upstream.calls ++ [.closed fd, .closed client]) after := by
  have in_use := surroundings.in_use
  cases shape : surroundings.upstream with
  | connected made =>
    rw [shape] at connected
    obtain rfl := Option.some.inj connected
    have other : client ≠ made := by
      rintro rfl
      exact in_use (by simp [shape, Upstream.calls])
    refine ⟨?_, ?_, same⟩
    · simp [Upstream.calls, other.symm]
    · intro opened member
      obtain rfl : opened = made := by simpa [Upstream.calls] using member
      simp [Upstream.calls, other]
  | _ =>
    rw [shape] at connected
    cases connected

theorem leave_active {entered : ProxyStats}
    (same : entered.activeConnections = before.enter.activeConnections) :
    entered.leave.activeConnections = before.activeConnections := by
  change entered.activeConnections - 1 = before.activeConnections
  rw [same]
  exact add_sub_cancel_right before.activeConnections 1

theorem tunnelled_balanced {fd : Int} (connected : surroundings.upstream.fd? = some fd) :
    Balanced client before (surroundings.tunnelled fd before.enter).leave := by
  unfold Surroundings.tunnelled
  split
  · rename_i result buffer after flows ran
    have kept : ∀ (tunnel : Tunnel) (outcome : Outcome) (next : Tunnel),
        tunnel.stats.map ProxyStats.activeConnections =
          (some before.enter).map ProxyStats.activeConnections →
        tunnel.step outcome = some next →
        next.stats.map ProxyStats.activeConnections =
            (some before.enter).map ProxyStats.activeConnections :=
      fun _ _ _ same stepped => (Tunnel.step_active stepped).trans same
    have active := Machine.follow_keeps kept rfl ran
    exact released_tunnel connected (leave_active (Option.some.inj active))
  · trivial

/-- The proxy answers with 502 when it has no descriptor of the upstream server. -/
theorem handleHttpProxy_unconnected {request : CString} :
    handleHttpProxy (fun _ _ => surroundings.upstream.fd?.map fun _ => surroundings.takes) request =
      .badGateway →
      surroundings.upstream.fd? = none := by
  unfold handleHttpProxy
  intro gateway
  split at gateway
  · cases gateway
  · split at gateway
    · cases gateway
    · split at gateway
      · rename_i missing
        exact Option.map_eq_none_iff.mp missing
      · dsimp only at gateway
        split at gateway <;> cases gateway

/-- `handle_http_proxy` releases everything unless it overruns `new_request`. -/
theorem httpProxy_balanced_iff {request : CString} (one_read : request.length < maxRequestSize) :
    Balanced client before (surroundings.httpProxy before.enter request).leave ↔
      ∀ line, proxyParseRequestLine request = some line → ∀ url, proxyParseUrl line.url = some url →
        surroundings.upstream.fd?.isSome → LineCovered request line url.path := by
  have overflow := @handleHttpProxy_overflow
    (fun _ _ => surroundings.upstream.fd?.map fun _ => surroundings.takes) request one_read
  have covered : handleHttpProxy (fun _ _ => surroundings.upstream.fd?.map fun _ =>
      surroundings.takes) request ≠ .overflow ↔
      ∀ line, proxyParseRequestLine request = some line → ∀ url, proxyParseUrl line.url = some url →
        surroundings.upstream.fd?.isSome → LineCovered request line url.path := by
    rw [ne_eq, overflow]
    constructor
    · intro fits line parsed url read connected
      obtain ⟨fd, connected⟩ := Option.isSome_iff_exists.mp connected
      by_contra uncovered
      exact fits ⟨line, url, surroundings.takes, parsed, read, by rw [connected]; rfl, uncovered⟩
    · rintro covered ⟨line, url, takes, parsed, read, connected, uncovered⟩
      refine uncovered (covered line parsed url read ?_)
      obtain ⟨fd, found, -⟩ := Option.map_eq_some_iff.mp connected
      exact Option.isSome_of_eq_some found
  have unconnected := @handleHttpProxy_unconnected client surroundings request
  rw [← covered]
  unfold Surroundings.httpProxy
  generalize handleHttpProxy _ request = action at unconnected ⊢
  cases action with
  | badRequest => exact iff_of_true (released_client (leave_active rfl)) nofun
  | badGateway => exact iff_of_true (released_gateway (unconnected rfl) (leave_active rfl)) nofun
  | overflow => exact iff_of_false id fun fits => fits rfl
  | forwarded upstream =>
    refine iff_of_true ?_ nofun
    cases found : surroundings.upstream.fd? with
    | none => exact released_gateway found (leave_active rfl)
    | some fd => exact tunnelled_balanced found

/-- `handle_connect` releases everything unless the host has no end within its array. -/
theorem connectTunnel_balanced_iff {request : CString} :
    Balanced client before (surroundings.connectTunnel before.enter request).leave ↔
      ∀ line, proxyParseRequestLine request = some line →
        (hostPart line.url).length < maxHostLength - 1 ∨
          surroundings.stack.bytes.drop (maxHostLength - 1) = [0] := by
  unfold Surroundings.connectTunnel handleConnect
  cases parsed : proxyParseRequestLine request with
  | none => exact iff_of_true (released_client (leave_active rfl)) nofun
  | some line =>
    simp only [Option.some.injEq, forall_eq', stringWithin_iff surroundings.stack
      (target_nulFree parsed)]
    cases stringWithin (copyHost surroundings.stack (hostPart line.url)) with
    | none => exact iff_of_false id nofun
    | some host =>
      refine iff_of_true ?_ rfl
      cases found : surroundings.upstream.fd? with
      | none => exact released_gateway found (leave_active rfl)
      | some fd => exact tunnelled_balanced found

end Descriptors

/-- The method of a parsed request line is the word that selects the handler. -/
theorem proxyParseRequestLine_method {request : CString} {line : RequestLine}
    (parsed : proxyParseRequestLine request = some line) {method rest : Bytes}
    (scanned : scanWord 15 request.bytes = some (method, rest)) : line.method = method := by
  obtain ⟨⟨first, afterMethod⟩, scannedMethod, parsed⟩ := Option.bind_eq_some_iff.mp parsed
  obtain ⟨_, _, parsed⟩ := Option.bind_eq_some_iff.mp parsed
  obtain ⟨_, _, parsed⟩ := Option.bind_eq_some_iff.mp parsed
  cases parsed
  exact (Prod.mk.inj (Option.some.inj (scannedMethod.symm.trans scanned))).1

/-- Three blanks from the client; everything else fails. -/
def blankRequest : Surroundings 5 where
  received := some (text "   ")
  upstream := .unresolved
  takes := 0
  stack := .ofBytes maxHostLength []
  buffer := .ofBytes tunnelBufferSize []
  outcomes := []
  one_read := by
    rintro chunk ⟨⟩
    decide
  in_use := by decide

end LinuxCLearning.NetworkProxy
