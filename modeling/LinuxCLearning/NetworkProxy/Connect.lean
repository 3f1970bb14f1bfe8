import LinuxCLearning.NetworkProxy.HttpProxy

/-! The target of a CONNECT request. `handle_connect` copies the host by itself, into an
array whose last byte it never writes. -/

namespace LinuxCLearning.NetworkProxy

/-- The part of a target before its first `:`. -/
def hostPart (target : Bytes) : Bytes := target.takeWhile (· != 58)

/-- The port behind the first `:`. -/
def connectPort (target : Bytes) : UInt16 :=
  match target.dropWhile (· != 58) with
  | [] => 443
  | _ :: digits => portOf digits

/-- `strncpy(host, source, sizeof(host) - 1)`: the last byte stays as it was on the stack. -/
def copyHost (stack : CharArray maxHostLength) (source : Bytes) : CharArray maxHostLength :=
  .ofBytes maxHostLength (source.takeD (maxHostLength - 1) 0 ++
    stack.bytes.drop (maxHostLength - 1))

/-- The string that begins at an array, if it ends within it. -/
def stringWithin {size : Nat} (array : CharArray size) : Option CString :=
  if array.bytes.contains 0 then some (.ofBuffer array.bytes) else none

/-- What `handle_connect` does before the tunnel: an error page for the client, a host that
does not end within its array, or a connection to a host. -/
inductive ConnectAction where
  | badRequest
  | unterminated
  | badGateway
  | connected (host : CString) (port : UInt16)
  deriving DecidableEq

/-- `handle_connect` up to the tunnel, with the hosts that can be connected to and what is
in the array `host` before. -/
def handleConnect (connect : Bytes → UInt16 → Bool) (stack : CharArray maxHostLength)
    (request : CString) :
    ConnectAction :=
  match proxyParseRequestLine request with
  | none => .badRequest
  | some line =>
    match stringWithin (copyHost stack (hostPart line.url)) with
    | none => .unterminated
    | some host =>
      if connect host.bytes (connectPort line.url) then .connected host (connectPort line.url)
      else .badGateway

/-- The array holds the host with a terminator behind it. -/
def HostKept (stack : CharArray maxHostLength) (target : Bytes) : Prop :=
  (hostPart target).length < maxHostLength - 1 ∨
    (hostPart target).length = maxHostLength - 1 ∧ stack.bytes.drop (maxHostLength - 1) = [0]

/-- `handle_connect` answers with an error or connects to the host part of the target, and
it takes each host part that `proxy_parse_url` takes. -/
structure ConnectsExactly (stack : CharArray maxHostLength) (request : CString) (target : Bytes) :
    Prop where
  error_or_host : ∀ connect : Bytes → UInt16 → Bool,
    handleConnect connect stack request = .badRequest ∨
      handleConnect connect stack request = .badGateway ∨
      ∃ host port, handleConnect connect stack request = .connected host port ∧
        host.bytes = hostPart target
  as_parsed : ∀ port, proxyParseUrl (text "http://" ++ hostPart target) =
    some ⟨hostPart target, port, text "/"⟩ →
    ∃ host, handleConnect (fun _ _ => true) stack request = .connected host (connectPort target) ∧
      host.bytes = hostPart target

section Copy
variable (stack : CharArray maxHostLength)

theorem stack_last : ∃ last, stack.bytes.drop (maxHostLength - 1) = [last] := by
  apply List.length_eq_one_iff.mp
  rw [List.length_drop, stack.full]
  rfl

theorem copyHost_bytes (source : Bytes) :
    (copyHost stack source).bytes = source.takeD (maxHostLength - 1) 0 ++ stack.bytes.drop
      (maxHostLength - 1) := by
  have size : (source.takeD (maxHostLength - 1) 0 ++ stack.bytes.drop (maxHostLength - 1)).length =
      maxHostLength := by
    rw [List.length_append, List.takeD_length, List.length_drop, stack.full]
    rfl
  change List.takeD maxHostLength _ 0 = _
  rw [List.takeD_eq_take 0 size.ge, List.take_of_length_le size.le]

/-- A host that leaves a zero of `strncpy` behind it. -/
theorem stringWithin_short {source : Bytes} (nulFree : 0 ∉ source)
    (short : source.length < maxHostLength - 1) :
    stringWithin (copyHost stack source) = some ⟨source, nulFree⟩ := by
  obtain ⟨extra, size⟩ := Nat.exists_eq_add_of_lt short
  have copied : (copyHost stack source).bytes =
      source ++ 0 :: (List.replicate extra 0 ++ stack.bytes.drop (maxHostLength - 1)) := by
    rw [copyHost_bytes, size, Nat.add_assoc, CharArray.takeD_zeros,
      List.append_assoc, List.cons_append]
  have ends : (copyHost stack source).bytes.contains 0 = true := by simp [copied]
  rw [stringWithin, if_pos ends, copied]
  exact congrArg some (CString.ofBuffer_terminated ⟨source, nulFree⟩ _)

/-- A host that fills all that `strncpy` may write: the last byte of the array decides. -/
theorem stringWithin_long {source : Bytes} (nulFree : 0 ∉ source)
    (long : maxHostLength - 1 ≤ source.length) :
    stringWithin (copyHost stack source) =
      if stack.bytes.drop (maxHostLength - 1) = [0] then
        some ⟨source.take (maxHostLength - 1), fun member => nulFree (List.mem_of_mem_take member)⟩
      else none := by
  obtain ⟨last, tail⟩ := stack_last stack
  have copied : (copyHost stack source).bytes = source.take (maxHostLength - 1) ++ [last] := by
    rw [copyHost_bytes, List.takeD_eq_take 0 long, tail]
  have inside : 0 ∉ source.take (maxHostLength - 1) :=
    fun member => nulFree (List.mem_of_mem_take member)
  rw [stringWithin, tail]
  by_cases zero : last = 0
  · subst zero
    have ends : (copyHost stack source).bytes.contains 0 = true := by simp [copied]
    rw [if_pos ends, if_pos rfl, copied]
    exact congrArg some (CString.ofBuffer_terminated ⟨_, inside⟩ [])
  · have open_end : ¬ (copyHost stack source).bytes.contains 0 = true := by
      rw [copied, List.contains_iff_mem, List.mem_append, List.mem_singleton]
      rintro (member | same)
      · exact inside member
      · exact zero same.symm
    rw [if_neg open_end, if_neg fun same => zero (List.singleton_inj.mp same)]

theorem stringWithin_iff {source : Bytes} (nulFree : 0 ∉ source) :
    source.length < maxHostLength - 1 ∨ stack.bytes.drop (maxHostLength - 1) = [0] ↔
      (stringWithin (copyHost stack source)).isSome = true := by
  by_cases short : source.length < maxHostLength - 1
  · exact iff_of_true (Or.inl short)
      (Option.isSome_of_eq_some (stringWithin_short stack nulFree short))
  · rw [stringWithin_long stack nulFree (not_lt.mp short)]
    by_cases zero : stack.bytes.drop (maxHostLength - 1) = [0]
    · simp [zero]
    · simp [zero, short]

end Copy

section Target
variable {request : CString} {line : RequestLine}

theorem target_nulFree (parsed : proxyParseRequestLine request = some line) :
    0 ∉ hostPart line.url := by
  obtain ⟨⟨method, afterMethod⟩, scannedMethod, parsed⟩ := Option.bind_eq_some_iff.mp parsed
  obtain ⟨⟨url, afterUrl⟩, scannedUrl, parsed⟩ := Option.bind_eq_some_iff.mp parsed
  obtain ⟨⟨version, afterVersion⟩, scannedVersion, parsed⟩ := Option.bind_eq_some_iff.mp parsed
  cases parsed
  intro member
  have inUrl := (List.takeWhile_sublist _).mem member
  exact request.nulFree (scanWord_rest scannedMethod 0 (scanWord_subset scannedUrl 0 inUrl))

/-- The host parts without a slash that `proxy_parse_url` takes. -/
theorem proxyParseUrl_host_iff {target : Bytes} (slashless : 47 ∉ hostPart target) :
    proxyParseUrl (text "http://" ++ hostPart target) = some ⟨hostPart target, 80, text "/"⟩ ↔
      (hostPart target).length < maxHostLength := by
  have plain : ∀ byte ∈ hostPart target, (byte != 58 && byte != 47) = true := by
    intro byte member
    have colon := List.mem_takeWhile_imp member
    have slash : byte ≠ 47 := fun same => slashless (same ▸ member)
    simpa using ⟨by simpa using colon, slash⟩
  have start : withoutProtocol (text "http://" ++ hostPart target) = hostPart target := by
    rw [withoutProtocol, if_pos (List.prefix_append _ _)]
    exact @List.drop_left UInt8 (text "http://") (hostPart target)
  have behind : (hostPart target).dropWhile (fun byte => byte != 58 && byte != 47) = [] :=
    List.dropWhile_eq_nil_iff.mpr plain
  simp only [proxyParseUrl, start, behind, List.takeWhile_eq_self_iff.mpr plain, List.head?_nil,
    reduceCtorEq, if_false,
    ge_iff_le]
  by_cases long : maxHostLength ≤ (hostPart target).length
  · simp [long]
  · simp [long, not_le.mp long]

/-- Every CONNECT target is answered with an error or connected to by its host part exactly
if the host part leaves room for a terminator. -/
theorem connect_target_exact_iff (stack : CharArray maxHostLength)
    (parsed : proxyParseRequestLine request = some line) :
    ConnectsExactly stack request line.url ↔ HostKept stack line.url := by
  have nulFree := target_nulFree parsed
  constructor
  · intro exactly
    by_cases short : (hostPart line.url).length < maxHostLength - 1
    · exact Or.inl short
    · have long := not_lt.mp short
      have attempt := exactly.error_or_host fun _ _ => true
      simp only [handleConnect, parsed, stringWithin_long stack nulFree long] at attempt
      by_cases zero : stack.bytes.drop (maxHostLength - 1) = [0]
      · rw [if_pos zero] at attempt
        obtain wrong | wrong | ⟨host, port, connected, same⟩ := attempt
        · cases wrong
        · cases wrong
        · cases connected
          have size := congrArg List.length same
          rw [List.length_take_of_le long] at size
          exact Or.inr ⟨size.symm, zero⟩
      · rw [if_neg zero] at attempt
        obtain wrong | wrong | ⟨_, _, wrong, _⟩ := attempt
        · cases wrong
        · cases wrong
        · cases wrong
  · intro kept
    have string : stringWithin (copyHost stack (hostPart line.url)) =
        some ⟨hostPart line.url, nulFree⟩ := by
      rcases kept with short | ⟨full, zero⟩
      · exact stringWithin_short stack nulFree short
      · rw [stringWithin_long stack nulFree full.ge, if_pos zero]
        exact congrArg some (CString.eq_of_bytes (List.take_of_length_le full.le))
    have action (connect : Bytes → UInt16 → Bool) : handleConnect connect stack request =
        if connect (hostPart line.url) (connectPort line.url) then
          .connected ⟨hostPart line.url, nulFree⟩ (connectPort line.url)
        else .badGateway := by
      simp only [handleConnect, parsed, string]
    constructor
    · intro connect
      rw [action connect]
      split
      · exact Or.inr (Or.inr ⟨_, _, rfl, rfl⟩)
      · exact Or.inr (Or.inl rfl)
    · intro port _
      exact ⟨_, action _, rfl⟩

theorem connect_target_exact_iff_port :
    ConnectsExactly (.ofBytes maxHostLength [])
      (.ofBuffer (text "CONNECT host:443 HTTP/1.1\r\n\r\n"))
      (text "host:443") :=
  (@connect_target_exact_iff _ ⟨text "CONNECT", text "host:443", text "HTTP/1.1"⟩
    _ (by decide +kernel)).mpr
    (Or.inl (by decide))

/-- A request for a host name of 300 letters. -/
def longHostRequest : Bytes :=
  text "CONNECT " ++ List.replicate 300 97 ++ text ":443 HTTP/1.1\r\n\r\n"

/-- The connection is made to the first 255 letters when the stack has a zero behind them,
and the host has no end within its array when it has not. -/
theorem long_host_shortened :
    handleConnect (fun _ _ => true) (.ofBytes maxHostLength []) (.ofBuffer longHostRequest) =
        .connected (.ofBuffer (List.replicate 255 97)) 443 ∧
      handleConnect (fun _ _ => true) (.ofBytes maxHostLength (List.replicate 256 1))
        (.ofBuffer longHostRequest) =
        .unterminated ∧
      ¬ ConnectsExactly (.ofBytes maxHostLength []) (.ofBuffer longHostRequest)
        (List.replicate 300 97 ++ text ":443") := by
  have shortened : handleConnect (fun _ _ => true) (.ofBytes maxHostLength [])
      (.ofBuffer longHostRequest) =
      .connected (.ofBuffer (List.replicate 255 97)) 443 := by
    decide +kernel
  refine ⟨shortened, by decide +kernel, ?_⟩
  intro exactly
  have attempt := exactly.error_or_host fun _ _ => true
  rw [shortened] at attempt
  obtain wrong | wrong | ⟨host, port, connected, same⟩ := attempt
  · cases wrong
  · cases wrong
  · obtain ⟨rfl, -⟩ := ConnectAction.connected.inj connected
    exact absurd (congrArg List.length same) (by decide +kernel)

end Target

end LinuxCLearning.NetworkProxy
