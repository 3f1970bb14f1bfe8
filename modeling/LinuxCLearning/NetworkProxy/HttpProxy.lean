import LinuxCLearning.Base.Ctype

/-! The request that the proxy sends to the upstream server in place of the one it got
from the client. -/

namespace LinuxCLearning.NetworkProxy

def maxRequestSize : Nat := 8192

def maxUrlLength : Nat := 2048

def maxHostLength : Nat := 256

def proxyPathLength : Nat := 1024

/-- The words that `proxy_parse_request_line` stores. -/
structure RequestLine where
  method : Bytes
  url : Bytes
  version : Bytes
  deriving DecidableEq

/-- `proxy_parse_request_line`; `none` is the result `-1`. -/
def proxyParseRequestLine (request : CString) : Option RequestLine := do
  let (method, afterMethod) ← scanWord 15 request.bytes
  let (url, afterUrl) ← scanWord (maxUrlLength - 1) afterMethod
  let (version, _) ← scanWord 15 afterUrl
  return ⟨method, url, version⟩

/-- What `proxy_parse_url` stores. -/
structure ProxyUrl where
  host : Bytes
  port : UInt16
  path : Bytes
  deriving DecidableEq

/-- The URL behind the protocol. -/
def withoutProtocol (url : Bytes) : Bytes :=
  if text "http://" <+: url then url.drop 7
  else if text "https://" <+: url then url.drop 8
  else url

/-- `*port = atoi(port_str)`. -/
def portOf (digits : Bytes) : UInt16 := UInt16.ofNat (atoi digits % 2 ^ 16).toNat

/-- `proxy_parse_url`; `none` is the result `-1`. -/
def proxyParseUrl (url : Bytes) : Option ProxyUrl :=
  let start := withoutProtocol url
  let host := start.takeWhile fun byte => byte != 58 && byte != 47
  let behindHost := start.dropWhile fun byte => byte != 58 && byte != 47
  let port :=
    if behindHost.head? = some 58 then some (behindHost.tail.takeWhile fun byte => byte != 47)
    else none
  let behindPort :=
    if behindHost.head? = some 58 then behindHost.tail.dropWhile fun byte =>
      byte != 47 else behindHost
  let path := if behindPort.head? = some 47 then behindPort.take (proxyPathLength - 1) else text "/"
  if host.length ≥ maxHostLength then none
  else match port with
    | none => some ⟨host, 80, path⟩
    | some digits => if digits.length ≥ 16 then none else some ⟨host, portOf digits, path⟩

/-- `strstr(request, "\r\n") + 2`. -/
def behindLineEnd : Bytes → Option Bytes
  | [] => none
  | 13 :: 10 :: rest => some rest
  | _ :: rest => behindLineEnd rest

/-- What `handle_http_proxy` does before the tunnel: an error page for the client, a
string longer than its buffer, or the bytes that `send` has taken for the upstream
server. -/
inductive ProxyAction where
  | badRequest
  | badGateway
  | overflow
  | forwarded (upstream : Bytes)
  deriving DecidableEq

/-- The string in `new_request`. -/
def newRequest (request : CString) (line : RequestLine) (path : Bytes) : Bytes :=
  (line.method ++ text " " ++ path ++ text " " ++ line.version ++ text "\r\n").take
    (maxRequestSize - 1) ++
    (behindLineEnd request.bytes).getD []

/-- `handle_http_proxy` up to the tunnel. A connection is given by the number of bytes that
its `send` takes at most, `none` if there is none. -/
def handleHttpProxy (connect : Bytes → UInt16 → Option Nat) (request : CString) : ProxyAction :=
  match proxyParseRequestLine request with
  | none => .badRequest
  | some line =>
    match proxyParseUrl line.url with
    | none => .badRequest
    | some url =>
      match connect url.host url.port with
      | none => .badGateway
      | some takes =>
        let message := newRequest request line url.path
        if message.length ≥ maxRequestSize then .overflow else .forwarded (message.take takes)

/-- A word without blanks and NUL. -/
def Word (word : Bytes) : Prop := word ≠ [] ∧ ∀ byte ∈ word, isspace byte = false ∧ byte ≠ 0

instance (word : Bytes) : Decidable (Word word) :=
  inferInstanceAs (Decidable (word ≠ [] ∧ ∀ byte ∈ word, isspace byte = false ∧ byte ≠ 0))

/-- A request that a client sends and the proxy reads in one piece. -/
structure ClientRequest where
  method : Bytes
  url : Bytes
  version : Bytes
  rest : Bytes
  method_word : Word method
  url_word : Word url
  version_word : Word version
  url_fits : url.length < maxUrlLength
  url_parsed : (proxyParseUrl url).isSome
  one_read : (method ++ text " " ++ url ++ text " " ++ version ++ text "\r\n" ++ rest).length <
    maxRequestSize

/-- The path of a URL, from the first slash behind the protocol on. -/
def urlPath (url : Bytes) : Bytes :=
  let path := (withoutProtocol url).dropWhile fun byte => byte != 47
  if path = [] then text "/" else path

namespace ClientRequest

/-- What the proxy receives. -/
def received (client : ClientRequest) : Bytes :=
  client.method ++ text " " ++ client.url ++ text " " ++ client.version ++
    text "\r\n" ++ client.rest

/-- What is to be sent upstream. -/
def rewritten (client : ClientRequest) : Bytes :=
  client.method ++ text " " ++ urlPath client.url ++ text " " ++ client.version ++
    text "\r\n" ++ client.rest

/-- There is a connection to the host of the URL, and it takes the whole request. -/
def Accepted (client : ClientRequest) (connect : Bytes → UInt16 → Option Nat) : Prop :=
  ∃ url takes, proxyParseUrl client.url = some url ∧ connect url.host url.port = some takes ∧
    client.rewritten.length ≤ takes

end ClientRequest

section Words

theorem Word.plain {word : Bytes} (is_word : Word word) : ∀ byte ∈ word, isspace byte = false := by
  intro byte member
  exact (is_word.2 byte member).1

theorem word_unique {first second : Bytes} (firstPlain : ∀ byte ∈ first, isspace byte = false)
    (secondPlain : ∀ byte ∈ second, isspace byte = false) {blank other : UInt8}
    (firstBlank : isspace blank = true) (secondBlank : isspace other = true) {rest tail : Bytes}
    (same : first ++ blank :: rest = second ++ other :: tail) :
      first = second ∧ blank :: rest = other :: tail := by
  have cut {word : Bytes} {stop : UInt8} (plain : ∀ byte ∈ word, isspace byte = false)
      (stops : isspace stop = true) (after : Bytes) :
          (word ++ stop :: after).takeWhile (fun byte => !isspace byte) = word := by
    apply takeWhile_stops
    · intro byte member
      rw [plain byte member]
      rfl
    · intro byte found
      cases found
      rw [stops]
      rfl
  have words : first = second := by
    rw [← cut firstPlain firstBlank rest, same, cut secondPlain secondBlank tail]
  subst words
  exact ⟨rfl, List.append_cancel_left same⟩

/-- What `sscanf` stores has no blanks and is no longer than its limit. -/
theorem scanWord_spec {limit : Nat} {input word rest : Bytes}
    (scanned : scanWord limit input = some (word, rest)) :
    word.length ≤ limit ∧ ∀ byte ∈ word, isspace byte = false := by
  simp only [scanWord] at scanned
  split at scanned
  · cases scanned
  · cases scanned
    refine ⟨List.length_take_le _ _, ?_⟩
    intro byte member
    have plain := List.mem_takeWhile_imp (List.mem_of_mem_take member)
    simpa using plain

end Words

section Url

/-- Where the path of a URL begins: the search goes on behind the host and the port. -/
theorem path_start (start : Bytes) :
    start.dropWhile (fun byte => byte != 47) =
      if (start.dropWhile fun byte => byte != 58 && byte != 47).head? = some 58 then
        (start.dropWhile fun byte => byte != 58 && byte != 47).tail.dropWhile fun byte => byte != 47
      else start.dropWhile fun byte => byte != 58 && byte != 47 := by
  have host : ∀ byte ∈ start.takeWhile (fun byte => byte != 58 && byte != 47),
      (byte != 47) = true := by
    intro byte member
    have kept := List.mem_takeWhile_imp member
    exact (Bool.and_eq_true_iff.mp kept).2
  have passed : start.dropWhile (fun byte => byte != 47) =
      (start.dropWhile fun byte => byte != 58 && byte != 47).dropWhile fun byte => byte != 47 := by
    conv_lhs => rw [← List.takeWhile_append_dropWhile (p := fun byte => byte != 58 && byte != 47)
      (l := start)]
    exact List.dropWhile_append_of_pos host
  have first := List.head?_dropWhile_not (fun byte => byte != 58 && byte != 47) start
  rw [passed]
  cases behind : start.dropWhile (fun byte => byte != 58 && byte != 47) with
  | nil => rfl
  | cons byte rest =>
    rw [behind, List.head?_cons] at first
    by_cases colon : byte = 58
    · subst colon
      rfl
    · have slash : byte = 47 := by simpa [colon] using first
      subst slash
      rfl

theorem proxyParseUrl_path {url : Bytes} {parsed : ProxyUrl}
    (read : proxyParseUrl url = some parsed) :
    parsed.path = (urlPath url).take (proxyPathLength - 1) := by
  have path : parsed.path =
      if ((withoutProtocol url).dropWhile fun byte => byte != 47).head? = some 47 then
        ((withoutProtocol url).dropWhile fun byte => byte != 47).take (proxyPathLength - 1)
      else text "/" := by
    rw [path_start]
    simp only [proxyParseUrl] at read
    split at read
    · cases read
    · split at read
      · cases read
        rfl
      · split at read
        · cases read
        · cases read
          rfl
  have first := List.head?_dropWhile_not (fun byte => byte != 47) (withoutProtocol url)
  rw [path, urlPath]
  cases rest : (withoutProtocol url).dropWhile (fun byte => byte != 47) with
  | nil => rfl
  | cons byte rest' =>
    rw [rest, List.head?_cons] at first
    obtain rfl : byte = 47 := by simpa using first
    rfl

theorem urlPath_plain {url : Bytes} (plain : ∀ byte ∈ url, isspace byte = false) :
    ∀ byte ∈ urlPath url, isspace byte = false := by
  have tail : ∀ byte ∈ withoutProtocol url, isspace byte = false := by
    intro byte member
    unfold withoutProtocol at member
    split_ifs at member
    · exact plain byte (List.mem_of_mem_drop member)
    · exact plain byte (List.mem_of_mem_drop member)
    · exact plain byte member
  intro byte member
  unfold urlPath at member
  dsimp only at member
  split at member
  · obtain rfl := List.mem_singleton.mp member
    rfl
  · exact tail byte ((List.dropWhile_sublist _).mem member)

theorem urlPath_length {url : Bytes} (some_url : url ≠ []) : (urlPath url).length ≤ url.length := by
  have shorter : (withoutProtocol url).length ≤ url.length := by
    unfold withoutProtocol
    split_ifs
    · exact List.length_drop.trans_le (Nat.sub_le _ _)
    · exact List.length_drop.trans_le (Nat.sub_le _ _)
    · exact le_refl _
  unfold urlPath
  dsimp only
  split
  · exact List.length_pos_iff.mpr some_url
  · exact (List.dropWhile_sublist _).length_le.trans shorter

end Url

section Client
variable (client : ClientRequest)

theorem received_eq : client.received =
    client.method ++ 32 :: (client.url ++ 32 :: (client.version ++ 13 :: 10 :: client.rest)) := by
  simp only [ClientRequest.received, List.append_assoc]
  rfl

theorem rewritten_eq : client.rewritten =
    client.method ++ 32 :: (urlPath client.url ++ 32 ::
      (client.version ++ 13 :: 10 :: client.rest)) := by
  simp only [ClientRequest.rewritten, List.append_assoc]
  rfl

theorem ofBuffer_received : (CString.ofBuffer client.received).bytes =
    client.method ++ 32 :: (client.url ++ 32 ::
      (client.version ++ 13 :: 10 :: client.rest.takeWhile (· ≠ 0))) := by
  have nonzero {word : Bytes} (is_word : Word word) : ∀ byte ∈ word, decide (byte ≠ 0) = true := by
    intro byte member
    exact decide_eq_true (is_word.2 byte member).2
  change client.received.takeWhile (· ≠ 0) = _
  rw [received_eq, List.takeWhile_append_of_pos (nonzero client.method_word),
    List.takeWhile_cons_of_pos (by decide),
    List.takeWhile_append_of_pos (nonzero client.url_word), List.takeWhile_cons_of_pos (by decide),
    List.takeWhile_append_of_pos (nonzero client.version_word),
    List.takeWhile_cons_of_pos (by decide),
    List.takeWhile_cons_of_pos (by decide)]

theorem behindLineEnd_plain {word : Bytes} (plain : ∀ byte ∈ word, byte ≠ 13) (rest : Bytes) :
    behindLineEnd (word ++ rest) = behindLineEnd rest := by
  induction word with
  | nil => rfl
  | cons byte word ih =>
    have other : byte ≠ 13 := plain byte List.mem_cons_self
    rw [List.cons_append, behindLineEnd]
    · exact ih fun inside member => plain inside (List.mem_cons_of_mem byte member)
    · intro after same
      exact absurd same other

theorem behindLineEnd_received :
    behindLineEnd (CString.ofBuffer client.received).bytes =
      some (client.rest.takeWhile (· ≠ 0)) := by
  have visible {word : Bytes} (is_word : Word word) : ∀ byte ∈ word, byte ≠ 13 := by
    rintro byte member rfl
    exact absurd (is_word.2 13 member).1 (by decide)
  rw [ofBuffer_received, behindLineEnd_plain (visible client.method_word)]
  rw [behindLineEnd, behindLineEnd_plain (visible client.url_word)]
  · rw [behindLineEnd, behindLineEnd_plain (visible client.version_word)]
    · rfl
    · intro after same
      exact absurd same (by decide)
  · intro after same
    exact absurd same (by decide)

/-- `sscanf` reads a word up to the blank behind it. -/
theorem scanWord_ends {word : Bytes} (is_word : Word word) {limit : Nat}
    (fits : word.length ≤ limit) {blank : UInt8} (ends : isspace blank = true) (rest : Bytes) :
    scanWord limit (word ++ blank :: rest) = some (word, blank :: rest) := by
  apply scanWord_word is_word.1 fits is_word.plain
  intro byte first
  cases first
  exact ends

theorem proxyParseRequestLine_received (method : client.method.length ≤ 15)
    (version : client.version.length ≤ 15) :
    proxyParseRequestLine (.ofBuffer client.received) =
      some ⟨client.method, client.url, client.version⟩ := by
  have url := Nat.le_sub_one_of_lt client.url_fits
  rw [proxyParseRequestLine, ofBuffer_received, scanWord_ends client.method_word method rfl]
  change Option.bind (scanWord (maxUrlLength - 1) (client.url ++ 32 :: _)) _ = _
  rw [scanWord_ends client.url_word url rfl]
  change Option.bind (scanWord 15 (client.version ++ 13 :: _)) _ = _
  rw [scanWord_ends client.version_word version rfl]
  rfl

theorem proxyParseRequestLine_spec {request : CString} {line : RequestLine}
    (parsed : proxyParseRequestLine request = some line) :
    (line.method.length ≤ 15 ∧ ∀ byte ∈ line.method, isspace byte = false) ∧
      (∀ byte ∈ line.url, isspace byte = false) ∧
      line.version.length ≤ 15 ∧ ∀ byte ∈ line.version, isspace byte = false := by
  obtain ⟨⟨method, afterMethod⟩, scannedMethod, parsed⟩ := Option.bind_eq_some_iff.mp parsed
  obtain ⟨⟨url, afterUrl⟩, scannedUrl, parsed⟩ := Option.bind_eq_some_iff.mp parsed
  obtain ⟨⟨version, afterVersion⟩, scannedVersion, parsed⟩ := Option.bind_eq_some_iff.mp parsed
  cases parsed
  exact ⟨scanWord_spec scannedMethod, (scanWord_spec scannedUrl).2, scanWord_spec scannedVersion⟩

/-- The string in `new_request`: its first line fits into the buffer. -/
theorem newRequest_eq {line : RequestLine} {path : Bytes} (method : line.method.length ≤ 15)
    (version : line.version.length ≤ 15) (short : path.length < proxyPathLength) :
    newRequest (.ofBuffer client.received) line path =
      line.method ++ 32 :: (path ++ 32 ::
        (line.version ++ 13 :: 10 :: client.rest.takeWhile (· ≠ 0))) := by
  have first : (line.method ++ text " " ++ path ++ text " " ++ line.version ++ text "\r\n").length ≤
      maxRequestSize - 1 := by
    have blank : (text " ").length = 1 := rfl
    have ending : (text "\r\n").length = 2 := rfl
    simp only [List.length_append, maxRequestSize, proxyPathLength] at short ⊢
    omega
  rw [newRequest, List.take_of_length_le first, behindLineEnd_received, Option.getD_some]
  simp only [List.append_assoc]
  rfl

theorem handleHttpProxy_forwarded {connect : Bytes → UInt16 → Option Nat} {upstream : Bytes}
    (forwards : handleHttpProxy connect (.ofBuffer client.received) = .forwarded upstream) :
    ∃ line url takes, proxyParseRequestLine (.ofBuffer client.received) = some line ∧
      proxyParseUrl line.url = some url ∧ connect url.host url.port = some takes ∧
      upstream = (newRequest (.ofBuffer client.received) line url.path).take takes := by
  unfold handleHttpProxy at forwards
  split at forwards
  · cases forwards
  · rename_i line parsed
    split at forwards
    · cases forwards
    · rename_i url read
      split at forwards
      · cases forwards
      · rename_i takes connected
        dsimp only at forwards
        split at forwards
        · cases forwards
        · cases forwards
          exact ⟨line, url, takes, parsed, read, connected, rfl⟩

/-- The words and the rest that the proxy keeps as they are. -/
def Kept : Prop :=
  client.method.length ≤ 15 ∧ client.version.length ≤ 15 ∧
    (urlPath client.url).length < proxyPathLength ∧
    0 ∉ client.rest

/-- A message that begins as the one to be sent has its words and its rest. -/
theorem rewritten_kept {line : RequestLine} {url : ProxyUrl}
    (parsed : proxyParseRequestLine (.ofBuffer client.received) = some line)
    (read : proxyParseUrl line.url = some url)
    (begins : client.rewritten <+: newRequest (.ofBuffer client.received) line url.path) :
    Kept client ∧ newRequest (.ofBuffer client.received) line url.path = client.rewritten := by
  obtain ⟨⟨method, methodPlain⟩, urlPlain, version, versionPlain⟩ :=
    proxyParseRequestLine_spec parsed
  have path := proxyParseUrl_path read
  have short : url.path.length < proxyPathLength := by
    rw [path]
    exact Nat.lt_of_le_pred (by decide) (List.length_take_le _ _)
  have pathPlain : ∀ byte ∈ url.path, isspace byte = false := by
    intro byte member
    rw [path] at member
    exact urlPath_plain urlPlain byte (List.mem_of_mem_take member)
  obtain ⟨tail, same⟩ := begins
  rw [newRequest_eq client method version short] at same ⊢
  rw [rewritten_eq, List.append_assoc, List.cons_append] at same
  obtain ⟨methodSame, same⟩ := word_unique client.method_word.plain methodPlain rfl rfl same
  rw [List.append_assoc, List.cons_append] at same
  obtain ⟨pathSame, same⟩ :=
    word_unique (urlPath_plain client.url_word.plain) pathPlain rfl rfl (List.cons.inj same).2
  rw [List.append_assoc, List.cons_append, List.cons_append] at same
  obtain ⟨versionSame, same⟩ :=
    word_unique client.version_word.plain versionPlain rfl rfl (List.cons.inj same).2
  have rest : client.rest ++ tail = client.rest.takeWhile (· ≠ 0) :=
    (List.cons.inj (List.cons.inj same).2).2
  have whole : client.rest.takeWhile (· ≠ 0) = client.rest := by
    apply (List.takeWhile_prefix _).eq_of_length_le
    rw [← rest, List.length_append]
    exact Nat.le_add_right _ _
  refine ⟨⟨?_, ?_, ?_, ?_⟩, ?_⟩
  · rw [methodSame]
    exact method
  · rw [versionSame]
    exact version
  · rw [pathSame]
    exact short
  · rw [← whole]
    exact nulFree_takeWhile client.rest
  · rw [rewritten_eq, whole, methodSame, pathSame, versionSame]

theorem newRequest_kept (kept : Kept client) {url : ProxyUrl}
    (read : proxyParseUrl client.url = some url) :
    newRequest (.ofBuffer client.received) ⟨client.method, client.url, client.version⟩ url.path =
      client.rewritten := by
  obtain ⟨method, version, short, nulFree⟩ := kept
  have path : url.path = urlPath client.url := by
    rw [proxyParseUrl_path read]
    exact List.take_of_length_le (Nat.le_sub_one_of_lt short)
  have whole : client.rest.takeWhile (· ≠ 0) = client.rest := takeWhile_whole nulFree
  rw [newRequest_eq client method version (path ▸ short), rewritten_eq, path, whole]

theorem rewritten_length : client.rewritten.length < maxRequestSize := by
  have received := client.one_read
  have path := urlPath_length client.url_word.1
  have blank : (text " ").length = 1 := rfl
  have ending : (text "\r\n").length = 2 := rfl
  simp only [ClientRequest.rewritten, List.length_append] at received ⊢
  omega

/-- The proxy sends the rewritten request upstream exactly if it keeps the words and the
rest, and the connection takes everything. -/
theorem proxied_request_iff (connect : Bytes → UInt16 → Option Nat) :
    handleHttpProxy connect (.ofBuffer client.received) = .forwarded client.rewritten ↔
      Kept client ∧ client.Accepted connect := by
  constructor
  · intro forwards
    obtain ⟨line, url, takes, parsed, read, connected, same⟩ :=
      handleHttpProxy_forwarded client forwards
    have begins : client.rewritten <+: newRequest (.ofBuffer client.received) line url.path := by
      rw [same]
      exact List.take_prefix _ _
    obtain ⟨kept, message⟩ := rewritten_kept client parsed read begins
    rw [proxyParseRequestLine_received client kept.1 kept.2.1] at parsed
    cases parsed
    refine ⟨kept, url, takes, read, connected, ?_⟩
    rw [message] at same
    rw [same]
    exact List.length_take_le _ _
  · intro ⟨kept, url, takes, read, connected, all⟩
    simp only [handleHttpProxy, proxyParseRequestLine_received client kept.1 kept.2.1, read,
      connected,
      newRequest_kept client kept read]
    rw [if_neg (not_le.mpr (rewritten_length client)), List.take_of_length_le all]

/-- A request whose body begins with a NUL. -/
def nulRequest : ClientRequest where
  method := text "POST"
  url := text "http://host/path"
  version := text "HTTP/1.1"
  rest := text "\r\n" ++ [0, 1]
  method_word := by decide +kernel
  url_word := by decide +kernel
  version_word := by decide +kernel
  url_fits := by decide
  url_parsed := by decide
  one_read := by decide

/-- The body of a request is cut at a NUL. -/
theorem body_cut_at_nul :
    handleHttpProxy (fun _ _ => some 8192) (.ofBuffer nulRequest.received) =
      .forwarded (text "POST /path HTTP/1.1\r\n\r\n") ∧
    handleHttpProxy (fun _ _ => some 8192) (.ofBuffer nulRequest.received) ≠
      .forwarded nulRequest.rewritten := by
  decide +kernel

end Client

end LinuxCLearning.NetworkProxy
