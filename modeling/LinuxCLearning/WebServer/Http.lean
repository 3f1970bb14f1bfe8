import LinuxCLearning.Base.Ctype

/-! The requests of the web server: how one is parsed and what `handle_client`
answers it with. A text is given by the bytes before its terminator. -/

namespace LinuxCLearning.WebServer

/-- `http_method_t`. -/
inductive HttpMethod where
  | get | post | put | delete | head | options | unknown
  deriving DecidableEq

/-- `http_version_t`. -/
inductive HttpVersion where
  | http10 | http11 | unknown
  deriving DecidableEq

/-- The fields of `http_headers_t` that the parser sets. -/
@[ext] structure HttpHeaders where
  host : Option Bytes
  userAgent : Option Bytes
  accept : Option Bytes
  connection : Option Bytes
  contentType : Option Bytes
  contentLength : Option Bytes
  cookie : Option Bytes
  authorization : Option Bytes
  keepAlive : Bool
  deriving DecidableEq

/-- `http_request_t`. -/
structure HttpRequest where
  method : HttpMethod
  version : HttpVersion
  path : CString
  queryString : Option Bytes
  headers : HttpHeaders
  body : Option Bytes
  bodyLength : Nat
  deriving DecidableEq

def maxPathLength : Nat := 1024

/-- The size of the line buffers of `http_request_parse`. -/
def lineSize : Nat := 2048

def httpMethodName : HttpMethod → Bytes
  | .get => text "GET"
  | .post => text "POST"
  | .put => text "PUT"
  | .delete => text "DELETE"
  | .head => text "HEAD"
  | .options => text "OPTIONS"
  | .unknown => text "UNKNOWN"

def httpMethodParse (name : Bytes) : HttpMethod :=
  if name = text "GET" then .get
  else if name = text "POST" then .post
  else if name = text "PUT" then .put
  else if name = text "DELETE" then .delete
  else if name = text "HEAD" then .head
  else if name = text "OPTIONS" then .options
  else .unknown

/-- The value of a hexadecimal digit. -/
def hexDigit (byte : UInt8) : Option Nat :=
  if 48 ≤ byte ∧ byte ≤ 57 then some (byte.toNat - 48)
  else if 97 ≤ byte ∧ byte ≤ 102 then some (byte.toNat - 87)
  else if 65 ≤ byte ∧ byte ≤ 70 then some (byte.toNat - 55)
  else none

/-- `(char)strtol(hex, NULL, 16)` of two bytes: blanks and a sign may stand before the
digits, and a prefix `0x` has no room for a digit behind it. -/
def hexPair (first second : UInt8) : UInt8 :=
  let trimmed := [first, second].dropWhile isspace
  let unsigned :=
    if trimmed.head? = some 45 ∨ trimmed.head? = some 43 then trimmed.tail else trimmed
  let digits := unsigned.takeWhile fun byte => (hexDigit byte).isSome
  let magnitude := digits.foldl (fun value digit => value * 16 + (hexDigit digit).getD 0) 0
  if trimmed.head? = some 45 then -UInt8.ofNat magnitude else UInt8.ofNat magnitude

/-- The bytes that `http_url_decode` writes before the terminator, for `room + 1` bytes
of `dst`. -/
def httpUrlDecode : (room : Nat) → (src : Bytes) → Bytes
  | 0, _ => []
  | _, [] => []
  | room + 1, 37 :: first :: second :: rest => hexPair first second :: httpUrlDecode room rest
  | room + 1, byte :: rest => (if byte = 43 then 32 else byte) :: httpUrlDecode room rest

def HttpHeaders.empty : HttpHeaders :=
  ⟨none, none, none, none, none, none, none, none, false⟩

/-- `parse_request_line`: `none` is the result `-1`. -/
def parseRequestLine (line : Bytes) : Option HttpRequest := do
  let (method, afterMethod) ← scanWord 15 line
  let (target, afterTarget) ← scanWord (maxPathLength - 1) afterMethod
  let (version, _) ← scanWord 15 afterTarget
  if httpMethodParse method = .unknown then none
  else
    let path := target.takeWhile (· ≠ 63)
    some {
      method := httpMethodParse method
      version :=
        if version = text "HTTP/1.0" then .http10
        else if version = text "HTTP/1.1" then .http11
        else .unknown
      path := CString.ofBuffer (httpUrlDecode (maxPathLength - 1) path)
      queryString := if 63 ∈ target then some (target.drop (path.length + 1)) else none
      headers := .empty
      body := none
      bodyLength := 0 }

/-- The field that `parse_header` sets for a key in lower case. -/
def storeHeader (key value : Bytes) (headers : HttpHeaders) : HttpHeaders :=
  if key = text "host" then { headers with host := some value }
  else if key = text "user-agent" then { headers with userAgent := some value }
  else if key = text "accept" then { headers with accept := some value }
  else if key = text "connection" then
    { headers with
      connection := some value
      keepAlive := if sameIgnoringCase value (text "keep-alive") then true else headers.keepAlive }
  else if key = text "content-type" then { headers with contentType := some value }
  else if key = text "content-length" then { headers with contentLength := some value }
  else if key = text "cookie" then { headers with cookie := some value }
  else if key = text "authorization" then { headers with authorization := some value }
  else headers

/-- `sscanf(line, "%255[^:]: %1023[^\r\n]", key, value)` when it returns 2. -/
def scanHeader (line : Bytes) : Option (Bytes × Bytes) := do
  let (key, afterKey) ← scanSet 255 (fun byte => byte != 58) line
  if afterKey.head? = some 58 then
    let (value, _) ← scanSet 1023 (fun byte => byte != 13 && byte != 10)
      (afterKey.tail.dropWhile isspace)
    return (key, value)
  else none

/-- `parse_header`; a line that it cannot read changes nothing. -/
def parseHeader (line : Bytes) (headers : HttpHeaders) : HttpHeaders :=
  match scanHeader line with
  | none => headers
  | some (key, value) => storeHeader (key.map tolower) (value.dropWhile (· = 32)) headers

/-- `strstr(data, "\r\n")`: the bytes before the line end and those behind it. -/
def lineEnd : Bytes → Option (Bytes × Bytes)
  | [] => none
  | 0 :: _ => none
  | 13 :: 10 :: rest => some ([], rest)
  | byte :: rest => (lineEnd rest).map fun found => (byte :: found.1, found.2)

theorem lineEnd_length {data line rest : Bytes} (found : lineEnd data = some (line, rest)) :
    data.length = line.length + rest.length + 2 := by
  fun_induction lineEnd data generalizing line rest with
  | case1 => cases found
  | case2 => cases found
  | case3 after =>
    cases found
    simp
  | case4 byte data _ _ ih =>
    obtain ⟨⟨before, behind⟩, inside, same⟩ := Option.map_eq_some_iff.mp found
    cases same
    have shorter := ih inside
    simp only [List.length_cons]
    omega

/-- The loop of `http_request_parse` over the header lines: the fields and where it
stops. -/
def parseHeaders (headers : HttpHeaders) (position : Bytes) : HttpHeaders × Bytes :=
  if position.headD 0 = 0 ∨ position.headD 0 = 13 then (headers, position)
  else match _found : lineEnd position with
    | none => (headers, position)
    | some (line, rest) =>
      if line.length ≥ lineSize then (headers, position)
      else parseHeaders (parseHeader line headers) rest
termination_by position.length
decreasing_by
  have length := lineEnd_length _found
  omega

/-- The end of `http_request_parse`: the body, as long as `Content-Length` says. -/
def parseBody (request : HttpRequest) (position : Bytes) : HttpRequest :=
  match request.headers.contentLength with
  | none => request
  | some value =>
    let contentLen := (atoi value % 2 ^ 64).toNat
    if 0 < contentLen ∧ contentLen ≤ position.length then
      { request with body := some (position.take contentLen), bodyLength := contentLen }
    else request

/-- `http_request_parse` of `data` with a terminator behind it: `none` is the result `-1`. -/
def httpRequestParse (data : Bytes) : Option HttpRequest := do
  let (line, rest) ← lineEnd data
  if line.length ≥ lineSize then none
  else
    let request ← parseRequestLine line
    let (headers, position) := parseHeaders request.headers rest
    let bodyStart := if [13, 10] <+: position then position.drop 2 else position
    return parseBody { request with headers := headers } bodyStart

/-- An entry of the routing table; what its handler answers is not modelled. -/
structure HttpRoute where
  method : HttpMethod
  pattern : CString
  deriving DecidableEq

/-- What `handle_client` reads of the server: it has no use for the other options, and
answers the same with and without directory listing. -/
structure HttpServer where
  documentRoot : CString
  indexFile : CString
  routes : List HttpRoute

/-- What `stat` says a path is. -/
inductive FileKind where
  | regular | directory | other
  deriving DecidableEq

/-- The statuses of the error pages of `handle_client`. -/
inductive HttpStatus where
  | badRequest | forbidden | notFound
  deriving DecidableEq

/-- What `handle_client` sends: an error page, the answer of a route, or the file that
`http_send_file` opens. -/
inductive Reply where
  | error (status : HttpStatus)
  | routed (route : HttpRoute)
  | file (path : Bytes)
  deriving DecidableEq

/-- `snprintf(file_path, sizeof(file_path), "%s%s", document_root, path)`. -/
def HttpServer.filePath (server : HttpServer) (path : CString) : Bytes :=
  (server.documentRoot.bytes ++ path.bytes).take (maxPathLength - 1)

/-- `snprintf(index_path, sizeof(index_path), "%s/%s", file_path, index_file)`. -/
def HttpServer.indexPath (server : HttpServer) (path : CString) : Bytes :=
  (server.filePath path ++ text "/" ++ server.indexFile.bytes).take (maxPathLength - 1)

def HttpServer.routeFor (server : HttpServer) (request : HttpRequest) : Option HttpRoute :=
  server.routes.find? fun route =>
    decide (route.method = request.method ∧ route.pattern = request.path)

/-- The end of the static part: the file, if it is a regular one. -/
def sendIfRegular (stat : Bytes → Option FileKind) (path : Bytes) : Reply :=
  if stat path = some .regular then .file path else .error .notFound

/-- The static part of `handle_client`. A directory without index file is answered
twice. -/
def serveStatic (server : HttpServer) (stat : Bytes → Option FileKind) (path : CString) :
    List Reply :=
  if stat (server.filePath path) = some .directory then
    if (stat (server.indexPath path)).isSome then [sendIfRegular stat (server.indexPath path)]
    else [.error .forbidden, sendIfRegular stat (server.filePath path)]
  else [sendIfRegular stat (server.filePath path)]

/-- `handle_client` on what `recv` returned. -/
def handleClient (server : HttpServer) (stat : Bytes → Option FileKind) (received : Bytes) :
    List Reply :=
  if received = [] then []
  else match httpRequestParse received with
    | none => [.error .badRequest]
    | some request =>
      match server.routeFor request with
      | some route => [.routed route]
      | none => serveStatic server stat request.path

end LinuxCLearning.WebServer
