import LinuxCLearning.Base.Framing
import LinuxCLearning.Base.JsonObject
import LinuxCLearning.FileServer.FilesJson
import LinuxCLearning.FileServer.HttpRequest
import LinuxCLearning.FileServer.Messages
import LinuxCLearning.FileServer.SharedStats
import LinuxCLearning.WebServer.Response

/-! The admin interface: one request for each connection, answered with a page or a JSON text. -/

namespace LinuxCLearning.FileServer

open Proc

/-- `http_response_t`, with the memory from `body` on. -/
structure HttpResponse where
  statusCode : Int32
  contentType : CString
  body : Option Bytes
  bodyLen : Int32

/-- The word behind the status code. -/
def statusText (statusCode : Int32) : Bytes :=
  if statusCode = 200 then text "OK"
  else if statusCode = 400 then text "Bad Request"
  else if statusCode = 404 then text "Not Found"
  else if statusCode = 500 then text "Internal Server Error"
  else text "OK"

/-- What `http_send_response` prints into `header`. -/
def responseHead (statusCode : Int32) (contentType : Bytes) (bodyLen : Int32) : Bytes :=
  text "HTTP/1.1 " ++ signedDecimal statusCode.toInt ++ text " " ++ statusText statusCode ++
    text "\r\nContent-Type: " ++ contentType ++ text "\r\nContent-Length: " ++
      signedDecimal bodyLen.toInt ++
    text "\r\nConnection: close\r\n\r\n"

/-- `sizeof(header)`. -/
def headerSize : Nat := 512

/-- The second loop of `http_send_response`; both are loops of `send_all`. -/
def sendBody {σ : Type} : (body : Option Bytes) → (bodyLen : Int32) → Proc UInt8 σ Bool
  | some body, bodyLen =>
    if 0 < bodyLen then sendAll (body.take bodyLen.toNatClampNeg) else .done true
  | none, _ => .done true

/-- `http_send_response`. -/
def httpSendResponse {σ : Type} (response : HttpResponse) : Proc UInt8 σ Bool :=
  let header := responseHead response.statusCode response.contentType.bytes response.bodyLen
  if header.length ≥ headerSize then .done false
  else sendAll header >>= fun sent => if sent then sendBody response.body response.bodyLen
    else .done false

/-- The response of `http_send_json` and `http_send_html`. -/
def typedResponse (contentType : CString) (status : Int32) (body : CString) : HttpResponse :=
  ⟨status, contentType, some body.bytes, Int32.ofNat body.length⟩

def jsonType : CString := ⟨text "application/json", by decide⟩

def htmlType : CString := ⟨text "text/html", by decide⟩

def httpSendJson {σ : Type} (status : Int32) (json : CString) : Proc UInt8 σ Bool :=
  httpSendResponse (typedResponse jsonType status json)

def httpSendHtml {σ : Type} (status : Int32) (html : CString) : Proc UInt8 σ Bool :=
  httpSendResponse (typedResponse htmlType status html)

/-- What the interface reads of `server_context_t`. -/
structure AdminContext where
  clientCount : Int32
  port : Int32
  threadNum : Int32
  maxClients : Int32
  bufferSize : Int32
  sharedDir : CString
  sharedDir_fits : sharedDir.length ≤ 255
  sslEnabled : Int32

/-- What a connection finds: what `shm_get_stats` reads, if there is a segment, the server, the
files, `ADMIN_HTML`, and what the stack holds where the buffers for the texts are. -/
structure AdminHost where
  stats : Option ShmStats
  context : Option AdminContext
  system : FileSystem
  page : CString
  page_short : page.length < 2 ^ 31
  memory : Memory

/-- What `snprintf` leaves in a buffer. -/
def sprinted (size : Nat) (output : Bytes) (memory : Memory) : CString :=
  .ofBuffer ((memory.store 0 (printed size output)).load 0 size)

/-- The values that `build_stats_json` prints. -/
def currentStats (host : AdminHost) : ShmStats :=
  match host.stats with
  | some stats => stats
  | none => ⟨(host.context.map AdminContext.clientCount).getD 0, 0, 0, 0⟩

def statsText (stats : ShmStats) : Bytes :=
  text "\x7b\"client_count\":" ++ signedDecimal stats.clientCount.toInt ++
    text ",\"total_requests\":" ++ signedDecimal stats.totalRequests.toInt ++
    text ",\"total_bytes_sent\":" ++ decimal stats.totalBytesSent.toNat ++
    text ",\"total_bytes_recv\":" ++ decimal stats.totalBytesRecv.toNat ++ text "\x7d"

/-- What `handle_http_connection` sends for `/api/stats`, by `build_stats_json`. -/
def apiStatsBody (host : AdminHost) : CString :=
  sprinted 256 (statsText (currentStats host)) host.memory

/-- The text of `build_config_json`. -/
def configText : Option AdminContext → Bytes
  | none => text "\x7b\x7d"
  | some context =>
    text "\x7b\"port\":" ++ signedDecimal context.port.toInt ++
      text ",\"threads\":" ++ signedDecimal context.threadNum.toInt ++
      text ",\"max_clients\":" ++ signedDecimal context.maxClients.toInt ++
      text ",\"buffer_size\":" ++ signedDecimal context.bufferSize.toInt ++
      text ",\"shared_dir\":\"" ++ context.sharedDir.bytes ++
      text "\",\"ssl_enabled\":" ++ signedDecimal context.sslEnabled.toInt ++ text "\x7d"

/-- What it sends for `/api/config`. -/
def apiConfigBody (host : AdminHost) : CString := sprinted 512 (configText host.context) host.memory

def defaultSharedDir : CString := ⟨text "./shared", by decide⟩

/-- The request in what `recv` returns: it fails, the connection has ended, or there are bytes. -/
def requestIn : (received : Option Bytes) → Option HttpRequest
  | none => none
  | some bytes => if bytes = [] then none else parseRequestFromBuf bytes

/-- `http_parse_request` with a buffer of 4096 bytes. -/
def httpParseRequest {σ : Type} : Proc UInt8 σ (Option HttpRequest) :=
  .recv 4095 fun received => .done (requestIn received)

def badRequest : CString := ⟨text "\x7b\"error\":\"Bad request\"\x7d", by decide +kernel⟩

def notFound : CString := ⟨text "\x7b\"error\":\"Not found\"\x7d", by decide +kernel⟩

/-- The routes of `handle_http_connection`. -/
def sendRoute {σ : Type} (host : AdminHost) : Option HttpRequest → Proc UInt8 σ Bool
  | none => httpSendJson 400 badRequest
  | some request =>
    if request.method = text "GET" ∧ request.path = text "/" then httpSendHtml 200 host.page
    else if request.method = text "GET" ∧ request.path = text "/api/stats" then
      httpSendJson 200 (apiStatsBody host)
    else if request.method = text "GET" ∧ request.path = text "/api/files" then
      httpSendJson 200 (apiFilesBody
        ((host.context.map AdminContext.sharedDir).getD defaultSharedDir) host.system host.memory)
    else if request.method = text "GET" ∧ request.path = text "/api/config" then
      httpSendJson 200 (apiConfigBody host)
    else httpSendJson 404 notFound

/-- `handle_http_connection`; the state counts the calls of `close`. -/
def handleHttpConnection (host : AdminHost) : Proc UInt8 Nat Unit :=
  httpParseRequest >>= fun request => sendRoute host request >>= fun _ =>
    .act (· + 1) fun _ => .done ()

/-- A response as a reader is to understand it. -/
structure Answer where
  status : Int32
  contentType : Bytes
  contentType_plain : 13 ∉ contentType
  body : Bytes
  body_short : body.length < 2 ^ 31

def Answer.encode (answer : Answer) : Bytes :=
  responseHead answer.status answer.contentType (Int32.ofNat answer.body.length) ++ answer.body

/-- The type and the text of what is behind a path. -/
def AdminHost.resource (host : AdminHost) (path : Bytes) : Option (CString × CString) :=
  if path = text "/" then some (htmlType, host.page)
  else if path = text "/api/stats" then some (jsonType, apiStatsBody host)
  else if path = text "/api/files" then
    some (jsonType, apiFilesBody ((host.context.map AdminContext.sharedDir).getD defaultSharedDir)
      host.system host.memory)
  else if path = text "/api/config" then some (jsonType, apiConfigBody host)
  else none

/-- What a request is to be answered with: status, type and text. -/
def AdminHost.reply (host : AdminHost) (request : Option HttpRequest) : Int32 × CString × CString :=
  match request with
  | none => (400, jsonType, badRequest)
  | some request =>
    match if request.method = text "GET" then host.resource request.path else none with
    | some resource => (200, resource)
    | none => (404, jsonType, notFound)

section Replies
variable {host : AdminHost}

theorem ofBuffer_load_length (memory : Memory) (size : Nat) :
    (CString.ofBuffer (memory.load 0 size)).length ≤ size := by
  have shorter := (List.takeWhile_sublist (l := memory.load 0 size) (· ≠ 0)).length_le
  rwa [Memory.load_length] at shorter

theorem sprinted_length (size : Nat) (output : Bytes) (memory : Memory) :
    (sprinted size output memory).length ≤ size :=
  ofBuffer_load_length _ size

theorem apiFilesBody_length (sharedDir : CString) (system : FileSystem) (memory : Memory) :
    (apiFilesBody sharedDir system memory).length ≤ jsonSize := by
  unfold apiFilesBody
  exact ofBuffer_load_length _ jsonSize

theorem types_fit {type : CString} (known : type = jsonType ∨ type = htmlType) :
    13 ∉ type.bytes ∧ type.length ≤ 16 := by
  rcases known with rfl | rfl <;> decide

theorem resource_short {path : Bytes} {type body : CString}
    (found : host.resource path = some (type, body)) :
    (type = jsonType ∨ type = htmlType) ∧ body.length < 2 ^ 31 := by
  unfold AdminHost.resource at found
  split at found
  · cases found
    exact ⟨Or.inr rfl, host.page_short⟩
  · split at found
    · cases found
      exact ⟨Or.inl rfl, lt_of_le_of_lt (sprinted_length _ _ _) (by decide)⟩
    · split at found
      · cases found
        exact ⟨Or.inl rfl, lt_of_le_of_lt (apiFilesBody_length _ _ _) (by decide)⟩
      · split at found
        · cases found
          exact ⟨Or.inl rfl, lt_of_le_of_lt (sprinted_length _ _ _) (by decide)⟩
        · cases found

theorem reply_short (request : Option HttpRequest) :
    ((host.reply request).2.1 = jsonType ∨ (host.reply request).2.1 = htmlType) ∧
      (host.reply request).2.2.length < 2 ^ 31 := by
  unfold AdminHost.reply
  split
  · exact ⟨Or.inl rfl, by decide +kernel⟩
  · split
    · rename_i resource found
      split at found
      · exact resource_short found
      · cases found
    · exact ⟨Or.inl rfl, by decide +kernel⟩

end Replies

/-- The reply as a reader is to understand it. -/
def AdminHost.answer (host : AdminHost) (request : Option HttpRequest) : Answer where
  status := (host.reply request).1
  contentType := (host.reply request).2.1.bytes
  contentType_plain := (types_fit (reply_short request).1).1
  body := (host.reply request).2.2.bytes
  body_short := (reply_short request).2

section Heads

theorem responseHead_tokens (statusCode : Int32) (contentType : Bytes)
    (bodyLen : Int32) (rest : Bytes) :
    responseHead statusCode contentType bodyLen ++ rest =
      text "HTTP/1.1 " ++ (signedDecimal statusCode.toInt ++ 32 ::
        (statusText statusCode ++ (text "\r\nContent-Type: " ++
        (contentType ++ 13 :: (text "\nContent-Length: " ++ (signedDecimal bodyLen.toInt ++
          13 :: (text "\nConnection: close\r\n\r\n" ++ rest))))))) := by
  simp [responseHead, text]

theorem answer_selfDelimiting : SelfDelimiting Answer.encode := by
  have space (number : Int) : 32 ∉ signedDecimal number := fun member => by
    cases (signedDecimal_plain member).1
  have carriage (number : Int) : 13 ∉ signedDecimal number := fun member => by
    cases (signedDecimal_plain member).1
  constructor
  · intro answer
    rw [Answer.encode, responseHead_tokens]
    exact List.append_ne_nil_of_left_ne_nil (by decide) _
  · intro first second rest more same
    rw [Answer.encode, Answer.encode, List.append_assoc, List.append_assoc,
      responseHead_tokens, responseHead_tokens,
      List.append_cancel_left_eq] at same
    obtain ⟨code, same⟩ := separated_unique (space _) (space _) same
    have status := Int32.toInt_inj.mp (signedDecimal_injective code)
    rw [status, List.append_cancel_left_eq, List.append_cancel_left_eq] at same
    obtain ⟨type, same⟩ := separated_unique first.contentType_plain second.contentType_plain same
    rw [List.append_cancel_left_eq] at same
    obtain ⟨number, same⟩ := separated_unique (carriage _) (carriage _) same
    rw [List.append_cancel_left_eq] at same
    have length := signedDecimal_injective number
    rw [Int32.toInt_ofNat_of_lt first.body_short, Int32.toInt_ofNat_of_lt second.body_short,
      Int.natCast_inj] at length
    obtain ⟨body, behind⟩ := List.append_inj same length
    refine ⟨?_, behind⟩
    cases first
    cases second
    simp only [Answer.mk.injEq]
    exact ⟨status, type, body⟩

theorem responseHead_length {type : CString} (known : type = jsonType ∨ type = htmlType)
    (statusCode bodyLen : Int32) :
    (responseHead statusCode type.bytes bodyLen).length < headerSize := by
  have code := WebServer.signedDecimal_length statusCode.le_toInt statusCode.toInt_lt
  have length := WebServer.signedDecimal_length bodyLen.le_toInt bodyLen.toInt_lt
  have typed : type.bytes.length ≤ 16 := (types_fit known).2
  have word : (statusText statusCode).length ≤ 21 := by
    unfold statusText
    repeat' split
    all_goals decide
  have protocol : (text "HTTP/1.1 ").length = 9 := rfl
  have blank : (text " ").length = 1 := rfl
  have first : (text "\r\nContent-Type: ").length = 16 := rfl
  have second : (text "\r\nContent-Length: ").length = 18 := rfl
  have ending : (text "\r\nConnection: close\r\n\r\n").length = 23 := rfl
  simp only [responseHead, List.length_append, headerSize]
  omega

end Heads

section Sending
variable {σ : Type} {state : σ}

theorem sendAll_state (buffer inbox : Bytes) (schedule : List (Option Nat)) :
    ((sendAll buffer).play state inbox schedule).state = state := by
  induction schedule generalizing buffer with
  | nil =>
    rw [sendAll]
    split <;> rfl
  | cons call schedule ih =>
    by_cases empty : buffer = []
    · rw [sendAll, if_pos empty]
      rfl
    · cases call with
      | none =>
        rw [sendAll, if_neg empty]
        rfl
      | some extra =>
        rw [sendAll_call empty]
        exact ih _

/-- Two buffers one after the other, unless the first one fails, go out as one. -/
theorem sendAll_both (first second inbox : Bytes) (schedule : List (Option Nat)) :
    let run := (sendAll first >>= fun sent => if sent then sendAll second
      else .done false).play state inbox schedule
    ∃ moved, run.state = state ∧ run.sent = (first ++ second).take moved ∧
      Course true false False (first ++ second).length schedule moved run.ended run.rest := by
  intro both
  obtain ⟨moved, sent, -, course⟩ := @sendAll_course σ state first inbox schedule
  have same_state := @sendAll_state σ state first inbox schedule
  have combined : both = continuePlay ((sendAll first).play state inbox schedule) _ :=
    play_bind _ _ _ _ _
  clear_value both
  subst combined
  generalize (sendAll first).play state inbox schedule = run at sent same_state course ⊢
  have short := course.moved_le
  have different : true ≠ false := by decide
  rw [List.length_append]
  have front : first.take moved = (first ++ second).take moved :=
    (List.take_append_of_le_length short).symm
  cases ended : run.ended with
  | none =>
    rw [ended] at course
    rw [continuePlay, ended]
    exact ⟨moved, same_state, sent.trans front, course.further (Option.some_ne_none true).symm _⟩
  | some result =>
    rw [ended] at course
    rw [continuePlay, ended]
    cases result with
    | false =>
      refine ⟨moved, same_state, ?_, course.further (by decide) _⟩
      exact (List.append_nil _).trans (sent.trans front)
    | true =>
      obtain ⟨others, later_sent, -, later⟩ := @sendAll_course σ run.state second run.inbox run.rest
      have all : moved = first.length := (course.success_iff different).mp rfl
      refine ⟨moved + others, (sendAll_state second _ _).trans same_state, ?_,
        course.andThen different rfl later⟩
      rw [all, List.take_length_add_append, ← later_sent]
      exact congrArg (· ++ _) (sent.trans (by rw [all, List.take_length]))

end Sending

section Connections
variable {host : AdminHost}

theorem sendRoute_reply {σ : Type} (host : AdminHost) (request : Option HttpRequest) :
    (sendRoute host request : Proc UInt8 σ Bool) = httpSendResponse
      (typedResponse (host.reply request).2.1 (host.reply request).1 (host.reply request).2.2) := by
  cases request with
  | none => rfl
  | some request =>
    by_cases get : request.method = text "GET"
    · simp only [sendRoute, AdminHost.reply, AdminHost.resource, get, true_and, if_true]
      split
      · rfl
      · split
        · rfl
        · split
          · rfl
          · split <;> rfl
    · simp only [sendRoute, AdminHost.reply, get, false_and, if_false]
      rfl

theorem httpSendResponse_typed {σ : Type} {type body : CString}
    (known : type = jsonType ∨ type = htmlType) (status : Int32) (short : body.length < 2 ^ 31) :
      (httpSendResponse (typedResponse type status body) : Proc UInt8 σ Bool) =
      (sendAll (responseHead status type.bytes (Int32.ofNat body.length)) >>= fun sent =>
        if sent then sendAll body.bytes else .done false) := by
  have room := responseHead_length known status (Int32.ofNat body.length)
  have length := Int32.toInt_ofNat_of_lt short
  have rest : (sendBody (some body.bytes) (Int32.ofNat body.length) : Proc UInt8 σ Bool) =
      sendAll body.bytes := by
    rw [sendBody]
    split
    · rw [Int32.toNatClampNeg_ofNat_of_lt short]
      exact congrArg sendAll List.take_length
    · rename_i none_left
      have empty : body.bytes = [] := by
        rw [Int32.lt_iff_toInt_lt, length] at none_left
        rw [← List.length_eq_zero_iff]
        change ¬ (0 : Int) < (body.bytes.length : Int) at none_left
        omega
      rw [empty, sendAll, if_pos rfl]
  rw [← rest]
  exact if_neg (not_le.mpr room)

/-- What happens on a connection behind its first piece: the loops move the bytes of the answer,
and close it when they have ended. -/
theorem handleHttpConnection_play (host : AdminHost) {arrived : Bytes} (some_bytes : arrived ≠ [])
    (received : Option Nat) (schedule : List (Option Nat)) :
    let run := (handleHttpConnection host).play 0 arrived (received :: schedule)
    let answer :=
      host.answer (received.bind fun more => parseRequestFromBuf
        (arrived.take (min (more + 1) 4095)))
    ∃ moved result, run.sent = answer.encode.take moved ∧ run.ended = result.map (fun _ => ()) ∧
      run.state = (if result = none then 0 else 1) ∧
      Course true false False answer.encode.length schedule moved result run.rest := by
  intro run answer
  obtain ⟨request, same, inbox, goes⟩ : ∃ request, host.answer request = answer ∧ ∃ inbox, run =
      (sendRoute host request >>= fun _ => .act (· + 1) fun _ => .done ()).play 0 inbox
          schedule := by
    cases received with
    | none => exact ⟨none, rfl, arrived, rfl⟩
    | some more =>
      refine ⟨parseRequestFromBuf (arrived.take (min (more + 1) 4095)), rfl,
        arrived.drop (min (more + 1) 4095), ?_⟩
      have piece : arrived.take (min (more + 1) 4095) ≠ [] := by
        rw [Ne, List.take_eq_nil_iff, not_or]
        exact ⟨by omega, some_bytes⟩
      have request : requestIn (some (arrived.take (min (more + 1) 4095))) = _ := if_neg piece
      rw [← request]
      exact if_neg some_bytes
  clear_value run answer
  subst same goes
  obtain ⟨known, short⟩ := @reply_short host request
  rw [play_bind, sendRoute_reply, httpSendResponse_typed known _ short]
  obtain ⟨moved, kept, sent, course⟩ := @sendAll_both Nat 0
    (responseHead (host.reply request).1
      (host.reply request).2.1.bytes (Int32.ofNat (host.reply request).2.2.length))
    (host.reply request).2.2.bytes inbox schedule
  generalize Proc.play _ 0 inbox schedule = both at kept sent course ⊢
  refine ⟨moved, both.ended, ?_⟩
  cases ended : both.ended with
  | none =>
    rw [ended] at course
    rw [continuePlay, ended]
    exact ⟨sent, rfl, kept, course⟩
  | some result =>
    rw [ended] at course
    rw [continuePlay, ended]
    refine ⟨(List.append_nil _).trans sent, rfl, ?_, course⟩
    exact congrArg (· + 1) kept

end Connections

theorem empty_nulFree : (0 : UInt8) ∉ ([] : Bytes) := List.not_mem_nil

/-- A host without anything. -/
def bareHost : AdminHost :=
  ⟨none, none, ⟨fun _ => none, fun _ => none, [], [], []⟩,
    ⟨[], empty_nulFree⟩, by decide, fun _ => 0⟩

/-- What `/api/stats` is about. -/
def statsFields (stats : ShmStats) : List LinuxCLearning.Field :=
  [.number (text "client_count") stats.clientCount.toInt,
    .number (text "total_requests") stats.totalRequests.toInt,
    .number (text "total_bytes_sent") stats.totalBytesSent.toNat]

def statsObject (stats : ShmStats) : Json :=
  .object ((statsFields stats).map Field.entry ++
    [(text "total_bytes_recv", .number (stats.totalBytesRecv.toNat : Int))])

/-- What `/api/config` is about. -/
def configFields (context : AdminContext) : List LinuxCLearning.Field :=
  [.number (text "port") context.port.toInt, .number (text "threads") context.threadNum.toInt,
    .number (text "max_clients") context.maxClients.toInt,
    .number (text "buffer_size") context.bufferSize.toInt,
    .string (text "shared_dir") context.sharedDir.bytes]

def configObject (context : AdminContext) : Json :=
  .object ((configFields context).map Field.entry ++
    [(text "ssl_enabled", .number context.sslEnabled.toInt)])

section Texts

theorem sprinted_whole {size : Nat} {output : Bytes} (nulFree : 0 ∉ output)
    (fits : output.length < size) (memory : Memory) :
    (sprinted size output memory).bytes = output := by
  have holds := @Memory.Holds.print memory [] output size rfl (Nat.zero_lt_of_lt fits)
  have whole : output.take (size - 1 - 0) = output := List.take_of_length_le (by omega)
  rw [List.length_nil, whole, List.nil_append] at holds
  exact holds.read nulFree fits

theorem statsText_object (stats : ShmStats) : statsText stats =
    printObject (statsFields stats) (text "total_bytes_recv") stats.totalBytesRecv.toNat := by
  simp [statsText, printObject, statsFields, printMembers, Field.print, text, signedDecimal]

theorem configText_object (context : AdminContext) : configText (some context) =
    printObject (configFields context) (text "ssl_enabled") context.sslEnabled.toInt := by
  simp [configText, printObject, configFields, printMembers, Field.print, text]

theorem apiStatsBody_text (host : AdminHost) :
    (apiStatsBody host).bytes = statsText (currentStats host) := by
  have clients := WebServer.signedDecimal_length (currentStats host).clientCount.le_toInt
    (currentStats host).clientCount.toInt_lt
  have requests :=
    WebServer.signedDecimal_length (currentStats host).totalRequests.le_toInt
      (currentStats host).totalRequests.toInt_lt
  have bytes (count : UInt64) : (decimal count.toNat).length ≤ 20 :=
    decimal_length (lt_trans count.toNat_lt (by decide))
  have sent := bytes (currentStats host).totalBytesSent
  have recv := bytes (currentStats host).totalBytesRecv
  have nulFree : 0 ∉ statsText (currentStats host) := by
    rw [statsText_object]
    exact printObject_nulFree (by simp [statsFields, Field.name, Field.literal]; decide +kernel)
      (by decide +kernel)
  have first : (text "\x7b\"client_count\":").length = 16 := rfl
  have second : (text ",\"total_requests\":").length = 18 := rfl
  have third : (text ",\"total_bytes_sent\":").length = 20 := rfl
  have fourth : (text ",\"total_bytes_recv\":").length = 20 := rfl
  have closing : (text "\x7d").length = 1 := rfl
  refine sprinted_whole nulFree ?_ host.memory
  simp only [statsText, List.length_append]
  omega

theorem apiConfigBody_text {host : AdminHost} {context : AdminContext}
    (found : host.context = some context) :
    (apiConfigBody host).bytes = configText (some context) := by
  have number (value : Int32) : (signedDecimal value.toInt).length ≤ 11 :=
    WebServer.signedDecimal_length value.le_toInt value.toInt_lt
  have port := number context.port
  have threads := number context.threadNum
  have clients := number context.maxClients
  have buffer := number context.bufferSize
  have ssl := number context.sslEnabled
  have dir : context.sharedDir.bytes.length ≤ 255 := context.sharedDir_fits
  have nulFree : 0 ∉ configText (some context) := by
    have string := context.sharedDir.nulFree
    rw [configText_object]
    refine printObject_nulFree ?_ (by decide +kernel)
    simp [configFields, Field.name, Field.literal, string]
    decide +kernel
  have first : (text "\x7b\"port\":").length = 8 := rfl
  have second : (text ",\"threads\":").length = 11 := rfl
  have third : (text ",\"max_clients\":").length = 15 := rfl
  have fourth : (text ",\"buffer_size\":").length = 15 := rfl
  have fifth : (text ",\"shared_dir\":\"").length = 15 := rfl
  have sixth : (text "\",\"ssl_enabled\":").length = 16 := rfl
  have closing : (text "\x7d").length = 1 := rfl
  rw [apiConfigBody, found]
  refine sprinted_whole nulFree ?_ host.memory
  simp only [configText, List.length_append]
  omega

theorem resource_stats (host : AdminHost) :
    host.resource (text "/api/stats") = some (jsonType, apiStatsBody host) := by
  rw [AdminHost.resource, if_neg (by decide), if_pos rfl]

theorem resource_config (host : AdminHost) :
    host.resource (text "/api/config") = some (jsonType, apiConfigBody host) := by
  rw [AdminHost.resource, if_neg (by decide), if_neg (by decide), if_neg (by decide), if_pos rfl]

theorem resource_isSome (host : AdminHost) (path : Bytes) : (host.resource path).isSome ↔
    path ∈ [text "/", text "/api/stats", text "/api/files", text "/api/config"] := by
  rw [AdminHost.resource]
  simp only [List.mem_cons, List.not_mem_nil, or_false]
  split
  · simp [*]
  · split
    · simp [*]
    · split
      · simp [*]
      · split <;> simp [*]

end Texts

/-- A request that has come in whole is answered by its method and its path. The numbers of the
server are always a JSON text; its settings are one exactly if the name of the directory can
stand in one. -/
theorem admin_texts (host : AdminHost) (wire : WireRequest) (string : 0 ∉ wire.path) :
    let answer := host.answer (parseRequestFromBuf wire.render)
    (answer.status = 200 ↔ wire.method = text "GET" ∧
      wire.path ∈ [text "/", text "/api/stats", text "/api/files", text "/api/config"]) ∧
    (wire.method = text "GET" → wire.path = text "/api/stats" →
      Json.Denotes answer.body (statsObject (currentStats host))) ∧
    (wire.method = text "GET" → wire.path = text "/api/config" → ∀ context,
      host.context = some context →
      (Json.Denotes answer.body (configObject context) ↔ JsonName context.sharedDir.bytes)) := by
  intro answer
  have read := parseRequestFromBuf_render wire string
  have replied : host.reply (parseRequestFromBuf wire.render) =
      match if wire.method = text "GET" then host.resource wire.path else none with
      | some resource => (200, resource)
      | none => (404, jsonType, notFound) := by
    rw [read]
    rfl
  refine ⟨?_, ?_, ?_⟩
  · have status : answer.status = (host.reply (parseRequestFromBuf wire.render)).1 := rfl
    rw [status, replied, ← resource_isSome host]
    by_cases get : wire.method = text "GET"
    · rw [if_pos get]
      cases host.resource wire.path with
      | none => exact iff_of_false (by decide) nofun
      | some resource => exact iff_of_true rfl ⟨get, rfl⟩
    · rw [if_neg get]
      exact iff_of_false (by decide) fun both => get both.1
  · intro get path
    have body : answer.body = (host.reply (parseRequestFromBuf wire.render)).2.2.bytes := rfl
    rw [body, replied, if_pos get, path, resource_stats, apiStatsBody_text, statsText_object]
    refine (printObject_denotes_iff ?_ (by decide +kernel)).mpr ?_
    · simp [statsFields, Field.name]
      decide +kernel
    · simp [statsFields]
  · intro get path context configured
    have body : answer.body = (host.reply (parseRequestFromBuf wire.render)).2.2.bytes := rfl
    rw [body, replied, if_pos get, path, resource_config,
      apiConfigBody_text configured, configText_object]
    refine (printObject_denotes_iff ?_ (by decide +kernel)).trans ?_
    · simp [configFields, Field.name]
      decide +kernel
    · simp [configFields, JsonName]

/-- A host with a server whose directory has a quote in its name. -/
def quotedHost : AdminHost :=
  ⟨none, some ⟨2, 8080, 4, 100, 4096, ⟨text "a\"b", by decide⟩, by decide, 0⟩, bareHost.system,
    bareHost.page, bareHost.page_short,
    bareHost.memory⟩

/-- `GET /api/config` without any header. -/
def configRequest : WireRequest where
  method := text "GET"
  path := text "/api/config"
  version := text "HTTP/1.0"
  headers := []
  body := []
  method_known := by decide
  path_fits := by decide
  path_visible := by decide +kernel
  version_visible := by decide +kernel
  host_once := Nat.zero_le _
  length_once := Nat.zero_le _
  length_numeric := by simp
  body_nulFree := empty_nulFree

theorem admin_texts_quoted : ∃ context, quotedHost.context = some context ∧
    ¬ Json.Denotes (quotedHost.answer (parseRequestFromBuf configRequest.render)).body
      (configObject context) := by
  refine ⟨_, rfl, ?_⟩
  have string : 0 ∉ configRequest.path := by decide +kernel
  rw [(admin_texts quotedHost configRequest string).2.2 rfl rfl _ rfl]
  rintro ⟨_, plain⟩
  have quote : (34 : UInt8) ∈ text "a\"b" := by decide +kernel
  exact (plain 34 quote).1 rfl

end LinuxCLearning.FileServer
