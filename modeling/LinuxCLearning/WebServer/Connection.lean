import LinuxCLearning.WebServer.DocumentRoot

/-! What happens on a connection: the responses that `handle_client` sends, those of
`http_send_file` among them, and when it closes the connection. -/

namespace LinuxCLearning.WebServer

def HttpStatus.code : HttpStatus → Int32
  | .badRequest => 400
  | .forbidden => 403
  | .notFound => 404

/-- A response with its header: an error page, the answer of a route or a file. -/
inductive Answer where
  | error (status : Int32)
  | routed (route : HttpRoute)
  | file (path : Bytes)
  deriving DecidableEq

inductive ConnectionEvent where
  | response (answer : Answer)
  | close
  deriving DecidableEq

/-- How opening a file ends for `http_send_file`. -/
inductive OpenResult where
  | notOpened
  | notStated
  | opened
  deriving DecidableEq

/-- `http_send_file`, when every `send` succeeds. -/
def httpSendFile (openFile : Bytes → OpenResult) (path : Bytes) : Answer :=
  match openFile path with
  | .notOpened => .error 404
  | .notStated => .error 500
  | .opened => .file path

/-- What a reply of `handle_client` puts on the connection. -/
def Reply.answer (openFile : Bytes → OpenResult) : Reply → Answer
  | .error status => .error status.code
  | .routed route => .routed route
  | .file path => httpSendFile openFile path

/-- `handle_client` with the calls of `close(client_fd)`. -/
def handleConnection (server : HttpServer) (stat : Bytes → Option FileKind)
    (openFile : Bytes → OpenResult) (received : Bytes) : List ConnectionEvent :=
  if received = [] then [.close]
  else match httpRequestParse received with
    | none => [.response (.error 400), .close]
    | some request =>
      (match server.routeFor request with
        | some route => [.response (.routed route)]
        | none =>
          (serveStatic server stat request.path).map fun reply =>
            .response (reply.answer openFile)) ++
      [.close]

/-- A request for a directory without index file. -/
def MissesIndex (server : HttpServer) (stat : Bytes → Option FileKind) (received : Bytes) : Prop :=
  ∃ request, httpRequestParse received = some request ∧ server.routeFor request = none ∧
    stat (server.filePath request.path) = some .directory ∧
    stat (server.indexPath request.path) = none

section Connection
variable (server : HttpServer) (stat : Bytes → Option FileKind)
  (openFile : Bytes → OpenResult) (received : Bytes)

theorem handleConnection_replies :
    handleConnection server stat openFile received =
      (handleClient server stat received).map (fun reply => .response (reply.answer openFile)) ++
        [.close] := by
  unfold handleConnection handleClient
  split
  · rfl
  · cases httpRequestParse received with
    | none => rfl
    | some request =>
      dsimp only
      cases server.routeFor request with
      | none => rfl
      | some route => rfl

/-- The static part answers once or, for a directory without index file, twice. -/
theorem serveStatic_replies (path : CString) :
    (serveStatic server stat path).length =
      if stat (server.filePath path) = some .directory ∧ stat (server.indexPath path) = none then
        2 else 1 := by
  unfold serveStatic
  split_ifs with directory index both neither
  · rw [both.2] at index
    cases index
  · rfl
  · rfl
  · exact absurd ⟨directory, by simpa using index⟩ neither
  · rename_i both
    exact absurd both.1 directory
  · rfl

variable {received}

theorem handleClient_replies (something : received ≠ []) :
    (handleClient server stat received).length = 1 ↔ ¬ MissesIndex server stat received := by
  rw [handleClient, if_neg something]
  split
  · rename_i unparsed
    simp [MissesIndex, unparsed]
  · rename_i request parsed
    split
    · rename_i route found
      simp [MissesIndex, parsed, found]
    · rename_i unrouted
      rw [serveStatic_replies]
      simp [MissesIndex, parsed, unrouted]

/-- A received request is answered exactly once, unless it is for a directory without
index file; the connection is closed once, after the last response. -/
theorem answered_once_iff (something : received ≠ []) :
    ((∃ answer, handleConnection server stat openFile received = [.response answer, .close]) ↔
      ¬ MissesIndex server stat received) ∧
    ∃ answers : List Answer, handleConnection server stat openFile received =
      answers.map .response ++ [.close] := by
  have replies := handleConnection_replies server stat openFile received
  constructor
  · rw [← handleClient_replies server stat something, List.length_eq_one_iff, replies]
    constructor
    · rintro ⟨answer, same⟩
      have single := List.append_cancel_right
        (show _ = [ConnectionEvent.response answer] ++ [.close] from same)
      obtain ⟨reply, listed, _⟩ := List.map_eq_singleton_iff.mp single
      exact ⟨reply, listed⟩
    · rintro ⟨reply, listed⟩
      exact ⟨reply.answer openFile, by rw [listed]; rfl⟩
  · exact ⟨(handleClient server stat received).map
      (Reply.answer openFile), by rw [replies, List.map_map]; rfl⟩

end Connection

theorem answered_once_iff_missing_file :
    ∃ answer, handleConnection plainServer (fun _ => none) (fun _ => .notOpened)
      (text "GET /a HTTP/1.1\r\n\r\n") = [.response answer, .close] := by
  have something : text "GET /a HTTP/1.1\r\n\r\n" ≠ [] := by decide +kernel
  refine (answered_once_iff plainServer (fun _ => none) (fun _ => .notOpened) something).1.mpr ?_
  rintro ⟨request, _, _, directory, _⟩
  cases directory

/-- A document root without index file. -/
theorem directory_answered_twice :
    handleConnection plainServer (fun path => if path = text "./www/" then
      some .directory else none)
      (fun _ => .notOpened) (text "GET / HTTP/1.1\r\n\r\n") =
        [.response (.error 403), .response (.error 404), .close] := by
  decide +kernel

end LinuxCLearning.WebServer
