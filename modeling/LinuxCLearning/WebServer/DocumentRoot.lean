import LinuxCLearning.Base.PathName
import LinuxCLearning.WebServer.Http

/-! Which files the web server opens. -/

namespace LinuxCLearning.WebServer
open PathName

/-- Every file that is served lies under the document root. -/
def Contained (server : HttpServer) (stat : Bytes → Option FileKind) (received : Bytes) : Prop :=
  ∀ path, .file path ∈ handleClient server stat received →
    (resolve server.documentRoot.bytes).Under (resolve path)

/-- The components of a path name keep it under the document root. -/
def StaysInside (server : HttpServer) (path : Bytes) : Prop :=
  Anchored (resolve server.documentRoot.bytes) (start path) (components path)

section Serving
variable {server : HttpServer} {stat : Bytes → Option FileKind} {received path : Bytes}

theorem staysInside_iff :
    (resolve server.documentRoot.bytes).Under (resolve path) ↔ StaysInside server path :=
  under_walk_iff _ _ _

theorem file_sendIfRegular {other : Bytes} :
    .file path = sendIfRegular stat other ↔ path = other ∧ stat other = some .regular := by
  unfold sendIfRegular
  split
  · rename_i regular
    simp [regular]
  · rename_i irregular
    simp [irregular]

theorem file_mem_serveStatic {requested : CString} :
    .file path ∈ serveStatic server stat requested ↔
      (path = server.filePath requested ∧ stat (server.filePath requested) = some .regular) ∨
        (path = server.indexPath requested ∧ stat (server.filePath requested) = some .directory ∧
          stat (server.indexPath requested) = some .regular) := by
  unfold serveStatic
  split_ifs with directory index
  · simp [file_sendIfRegular, directory]
  · have missing : stat (server.indexPath requested) = none := by simpa using index
    simp [file_sendIfRegular, directory, missing]
  · simp [file_sendIfRegular, directory]

theorem file_mem_handleClient :
    .file path ∈ handleClient server stat received ↔
      ∃ request, httpRequestParse received = some request ∧ server.routeFor request = none ∧
        .file path ∈ serveStatic server stat request.path := by
  unfold handleClient
  split
  · rename_i nothing
    have unparsed : httpRequestParse received = none := by
      rw [nothing]
      rfl
    simp [unparsed]
  · split
    · rename_i unparsed
      simp [unparsed]
    · rename_i request parsed
      split
      · rename_i route found
        simp [parsed, found]
      · rename_i unrouted
        simp [parsed, unrouted]

end Serving

/-- A file that is served lies under the document root exactly when the components of
its path name keep it there. -/
theorem served_inside_iff (server : HttpServer)
    (stat : Bytes → Option FileKind) (received : Bytes) :
    Contained server stat received ↔
      ∀ request, httpRequestParse received = some request → server.routeFor request = none →
        (stat (server.filePath request.path) = some .regular →
          StaysInside server (server.filePath request.path)) ∧
        (stat (server.filePath request.path) = some .directory →
          stat (server.indexPath request.path) = some .regular →
            StaysInside server (server.indexPath request.path)) := by
  constructor
  · intro contained request parsed unrouted
    constructor
    · intro regular
      apply staysInside_iff.mp
      apply contained
      exact file_mem_handleClient.mpr
        ⟨request, parsed, unrouted, file_mem_serveStatic.mpr (.inl ⟨rfl, regular⟩)⟩
    · intro directory regular
      apply staysInside_iff.mp
      apply contained
      exact file_mem_handleClient.mpr
        ⟨request, parsed, unrouted, file_mem_serveStatic.mpr (.inr ⟨rfl, directory, regular⟩)⟩
  · intro condition path served
    obtain ⟨request, parsed, unrouted, opened⟩ := file_mem_handleClient.mp served
    obtain ⟨file, index⟩ := condition request parsed unrouted
    apply staysInside_iff.mpr
    obtain ⟨rfl, regular⟩ | ⟨rfl, directory, regular⟩ := file_mem_serveStatic.mp opened
    · exact file regular
    · exact index directory regular

/-- An absolute request path that fits the buffer and nowhere has more `..` than names
before it is served from inside the document root. -/
theorem filePath_staysInside (server : HttpServer) {path : CString} {rest : Bytes}
    (absolute : path.bytes = 47 :: rest) (configured : server.documentRoot.bytes ≠ [])
    (fits : server.documentRoot.length + path.length < maxPathLength)
    (low : climbs (components rest) = 0) : StaysInside server (server.filePath path) := by
  have whole : server.filePath path = server.documentRoot.bytes ++ 47 :: rest := by
    rw [HttpServer.filePath, ← absolute]
    apply List.take_of_length_le
    rw [List.length_append]
    exact Nat.le_sub_one_of_lt fits
  refine .inl ⟨components server.documentRoot.bytes, components rest, ?_, ?_, low⟩
  · rw [whole, components_append]
  · rw [whole, start_append configured]
    rfl

/-- A server of `./www` without routes. -/
def plainServer : HttpServer := ⟨⟨text "./www", by decide⟩, ⟨text "index.html", by decide⟩, []⟩

/-- A file system with one file. -/
def oneFile (path : Bytes) : Bytes → Option FileKind :=
  fun other => if other = path then some .regular else none

/-- A request that climbs out of the document root. -/
theorem parent_escapes :
    ¬ Contained plainServer (oneFile (text "./www/../secret"))
      (text "GET /../secret HTTP/1.1\r\n\r\n") := by
  intro contained
  have served : .file (text "./www/../secret") ∈
      handleClient plainServer (oneFile (text "./www/../secret"))
          (text "GET /../secret HTTP/1.1\r\n\r\n") := by
    decide +kernel
  exact absurd (contained _ served).names (by decide +kernel)

end LinuxCLearning.WebServer
