import LinuxCLearning.WebServer.Http

/-! The response that the server puts together in a buffer of a fixed size: a chain of
`snprintf` calls at a position that no call bounds. -/

namespace LinuxCLearning.WebServer

/-- What `http_response_build` reads of a response. A C string is shorter than 2^63 bytes,
and a body has the bytes that its length says. -/
structure HttpResponse where
  status : Int32
  contentType : Option CString
  body : Option Bytes
  bodyLength : UInt64
  contentType_size : ∀ type, contentType = some type → type.length < 2 ^ 63
  body_size : ∀ bytes, body = some bytes → bodyLength.toNat ≤ bytes.length

/-- `http_status_text`. -/
def httpStatusText (status : Int32) : Bytes :=
  if status = 200 then text "OK"
  else if status = 201 then text "Created"
  else if status = 204 then text "No Content"
  else if status = 301 then text "Moved Permanently"
  else if status = 302 then text "Found"
  else if status = 304 then text "Not Modified"
  else if status = 400 then text "Bad Request"
  else if status = 401 then text "Unauthorized"
  else if status = 403 then text "Forbidden"
  else if status = 404 then text "Not Found"
  else if status = 405 then text "Method Not Allowed"
  else if status = 500 then text "Internal Server Error"
  else if status = 501 then text "Not Implemented"
  else if status = 503 then text "Service Unavailable"
  else text "Unknown"

/-- The bytes that `snprintf` stores of its output in `room` bytes. -/
def snprintfStores (room : UInt64) (output : Bytes) : Bytes :=
  if room = 0 then [] else output.take (room.toNat - 1) ++ [0]

/-- The local variables of `http_response_build`: `pos`, and what has been stored at which
offset of `buffer`. -/
structure ResponseBuffer where
  pos : UInt64
  stores : List (UInt64 × Bytes)
  deriving DecidableEq

namespace ResponseBuffer

/-- `pos += snprintf(buffer + pos, buffer_size - pos, ...)`; the result is the length of
the whole output. -/
def print (bufferSize : UInt64) (buffer : ResponseBuffer) (output : Bytes) : ResponseBuffer where
  pos := buffer.pos + UInt64.ofNat output.length
  stores := buffer.stores ++ [(buffer.pos, snprintfStores (bufferSize - buffer.pos) output)]

/-- The `memcpy` of the body. -/
def copy (bufferSize : UInt64) (buffer : ResponseBuffer) (body : Bytes) (bodyLength : UInt64) :
    ResponseBuffer :=
  let copyLen :=
    if bodyLength > bufferSize - buffer.pos then bufferSize - buffer.pos else bodyLength
  { pos := buffer.pos + copyLen
    stores := buffer.stores ++ [(buffer.pos, body.take copyLen.toNat)] }

end ResponseBuffer

def statusLine (status : Int32) : Bytes :=
  text "HTTP/1.1 " ++ signedDecimal status.toInt ++ text " " ++ httpStatusText status ++ text "\r\n"

def contentTypeLine (type : CString) : Bytes := text "Content-Type: " ++ type.bytes ++ text "\r\n"

def bodyLengthLine (length : UInt64) : Bytes :=
  text "Content-Length: " ++ decimal length.toNat ++ text "\r\n"

/-- `http_response_build`: what it stores, and the result `pos`. -/
def httpResponseBuild (response : HttpResponse) (bufferSize : UInt64) : ResponseBuffer :=
  let buffer := ResponseBuffer.print bufferSize ⟨0, []⟩ (statusLine response.status)
  let buffer :=
    match response.contentType with
    | none => buffer
    | some type => buffer.print bufferSize (contentTypeLine type)
  let buffer :=
    if response.bodyLength > 0 then buffer.print bufferSize (bodyLengthLine response.bodyLength)
    else buffer
  let buffer := buffer.print bufferSize (text "Connection: close\r\n")
  let buffer := buffer.print bufferSize (text "Server: SimpleHTTP/1.0\r\n")
  let buffer := buffer.print bufferSize (text "\r\n")
  match response.body with
  | none => buffer
  | some body =>
    if response.bodyLength > 0 then buffer.copy bufferSize body response.bodyLength else buffer

/-- The outputs of the `snprintf` calls. -/
def responseHeader (response : HttpResponse) : List Bytes :=
  [statusLine response.status] ++ (response.contentType.map contentTypeLine).toList ++
    (if response.bodyLength > 0 then [bodyLengthLine response.bodyLength] else []) ++
    [text "Connection: close\r\n", text "Server: SimpleHTTP/1.0\r\n", text "\r\n"]

/-- Every stored byte is one of the buffer. -/
def ResponseBuffer.Inside (bufferSize : UInt64) (buffer : ResponseBuffer) : Prop :=
  ∀ store ∈ buffer.stores, ∀ index < store.2.length, store.1.toNat + index < bufferSize.toNat

instance (bufferSize : UInt64) (buffer : ResponseBuffer) : Decidable (buffer.Inside bufferSize) :=
  inferInstanceAs (Decidable (∀ store ∈ buffer.stores, ∀ index < store.2.length,
    store.1.toNat + index < bufferSize.toNat))

section Printing
variable {bufferSize : UInt64} {buffer : ResponseBuffer}

theorem snprintfStores_length (room : UInt64) (output : Bytes) :
    (snprintfStores room output).length ≤ room.toNat := by
  unfold snprintfStores
  split
  · exact Nat.zero_le _
  · rename_i some_room
    have positive : 0 < room.toNat := by
      rw [Nat.pos_iff_ne_zero]
      intro zero
      exact some_room (UInt64.toNat_inj.mp zero)
    rw [List.length_append, List.length_take, List.length_singleton]
    omega

theorem room_toNat (before : buffer.pos.toNat ≤ bufferSize.toNat) :
    (bufferSize - buffer.pos).toNat = bufferSize.toNat - buffer.pos.toNat :=
  UInt64.toNat_sub_of_le _ _ (UInt64.le_iff_toNat_le.mpr before)

theorem ResponseBuffer.Inside.store {pos : UInt64} {bytes : Bytes}
    (inside : buffer.Inside bufferSize)
    (fits : buffer.pos.toNat + bytes.length ≤ bufferSize.toNat) :
    ResponseBuffer.Inside bufferSize ⟨pos, buffer.stores ++ [(buffer.pos, bytes)]⟩ := by
  intro stored member index within
  rcases List.mem_append.mp member with earlier | last
  · exact inside stored earlier index within
  · cases List.mem_singleton.mp last
    dsimp only at within ⊢
    omega

theorem print_inside (output : Bytes) (inside : buffer.Inside bufferSize)
    (before : buffer.pos.toNat ≤ bufferSize.toNat) :
      (buffer.print bufferSize output).Inside bufferSize := by
  apply inside.store
  have length := snprintfStores_length (bufferSize - buffer.pos) output
  rw [room_toNat before] at length
  omega

theorem print_pos {output : Bytes} (below : buffer.pos.toNat + output.length < 2 ^ 64) :
    (buffer.print bufferSize output).pos.toNat = buffer.pos.toNat + output.length := by
  rw [ResponseBuffer.print, UInt64.toNat_add, UInt64.toNat_ofNat']
  omega

theorem prints_pos {outputs : List Bytes}
    (below : buffer.pos.toNat + outputs.flatten.length < 2 ^ 64) :
    (outputs.foldl (ResponseBuffer.print bufferSize) buffer).pos.toNat =
      buffer.pos.toNat + outputs.flatten.length := by
  induction outputs generalizing buffer with
  | nil => rfl
  | cons output outputs ih =>
    rw [List.flatten_cons, List.length_append] at below ⊢
    have here : (buffer.print bufferSize output).pos.toNat = buffer.pos.toNat + output.length :=
      print_pos (by omega)
    rw [List.foldl_cons, ih (by omega), here, Nat.add_assoc]

theorem prints_inside {outputs : List Bytes} (inside : buffer.Inside bufferSize)
    (fits : buffer.pos.toNat + outputs.flatten.length ≤ bufferSize.toNat) :
    (outputs.foldl (ResponseBuffer.print bufferSize) buffer).Inside bufferSize := by
  have size := bufferSize.toNat_lt
  induction outputs generalizing buffer with
  | nil => exact inside
  | cons output outputs ih =>
    rw [List.flatten_cons, List.length_append] at fits
    have here : (buffer.print bufferSize output).pos.toNat = buffer.pos.toNat + output.length :=
      print_pos (by omega)
    exact ih (print_inside output inside (by omega)) (by omega)

end Printing

section Header

theorem httpStatusText_length (status : Int32) : (httpStatusText status).length ≤ 21 := by
  have either {condition : Prop} [Decidable condition] {first second : Bytes}
      (short : first.length ≤ 21)
      (others : second.length ≤ 21) : (if condition then first else second).length ≤ 21 := by
    split
    · exact short
    · exact others
  unfold httpStatusText
  repeat refine either (by decide) ?_
  decide

theorem signedDecimal_length {number : Int} (lower : -2 ^ 31 ≤ number) (upper : number < 2 ^ 31) :
    (signedDecimal number).length ≤ 11 := by
  cases number with
  | ofNat number =>
    have small : number < 10 ^ (9 + 1) := by
      rw [Int.ofNat_eq_natCast] at upper
      omega
    exact (decimal_length small).trans (by decide)
  | negSucc number =>
    have small : number + 1 < 10 ^ (9 + 1) := by omega
    have digits := decimal_length small
    rw [signedDecimal, List.length_append]
    exact Nat.add_le_add (le_refl 1) digits

theorem statusLine_length (status : Int32) : (statusLine status).length ≤ 44 := by
  have number := signedDecimal_length status.le_toInt status.toInt_lt
  have phrase := httpStatusText_length status
  have first : (text "HTTP/1.1 ").length = 9 := rfl
  have blank : (text " ").length = 1 := rfl
  have ending : (text "\r\n").length = 2 := rfl
  simp only [statusLine, List.length_append]
  omega

theorem bodyLengthLine_length (length : UInt64) : (bodyLengthLine length).length ≤ 38 := by
  have bound := length.toNat_lt
  have small : length.toNat < 10 ^ (19 + 1) := by omega
  have digits := decimal_length small
  have first : (text "Content-Length: ").length = 16 := rfl
  have ending : (text "\r\n").length = 2 := rfl
  simp only [bodyLengthLine, List.length_append]
  omega

theorem responseHeader_length (response : HttpResponse) :
    (responseHeader response).flatten.length < 2 ^ 63 + 200 := by
  have status := statusLine_length response.status
  have length := bodyLengthLine_length response.bodyLength
  have type : ((response.contentType.map contentTypeLine).toList.flatten).length < 2 ^ 63 + 20 := by
    cases given : response.contentType with
    | none => decide
    | some type =>
      have bound := response.contentType_size type given
      have first : (text "Content-Type: ").length = 14 := rfl
      have ending : (text "\r\n").length = 2 := rfl
      simp only [Option.map_some, Option.toList_some, List.flatten_singleton, contentTypeLine,
        List.length_append]
      unfold CString.length at bound
      omega
  have last : [text "Connection: close\r\n", text "Server: SimpleHTTP/1.0\r\n",
      text "\r\n"].flatten.length = 45 := by
    decide
  simp only [responseHeader, List.flatten_append, List.length_append, List.flatten_singleton, last]
  split_ifs
  · rw [List.flatten_singleton]
    omega
  · rw [List.flatten_nil, List.length_nil]
    omega

/-- The calls of `http_response_build` before the body. -/
def headerBuild (response : HttpResponse) (bufferSize : UInt64) : ResponseBuffer :=
  (responseHeader response).foldl (ResponseBuffer.print bufferSize) ⟨0, []⟩

theorem httpResponseBuild_header (response : HttpResponse) (bufferSize : UInt64) :
    httpResponseBuild response bufferSize =
      match response.body with
      | none => headerBuild response bufferSize
      | some body =>
        if response.bodyLength > 0 then
          (headerBuild response bufferSize).copy bufferSize body response.bodyLength
        else headerBuild response bufferSize := by
  unfold httpResponseBuild headerBuild responseHeader
  cases response.contentType with
  | none => split_ifs <;> rfl
  | some type => split_ifs <;> rfl

theorem headerBuild_pos (response : HttpResponse) (bufferSize : UInt64) :
    (headerBuild response bufferSize).pos.toNat = (responseHeader response).flatten.length := by
  have length := responseHeader_length response
  have zero : (⟨0, []⟩ : ResponseBuffer).pos.toNat = 0 := rfl
  rw [headerBuild, prints_pos (by omega), zero, Nat.zero_add]

theorem headerBuild_inside {response : HttpResponse} {bufferSize : UInt64}
    (fits : (responseHeader response).flatten.length ≤ bufferSize.toNat) :
    (headerBuild response bufferSize).Inside bufferSize := by
  apply prints_inside
  · intro stored member
    cases member
  · have zero : (⟨0, []⟩ : ResponseBuffer).pos.toNat = 0 := rfl
    omega

end Header

section Copy
variable {bufferSize bodyLength : UInt64} {buffer : ResponseBuffer} {body : Bytes}

/-- The body is cut at the end of the buffer, if the header ends before it. -/
theorem copy_inside (inside : buffer.Inside bufferSize)
    (before : buffer.pos.toNat ≤ bufferSize.toNat) :
    (buffer.copy bufferSize body bodyLength).Inside bufferSize ∧
      (buffer.copy bufferSize body bodyLength).pos ≤ bufferSize := by
  have room := room_toNat before
  have size := bufferSize.toNat_lt
  have cut : (if bodyLength > bufferSize - buffer.pos then bufferSize - buffer.pos
      else bodyLength).toNat ≤
      bufferSize.toNat - buffer.pos.toNat := by
    rw [← room]
    split
    · exact le_refl _
    · rename_i small
      exact UInt64.le_iff_toNat_le.mp (UInt64.not_lt.mp small)
  constructor
  · apply inside.store
    rw [List.length_take]
    omega
  · rw [UInt64.le_iff_toNat_le, ResponseBuffer.copy, UInt64.toNat_add]
    omega

theorem copy_outside (behind : bufferSize.toNat < buffer.pos.toNat) (some_body : 0 < bodyLength)
    (body_size : bodyLength.toNat ≤ body.length) :
      ¬ (buffer.copy bufferSize body bodyLength).Inside bufferSize := by
  intro inside
  have some_room : 0 < bufferSize - buffer.pos := by
    rw [UInt64.lt_iff_toNat_lt, UInt64.toNat_sub]
    have position := buffer.pos.toNat_lt
    have zero : (0 : UInt64).toNat = 0 := rfl
    omega
  have stored := inside _ (List.mem_append_right _ (List.mem_singleton_self _)) 0 ?_
  · dsimp only at stored
    omega
  · rw [List.length_take]
    have positive : 0 < bodyLength.toNat := UInt64.lt_iff_toNat_lt.mp some_body
    have some_copied : 0 < (if bodyLength > bufferSize - buffer.pos then bufferSize - buffer.pos
        else bodyLength).toNat := by
      split
      · exact UInt64.lt_iff_toNat_lt.mp some_room
      · exact positive
    omega

end Copy

/-- The response stays in the buffer exactly if its header does. -/
theorem response_build_inside_iff (response : HttpResponse) (bufferSize : UInt64) :
    (httpResponseBuild response bufferSize).Inside bufferSize ∧
        (httpResponseBuild response bufferSize).pos ≤ bufferSize ↔
      (responseHeader response).flatten.length ≤ bufferSize.toNat := by
  have header : (headerBuild response bufferSize).Inside bufferSize ∧
      (headerBuild response bufferSize).pos ≤ bufferSize ↔
      (responseHeader response).flatten.length ≤ bufferSize.toNat := by
    rw [UInt64.le_iff_toNat_le, headerBuild_pos]
    exact ⟨And.right, fun fits => ⟨headerBuild_inside fits, fits⟩⟩
  rw [httpResponseBuild_header]
  split
  · exact header
  · rename_i body given
    split
    · rename_i some_body
      constructor
      · rintro ⟨inside, _⟩
        by_contra long
        rw [← headerBuild_pos response bufferSize] at long
        exact copy_outside (not_le.mp long) some_body (response.body_size body given) inside
      · intro fits
        apply copy_inside (headerBuild_inside fits)
        rw [headerBuild_pos]
        exact fits
    · exact header

/-- A status line in a buffer of ten bytes. -/
theorem header_outside_buffer :
    ¬ ((httpResponseBuild ⟨200, none, none, 0, by simp, by simp⟩ 10).Inside 10) ∧
      (httpResponseBuild ⟨200, none, none, 0, by simp, by simp⟩ 10).pos = 62 := by
  decide +kernel

end LinuxCLearning.WebServer
