import LinuxCLearning.Base.Memory
import LinuxCLearning.WebServer.Response

/-! The bytes of a response: what stands in the buffer behind `http_response_build`, and
what `http_response_send` sends of it. -/

namespace LinuxCLearning.WebServer

def maxResponseSize : UInt64 := 65536

/-- The buffer, which held anything before. -/
def ResponseBuffer.contents (buffer : ResponseBuffer) (memory : Memory) : Memory :=
  buffer.stores.foldl (fun memory stored => memory.store stored.1.toNat stored.2) memory

/-- The bytes before `pos`. -/
def ResponseBuffer.produced (buffer : ResponseBuffer) (memory : Memory) : Bytes :=
  (buffer.contents memory).load 0 buffer.pos.toNat

/-- The loop of `http_response_send` over the results of `send`: how many bytes have been
sent in the end, and the result. It is `none` as long as the loop goes on. -/
def sendLoop (length : Nat) : (sent : Nat) → (results : List Int) → Option (Nat × Int)
  | sent, [] => if sent < length then none else some (sent, 0)
  | sent, n :: results =>
    if sent < length then
      if n ≤ 0 then some (sent, -1)
      else if n.toNat ≤ length - sent then sendLoop length (sent + n.toNat) results
      else none
    else some (sent, 0)

/-- `http_response_send`: what goes over the connection, and the result. -/
def httpResponseSend (response : HttpResponse) (memory : Memory) (results : List Int) :
    Option (Bytes × Int) :=
  let buffer := httpResponseBuild response maxResponseSize
  (sendLoop buffer.pos.toNat 0 results).map fun (sent, result) =>
    ((buffer.contents memory).load 0 sent, result)

/-- The number behind `Content-Length: `, 0 without such a line. -/
def announcedLength (header : List Bytes) : Int :=
  ((header.find? fun line => decide (text "Content-Length: " <+: line)).map fun line =>
    decimalValue (line.drop 16)).getD 0

/-- Behind the header stand as many bytes as it announces. -/
def LengthMatches (header : List Bytes) (sent : Bytes) : Prop :=
  ∃ body, sent = header.flatten ++ body ∧ (body.length : Int) = announcedLength header

/-- The condition: no body is announced, or there is one and it fits. -/
def BodyFits (response : HttpResponse) (bufferSize : UInt64) : Prop :=
  response.bodyLength = 0 ∨
    response.body ≠ none ∧
      (responseHeader response).flatten.length + response.bodyLength.toNat ≤ bufferSize.toNat

section Stores
variable {bufferSize : UInt64} {buffer : ResponseBuffer} {memory : Memory}

theorem contents_store (buffer : ResponseBuffer) (memory : Memory) (pos : UInt64) (bytes : Bytes) :
    ResponseBuffer.contents ⟨pos, buffer.stores ++ [(buffer.pos, bytes)]⟩ memory =
      (buffer.contents memory).store buffer.pos.toNat bytes := by
  rw [ResponseBuffer.contents, List.foldl_append]
  rfl

/-- What the last store adds to the bytes before `pos`. -/
theorem produced_store (buffer : ResponseBuffer) (memory : Memory) {pos : UInt64}
    {bytes : Bytes} {count : Nat}
    (next : pos.toNat = buffer.pos.toNat + count) (within : count ≤ bytes.length) :
    ResponseBuffer.produced ⟨pos, buffer.stores ++ [(buffer.pos, bytes)]⟩ memory =
      buffer.produced memory ++ bytes.take count := by
  have before : ((buffer.contents memory).store buffer.pos.toNat bytes).load 0 buffer.pos.toNat =
      buffer.produced memory :=
    Memory.load_store_apart _ (Or.inr (Nat.zero_add _).le)
  rw [ResponseBuffer.produced, contents_store]
  dsimp only
  rw [next, Memory.load_append, before, Nat.zero_add, Memory.load_store _ _ within]

theorem produced_print {output : Bytes} (memory : Memory)
    (fits : buffer.pos.toNat + output.length < bufferSize.toNat) :
    (buffer.print bufferSize output).produced memory = buffer.produced memory ++ output := by
  have size := bufferSize.toNat_lt
  have some_room : bufferSize - buffer.pos ≠ 0 := by
    intro none_left
    have room : (bufferSize - buffer.pos).toNat = bufferSize.toNat - buffer.pos.toNat :=
      room_toNat (by omega)
    rw [none_left] at room
    have zero : (0 : UInt64).toNat = 0 := rfl
    omega
  have stored : snprintfStores (bufferSize - buffer.pos) output = output ++ [0] := by
    rw [snprintfStores, if_neg some_room, room_toNat (by omega), List.take_of_length_le (by omega)]
  have next : (buffer.print bufferSize output).pos.toNat = buffer.pos.toNat + output.length :=
    print_pos (by omega)
  refine (produced_store buffer memory next ?_).trans ?_
  · rw [stored, List.length_append]
    exact Nat.le_add_right _ _
  · rw [stored, List.take_left]

theorem produced_prints {outputs : List Bytes} (memory : Memory)
    (fits : buffer.pos.toNat + outputs.flatten.length < bufferSize.toNat) :
    (outputs.foldl (ResponseBuffer.print bufferSize) buffer).produced memory =
      buffer.produced memory ++ outputs.flatten := by
  have size := bufferSize.toNat_lt
  induction outputs generalizing buffer with
  | nil => simp
  | cons output outputs ih =>
    rw [List.flatten_cons, List.length_append] at fits
    have here : (buffer.print bufferSize output).pos.toNat = buffer.pos.toNat + output.length :=
      print_pos (by omega)
    rw [List.foldl_cons, ih (by omega), produced_print memory (by omega),
      List.flatten_cons, List.append_assoc]

theorem produced_copy {body : Bytes} {bodyLength : UInt64} (memory : Memory)
    (before : buffer.pos.toNat ≤ bufferSize.toNat) (body_size : bodyLength.toNat ≤ body.length) :
    (buffer.copy bufferSize body bodyLength).produced memory =
      buffer.produced memory ++
        body.take (min bodyLength.toNat (bufferSize.toNat - buffer.pos.toNat)) := by
  have size := bufferSize.toNat_lt
  have room := room_toNat before
  have cut : (if bodyLength > bufferSize - buffer.pos then bufferSize - buffer.pos
      else bodyLength).toNat =
      min bodyLength.toNat (bufferSize.toNat - buffer.pos.toNat) := by
    split
    · rename_i long
      have longer := UInt64.lt_iff_toNat_lt.mp long
      omega
    · rename_i short
      have shorter := UInt64.le_iff_toNat_le.mp (UInt64.not_lt.mp short)
      omega
  have added := UInt64.toNat_add buffer.pos
    (if bodyLength > bufferSize - buffer.pos then bufferSize - buffer.pos else bodyLength)
  rw [cut] at added
  have next : (buffer.copy bufferSize body bodyLength).pos.toNat =
      buffer.pos.toNat + min bodyLength.toNat (bufferSize.toNat - buffer.pos.toNat) := by
    rw [ResponseBuffer.copy, added]
    omega
  refine (produced_store buffer memory next ?_).trans ?_
  · rw [cut, List.length_take]
    omega
  · rw [cut, List.take_take, min_self]

end Stores

theorem not_positive {length : UInt64} (empty : ¬ length > 0) : length.toNat = 0 :=
  Nat.le_zero.mp (UInt64.le_iff_toNat_le.mp (UInt64.not_lt.mp empty))

section Response
variable {response : HttpResponse} {bufferSize : UInt64}

/-- The bytes behind `http_response_build` of a header that fits with its terminator. -/
theorem produced_response (memory : Memory)
    (fits : (responseHeader response).flatten.length < bufferSize.toNat) :
    (httpResponseBuild response bufferSize).produced memory =
      (responseHeader response).flatten ++ (response.body.getD []).take
        (min response.bodyLength.toNat
          (bufferSize.toNat - (responseHeader response).flatten.length)) := by
  have zero : (⟨0, []⟩ : ResponseBuffer).pos.toNat = 0 := rfl
  have header : (headerBuild response bufferSize).produced memory =
      (responseHeader response).flatten := by
    rw [headerBuild, produced_prints memory (by omega)]
    rfl
  have position := headerBuild_pos response bufferSize
  rw [httpResponseBuild_header]
  split
  · rename_i no_body
    rw [header, no_body, Option.getD_none, List.take_nil, List.append_nil]
  · rename_i body given
    rw [given, Option.getD_some]
    split
    · rw [produced_copy memory (by omega) (response.body_size body given), header, position]
    · rename_i empty
      rw [header, not_positive empty, Nat.zero_min, List.take_zero, List.append_nil]

theorem statusLine_announces_nothing (status : Int32) :
    ¬ text "Content-Length: " <+: statusLine status := by
  rintro ⟨rest, same⟩
  have letter : (some 67 : Option UInt8) = some 72 := congrArg (fun bytes => bytes[0]?) same
  exact absurd letter (by decide)

theorem contentTypeLine_announces_nothing (type : CString) :
    ¬ text "Content-Length: " <+: contentTypeLine type := by
  rintro ⟨rest, same⟩
  have letter : (some 76 : Option UInt8) = some 84 := congrArg (fun bytes => bytes[8]?) same
  exact absurd letter (by decide)

theorem announcedLength_header (response : HttpResponse) :
    announcedLength (responseHeader response) = response.bodyLength.toNat := by
  have length : text "Content-Length: " <+: bodyLengthLine response.bodyLength :=
    ⟨_, (List.append_assoc ..).symm⟩
  have last : [text "Connection: close\r\n", text "Server: SimpleHTTP/1.0\r\n", text "\r\n"].find?
      (fun line => decide (text "Content-Length: " <+: line)) = none := by
    decide
  have types : (response.contentType.map contentTypeLine).toList.find?
      (fun line => decide (text "Content-Length: " <+: line)) = none := by
    cases response.contentType with
    | none => rfl
    | some given => simp [contentTypeLine_announces_nothing given]
  have first : [statusLine response.status].find?
      (fun line => decide (text "Content-Length: " <+: line)) = none := by
    simp [statusLine_announces_nothing]
  simp only [announcedLength, responseHeader, List.find?_append, first, types, last,
    Option.none_or, Option.or_none]
  split
  · have value : decimalValue ((bodyLengthLine response.bodyLength).drop 16) =
        response.bodyLength.toNat := by
      rw [bodyLengthLine, List.append_assoc]
      have ends : ¬ (48 ≤ (13 : UInt8) ∧ (13 : UInt8) ≤ 57) := by decide
      exact decimalValue_decimal response.bodyLength.toNat ends [10]
    rw [List.find?_cons_of_pos (by simpa using length), Option.map_some, Option.getD_some, value]
  · rename_i empty
    rw [not_positive empty]
    rfl

theorem lengthMatches_produced (memory : Memory)
    (fits : (responseHeader response).flatten.length < bufferSize.toNat) :
    LengthMatches (responseHeader response)
      ((httpResponseBuild response bufferSize).produced memory) ↔
      BodyFits response bufferSize := by
  have matching : LengthMatches (responseHeader response)
      ((httpResponseBuild response bufferSize).produced memory) ↔
      ((response.body.getD []).take (min response.bodyLength.toNat
        (bufferSize.toNat - (responseHeader response).flatten.length))).length =
            response.bodyLength.toNat := by
    rw [produced_response memory fits, LengthMatches, announcedLength_header]
    constructor
    · rintro ⟨body, same, length⟩
      rw [List.append_cancel_left same]
      exact_mod_cast length
    · exact fun length => ⟨_, rfl, by exact_mod_cast length⟩
  have empty : response.bodyLength = 0 ↔ response.bodyLength.toNat = 0 := UInt64.toNat_inj.symm
  rw [matching, BodyFits, empty, List.length_take]
  cases given : response.body with
  | none => simp [eq_comm]
  | some body =>
    have size := response.body_size body given
    simp only [Option.getD_some, ne_eq, reduceCtorEq, not_false_eq_true, true_and]
    omega

end Response

theorem sendLoop_whole {length sent total : Nat} {results : List Int} (within : sent ≤ length)
    (finished : sendLoop length sent results = some (total, 0)) : total = length := by
  induction results generalizing sent with
  | nil =>
    rw [sendLoop] at finished
    split at finished
    · cases finished
    · cases finished
      omega
  | cons n results ih =>
    rw [sendLoop] at finished
    split at finished
    · split at finished
      · cases finished
      · split at finished
        · exact ih (by omega) finished
        · cases finished
    · cases finished
      omega

/-- A header that fits is followed by as many bytes as it announces exactly if nothing is
announced or there is a body and it fits behind the header; and a successful
`http_response_send` sends what has been built. -/
theorem response_length_matches_iff (response : HttpResponse) (memory : Memory) :
    (∀ bufferSize : UInt64, (responseHeader response).flatten.length < bufferSize.toNat →
      (LengthMatches (responseHeader response)
        ((httpResponseBuild response bufferSize).produced memory) ↔
        BodyFits response bufferSize)) ∧
    ∀ results sent, httpResponseSend response memory results = some (sent, 0) →
      sent = (httpResponseBuild response maxResponseSize).produced memory := by
  refine ⟨fun bufferSize fits => lengthMatches_produced memory fits, ?_⟩
  intro results sent finished
  obtain ⟨⟨total, result⟩, looped, same⟩ := Option.map_eq_some_iff.mp finished
  cases same
  rw [sendLoop_whole (Nat.zero_le _) looped]
  rfl

/-- A page of two bytes. -/
def shortPage : HttpResponse := ⟨200, none, some (text "hi"), 2, by simp, by simp [text]⟩

theorem response_length_matches_iff_short_page :
    LengthMatches (responseHeader shortPage)
      ((httpResponseBuild shortPage maxResponseSize).produced fun _ => 0) :=
  ((response_length_matches_iff shortPage fun _ => 0).1 maxResponseSize (by decide +kernel)).mpr
    (by unfold BodyFits; decide +kernel)

/-- A length without a body. -/
def pageWithoutBody : HttpResponse := ⟨200, none, none, 5, by simp, by simp⟩

theorem largeBody_size (bytes : Bytes) (given : some (List.replicate 65536 97) = some bytes) :
    (65536 : UInt64).toNat ≤ bytes.length := by
  cases given
  rw [List.length_replicate]
  rfl

/-- A body as large as the buffer. -/
def largePage : HttpResponse :=
  ⟨200, none, some (List.replicate 65536 97), 65536, by simp, largeBody_size⟩

theorem announced_length_not_sent :
    ¬ LengthMatches (responseHeader pageWithoutBody)
        ((httpResponseBuild pageWithoutBody maxResponseSize).produced fun _ => 0) ∧
      ¬ LengthMatches (responseHeader largePage)
        ((httpResponseBuild largePage maxResponseSize).produced fun _ => 0) := by
  constructor
  · rw [lengthMatches_produced _ (by decide +kernel)]
    rintro (empty | ⟨given, _⟩)
    · exact absurd empty (by decide)
    · exact given rfl
  · have header : 0 < (responseHeader largePage).flatten.length ∧
        (responseHeader largePage).flatten.length < maxResponseSize.toNat := by
      decide +kernel
    rw [lengthMatches_produced _ header.2]
    rintro (empty | ⟨_, fits⟩)
    · exact absurd empty (by decide)
    · exact absurd fits (Nat.not_le.mpr (Nat.lt_add_of_pos_left header.1))

end LinuxCLearning.WebServer
