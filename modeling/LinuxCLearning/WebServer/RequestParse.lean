import LinuxCLearning.Base.Chain
import LinuxCLearning.WebServer.Http

/-! What the parser makes of well-formed requests. -/

namespace LinuxCLearning.WebServer

/-- A header line `Name: value`. -/
structure HeaderLine where
  name : Bytes
  value : Bytes
  name_fits : name ≠ [] ∧ name.length ≤ 255
  name_plain : ∀ byte ∈ name, byte ≠ 58 ∧ byte ≠ 13 ∧ byte ≠ 10 ∧ byte ≠ 0
  value_fits : value ≠ [] ∧ value.length ≤ 1023
  value_plain : ∀ byte ∈ value, byte ≠ 13 ∧ byte ≠ 10 ∧ byte ≠ 0
  value_start : ∀ byte, value.head? = some byte → isspace byte = false

/-- The name without regard to letter case. -/
def HeaderLine.key (line : HeaderLine) : Bytes := line.name.map tolower

def HeaderLine.render (line : HeaderLine) : Bytes := line.name ++ text ": " ++ line.value

/-- The target `p` or `p?q`. -/
def renderTarget (path : Bytes) (query : Option Bytes) : Bytes :=
  path ++ query.elim [] fun query => text "?" ++ query

def HttpVersion.render : HttpVersion → Bytes
  | .http10 => text "HTTP/1.0"
  | .http11 => text "HTTP/1.1"
  | .unknown => []

/-- A well-formed request. -/
structure WireRequest where
  method : HttpMethod
  path : Bytes
  query : Option Bytes
  version : HttpVersion
  headers : List HeaderLine
  body : Bytes
  method_known : method ≠ .unknown
  version_known : version ≠ .unknown
  path_plain : 63 ∉ path
  target_plain : ∀ byte ∈ renderTarget path query, isspace byte = false ∧ byte ≠ 0
  target_fits : (renderTarget path query).length ≤ 1023
  distinct : (headers.map HeaderLine.key).Nodup
  announced : ∀ line ∈ headers, line.key = text "content-length" →
    body ≠ [] ∧ line.value = decimal body.length
  unannounced : body ≠ [] → ∃ line ∈ headers, line.key = text "content-length"

namespace WireRequest

def target (wire : WireRequest) : Bytes := renderTarget wire.path wire.query

def requestLine (wire : WireRequest) : Bytes :=
  httpMethodName wire.method ++ text " " ++ wire.target ++ text " " ++ wire.version.render

/-- The bytes of the request. -/
def render (wire : WireRequest) : Bytes :=
  wire.requestLine ++ text "\r\n" ++ wire.headers.flatMap
    (fun line => line.render ++ text "\r\n") ++
    text "\r\n" ++ wire.body

/-- The value of the header of this name. -/
def field (wire : WireRequest) (key : Bytes) : Option Bytes :=
  (wire.headers.find? fun line => decide (line.key = key)).map HeaderLine.value

/-- What the request says. -/
def meaning (wire : WireRequest) : HttpRequest where
  method := wire.method
  version := wire.version
  path := CString.ofBuffer (httpUrlDecode (maxPathLength - 1) wire.path)
  queryString := wire.query
  headers := {
    host := wire.field (text "host")
    userAgent := wire.field (text "user-agent")
    accept := wire.field (text "accept")
    connection := wire.field (text "connection")
    contentType := wire.field (text "content-type")
    contentLength := wire.field (text "content-length")
    cookie := wire.field (text "cookie")
    authorization := wire.field (text "authorization")
    keepAlive := (wire.field (text "connection")).any fun value =>
      sameIgnoringCase value (text "keep-alive") }
  body := if wire.body = [] then none else some wire.body
  bodyLength := wire.body.length

end WireRequest

section Lines

theorem lineEnd_line {line : Bytes} (plain : ∀ byte ∈ line, byte ≠ 13 ∧ byte ≠ 0) (rest : Bytes) :
    lineEnd (line ++ text "\r\n" ++ rest) = some (line, rest) := by
  induction line with
  | nil => rfl
  | cons byte line ih =>
    obtain ⟨noReturn, noNul⟩ := plain byte List.mem_cons_self
    have later := ih fun byte member => plain byte (List.mem_cons_of_mem _ member)
    rw [List.cons_append, List.cons_append, lineEnd, later]
    · rfl
    · exact noNul
    · intro _ same
      exact absurd same noReturn

theorem dropWhile_start {skip : UInt8 → Bool} {bytes : Bytes}
    (start : ∀ byte, bytes.head? = some byte → skip byte = false) :
      bytes.dropWhile skip = bytes := by
  cases bytes with
  | nil => rfl
  | cons byte bytes => exact List.dropWhile_cons_of_neg (by rw [start byte rfl]; decide)

namespace HeaderLine
variable (line : HeaderLine)

theorem render_length : line.render.length < lineSize := by
  have name := line.name_fits.2
  have value := line.value_fits.2
  have colon : (text ": ").length = 2 := rfl
  simp only [render, List.length_append, lineSize]
  omega

theorem render_plain : ∀ byte ∈ line.render, byte ≠ 13 ∧ byte ≠ 0 := by
  intro byte member
  simp only [render, List.mem_append] at member
  obtain (name | colon) | value := member
  · obtain ⟨_, noReturn, _, noNul⟩ := line.name_plain byte name
    exact ⟨noReturn, noNul⟩
  · have pair : byte = 58 ∨ byte = 32 := by simpa [text] using colon
    obtain rfl | rfl := pair <;> decide
  · obtain ⟨noReturn, _, noNul⟩ := line.value_plain byte value
    exact ⟨noReturn, noNul⟩

theorem scanHeader_render : scanHeader line.render = some (line.name, line.value) := by
  have key : scanSet 255 (fun byte => byte != 58) line.render =
      some (line.name, text ": " ++ line.value) := by
    rw [render, List.append_assoc]
    apply scanSet_word line.name_fits.1 line.name_fits.2
    · intro byte member
      simpa using (line.name_plain byte member).1
    · intro byte first
      cases first
      rfl
  have trimmed : (text " " ++ line.value).dropWhile isspace = line.value :=
    dropWhile_start line.value_start
  have value : scanSet 1023 (fun byte => byte != 13 && byte != 10) (line.value ++ []) =
      some (line.value, []) := by
    apply scanSet_word line.value_fits.1 line.value_fits.2
    · intro byte member
      obtain ⟨noReturn, noFeed, _⟩ := line.value_plain byte member
      simp [noReturn, noFeed]
    · intro byte first
      cases first
  rw [List.append_nil] at value
  have behind : (text ": " ++ line.value).tail = text " " ++ line.value := rfl
  simp only [scanHeader, key, behind, trimmed, value, Option.bind_eq_bind, Option.bind_some, pure]
  rfl

theorem parseHeader_render (headers : HttpHeaders) :
    parseHeader line.render headers = storeHeader line.key line.value headers := by
  have unpadded : line.value.dropWhile (· = 32) = line.value := by
    apply dropWhile_start
    intro byte first
    have nonspace := line.value_start byte first
    simp only [isspace, Bool.or_eq_false_iff, beq_eq_false_iff_ne] at nonspace
    exact decide_eq_false nonspace.2
  simp only [parseHeader, line.scanHeader_render, unpadded, key]

end HeaderLine

theorem parseHeaders_line (line : HeaderLine) (headers : HttpHeaders) (rest : Bytes) :
    parseHeaders headers (line.render ++ text "\r\n" ++ rest) =
      parseHeaders (storeHeader line.key line.value headers) rest := by
  have found := lineEnd_line line.render_plain rest
  have more : ¬((line.render ++ text "\r\n" ++ rest).headD 0 = 0 ∨
      (line.render ++ text "\r\n" ++ rest).headD 0 = 13) := by
    obtain ⟨byte, name, start⟩ := List.exists_cons_of_ne_nil line.name_fits.1
    obtain ⟨_, noReturn, _, noNul⟩ := line.name_plain byte (by rw [start]; exact List.mem_cons_self)
    simp [HeaderLine.render, start, noReturn, noNul]
  rw [parseHeaders, if_neg more]
  split
  · rename_i nothing
    rw [nothing] at found
    cases found
  · rename_i other behind same
    rw [same] at found
    cases found
    rw [if_neg (not_le.mpr line.render_length), line.parseHeader_render]

theorem parseHeaders_lines (lines : List HeaderLine) (headers : HttpHeaders) (body : Bytes) :
    parseHeaders headers
        (lines.flatMap (fun line => line.render ++ text "\r\n") ++ text "\r\n" ++ body) =
      (lines.foldl (fun headers line => storeHeader line.key line.value headers) headers,
        text "\r\n" ++ body) := by
  induction lines generalizing headers with
  | nil =>
    rw [parseHeaders]
    rfl
  | cons line lines ih =>
    have shape : (line :: lines).flatMap (fun line => line.render ++ text "\r\n") ++
        text "\r\n" ++ body =
        line.render ++ text "\r\n" ++
          (lines.flatMap (fun line => line.render ++ text "\r\n") ++ text "\r\n" ++ body) := by
      simp only [List.flatMap_cons, List.append_assoc]
    rw [shape, parseHeaders_line, ih, List.foldl_cons]

end Lines

section Fields

theorem recognised_distinct :
    [text "host", text "user-agent", text "accept", text "connection", text "content-type",
      text "content-length", text "cookie", text "authorization"].Nodup := by
  decide

/-- What the header lines make of one field, when each of them with the key changes it
in one way and the others leave it alone. -/
theorem stored_field {β : Type} (get : HttpHeaders → β) (set : Bytes → β → β) {key : Bytes}
    (stores : ∀ name value headers,
      get (storeHeader name value headers) = if name = key then
        set value (get headers) else get headers)
    (lines : List HeaderLine) (distinct : (lines.map HeaderLine.key).Nodup)
    (headers : HttpHeaders) :
    get (lines.foldl (fun headers line => storeHeader line.key line.value headers) headers) =
      (lines.find? fun line => decide (line.key = key)).elim (get headers)
        fun line => set line.value (get headers) := by
  exact Chain.foldl_set get _ (fun line => set line.value)
    (fun headers line => stores line.key line.value headers)
    lines (Chain.once_of_distinct distinct key) headers

/-- A field of its own key holds the value of that header line. -/
theorem stored_value (wire : WireRequest) (get : HttpHeaders → Option Bytes) {key : Bytes}
    (empty : get .empty = none)
    (stores : ∀ name value headers,
      get (storeHeader name value headers) = if name = key then some value else get headers) :
    get (wire.headers.foldl (fun headers line => storeHeader line.key line.value headers) .empty) =
      wire.field key := by
  rw [stored_field get (fun value _ => some value) stores wire.headers wire.distinct, empty,
    WireRequest.field]
  cases wire.headers.find? _ <;> rfl

theorem stored_keepAlive (wire : WireRequest) :
    (wire.headers.foldl (fun headers line => storeHeader line.key line.value headers)
      .empty).keepAlive =
      wire.meaning.headers.keepAlive := by
  have stores : ∀ name value headers, (storeHeader name value headers).keepAlive =
      if name = text "connection" then
        if sameIgnoringCase value (text "keep-alive") then true else headers.keepAlive
      else headers.keepAlive := by
    unfold storeHeader
    grind [recognised_distinct]
  rw [stored_field HttpHeaders.keepAlive
    (fun value old => if sameIgnoringCase value (text "keep-alive") then true else old) stores
    wire.headers wire.distinct]
  simp only [WireRequest.meaning, WireRequest.field]
  cases wire.headers.find? _ with
  | none => rfl
  | some line =>
    cases same : sameIgnoringCase line.value (text "keep-alive") <;> simp [same, HttpHeaders.empty]

theorem stored_headers (wire : WireRequest) :
    wire.headers.foldl (fun headers line => storeHeader line.key line.value headers) .empty =
      wire.meaning.headers := by
  have distinct := recognised_distinct
  simp only [List.nodup_cons, List.mem_cons, List.not_mem_nil, or_false, not_or] at distinct
  apply HttpHeaders.ext
  · exact stored_value wire HttpHeaders.host rfl (by unfold storeHeader; grind)
  · exact stored_value wire HttpHeaders.userAgent rfl (by unfold storeHeader; grind)
  · exact stored_value wire HttpHeaders.accept rfl (by unfold storeHeader; grind)
  · exact stored_value wire HttpHeaders.connection rfl (by unfold storeHeader; grind)
  · exact stored_value wire HttpHeaders.contentType rfl (by unfold storeHeader; grind)
  · exact stored_value wire HttpHeaders.contentLength rfl (by unfold storeHeader; grind)
  · exact stored_value wire HttpHeaders.cookie rfl (by unfold storeHeader; grind)
  · exact stored_value wire HttpHeaders.authorization rfl (by unfold storeHeader; grind)
  · exact stored_keepAlive wire

end Fields

section RequestLine

/-- A word of a request line: what `%15s` reads whole. -/
def Word (word : Bytes) : Prop :=
  word ≠ [] ∧ word.length ≤ 15 ∧ ∀ byte ∈ word, isspace byte = false ∧ byte ≠ 0

instance (word : Bytes) : Decidable (Word word) := inferInstanceAs (Decidable (_ ∧ _))

theorem httpMethodName_word (method : HttpMethod) : Word (httpMethodName method) := by
  cases method <;> decide +kernel

theorem httpMethodParse_name {method : HttpMethod} (known : method ≠ .unknown) :
    httpMethodParse (httpMethodName method) = method := by
  cases method with
  | unknown => exact absurd rfl known
  | _ => decide

theorem version_word {version : HttpVersion} (known : version ≠ .unknown) :
    Word version.render := by
  cases version with
  | unknown => exact absurd rfl known
  | _ => decide +kernel

theorem version_parsed {version : HttpVersion} (known : version ≠ .unknown) :
    (if version.render = text "HTTP/1.0" then .http10
      else if version.render = text "HTTP/1.1" then .http11 else .unknown) = version := by
  cases version with
  | unknown => exact absurd rfl known
  | _ => decide

theorem space_stops (rest : Bytes) :
    ∀ byte, (text " " ++ rest).head? = some byte → isspace byte = true := by
  intro byte first
  cases first
  rfl

theorem nothing_stops : ∀ byte, ([] : Bytes).head? = some byte → isspace byte = true := by
  intro byte first
  cases first

theorem scanWord_first {word : Bytes} (isWord : Word word) (rest : Bytes) :
    scanWord 15 (word ++ (text " " ++ rest)) = some (word, text " " ++ rest) :=
  scanWord_word isWord.1 isWord.2.1 (fun byte member => (isWord.2.2 byte member).1)
    (space_stops rest)

theorem scanWord_last {limit : Nat} {word : Bytes} (isWord : Word word)
    (fits : word.length ≤ limit) :
    scanWord limit word = some (word, []) := by
  have whole := scanWord_word isWord.1 fits
    (fun byte member => (isWord.2.2 byte member).1) nothing_stops
  rwa [List.append_nil] at whole

variable (wire : WireRequest)

theorem target_split :
    wire.target.takeWhile (· ≠ 63) = wire.path ∧
      (if 63 ∈ wire.target then some (wire.target.drop (wire.path.length + 1)) else none) =
        wire.query := by
  have kept : ∀ byte ∈ wire.path, decide (byte ≠ 63) = true := by
    intro byte member
    apply decide_eq_true
    intro same
    exact wire.path_plain (same ▸ member)
  cases shape : wire.query with
  | none =>
    have target : wire.target = wire.path := by
      rw [WireRequest.target, renderTarget, shape, Option.elim_none, List.append_nil]
    rw [target, if_neg wire.path_plain, List.takeWhile_eq_self_iff.mpr kept]
    exact ⟨rfl, rfl⟩
  | some query =>
    have target : wire.target = wire.path ++ 63 :: query := by
      rw [WireRequest.target, renderTarget, shape]
      rfl
    have mark : 63 ∈ wire.target := by simp [target]
    rw [if_pos mark, target]
    constructor
    · apply takeWhile_stops kept
      intro byte first
      cases first
      rfl
    · simp

theorem scanWord_target (some_target : wire.target ≠ []) (rest : Bytes) :
    scanWord (maxPathLength - 1) (text " " ++ (wire.target ++ (text " " ++ rest))) =
      some (wire.target, text " " ++ rest) := by
  rw [scanWord_space]
  exact scanWord_word some_target wire.target_fits
    (fun byte member => (wire.target_plain byte member).1) (space_stops rest)

theorem requestLine_words :
    wire.requestLine = httpMethodName wire.method ++
      (text " " ++ (wire.target ++ (text " " ++ wire.version.render))) := by
  simp only [WireRequest.requestLine, List.append_assoc]

theorem parseRequestLine_wire (some_target : wire.target ≠ []) :
    parseRequestLine wire.requestLine =
      some { wire.meaning with headers := .empty, body := none, bodyLength := 0 } := by
  obtain ⟨path, query⟩ := target_split wire
  have isVersion := version_word wire.version_known
  rw [requestLine_words]
  simp only [parseRequestLine, scanWord_first (httpMethodName_word wire.method),
    scanWord_target wire some_target, scanWord_space, scanWord_last isVersion isVersion.2.1,
    Option.bind_eq_bind, Option.bind_some, httpMethodParse_name wire.method_known,
    if_neg wire.method_known, version_parsed wire.version_known, path, query]
  rfl

theorem parseRequestLine_no_target (no_target : wire.target = []) :
    parseRequestLine wire.requestLine = none := by
  have isVersion := version_word wire.version_known
  have fits : wire.version.render.length ≤ maxPathLength - 1 := isVersion.2.1.trans (by decide)
  have nothing : scanWord 15 [] = none := rfl
  rw [requestLine_words, no_target, List.nil_append]
  simp only [parseRequestLine, scanWord_first (httpMethodName_word wire.method), scanWord_space,
    scanWord_last isVersion fits, nothing, Option.bind_eq_bind, Option.bind_some, Option.bind_none]

theorem requestLine_length : wire.requestLine.length < lineSize := by
  have method := (httpMethodName_word wire.method).2.1
  have version := (version_word wire.version_known).2.1
  have target : wire.target.length ≤ 1023 := wire.target_fits
  have space : (text " ").length = 1 := rfl
  simp only [WireRequest.requestLine, List.length_append, lineSize]
  omega

theorem requestLine_plain : ∀ byte ∈ wire.requestLine, byte ≠ 13 ∧ byte ≠ 0 := by
  have plain {byte : UInt8} (inside : isspace byte = false ∧ byte ≠ 0) : byte ≠ 13 ∧ byte ≠ 0 := by
    refine ⟨?_, inside.2⟩
    intro same
    rw [same] at inside
    exact absurd inside.1 (by decide)
  have space {byte : UInt8} (gap : byte ∈ text " ") : byte ≠ 13 ∧ byte ≠ 0 := by
    obtain rfl : byte = 32 := by simpa [text] using gap
    decide
  intro byte member
  simp only [WireRequest.requestLine, List.mem_append] at member
  obtain (((method | gap) | target) | gap) | version := member
  · exact plain ((httpMethodName_word wire.method).2.2 byte method)
  · exact space gap
  · exact plain (wire.target_plain byte target)
  · exact space gap
  · exact plain ((version_word wire.version_known).2.2 byte version)

end RequestLine

section Body

theorem contentLength_iff {number : Nat} (below : number < 2 ^ 64 - 1) :
    (atoi (decimal number) % 2 ^ 64).toNat = number ↔ number < 2 ^ 31 := by
  have lower (value : Int) : -2 ^ 31 ≤ value.bmod (2 ^ 32) := Int.le_bmod (by decide)
  have upper (value : Int) : value.bmod (2 ^ 32) < 2 ^ 31 := Int.bmod_lt (by decide)
  rw [atoi_decimal]
  constructor
  · intro same
    by_contra large
    have clamped : (2 ^ 63 - 1 : Int) ≤ number := by
      have low := lower (min (2 ^ 63 - 1) number)
      have high := upper (min (2 ^ 63 - 1) number)
      omega
    have wrapped : Int.bmod (2 ^ 63 - 1) (2 ^ 32) = -1 := by decide
    rw [min_eq_left clamped, wrapped] at same
    omega
  · intro small
    have unclamped : (number : Int) ≤ 2 ^ 63 - 1 := by omega
    have exactly : Int.bmod number (2 ^ 32) = number := by
      apply Int.bmod_eq_of_le
      · omega
      · omega
    rw [min_eq_right unclamped, exactly]
    omega

variable (wire : WireRequest)

/-- The announced length is in the header field exactly when there is a body. -/
theorem field_contentLength :
    wire.field (text "content-length") =
      if wire.body = [] then none else some (decimal wire.body.length) := by
  rw [WireRequest.field]
  cases found : wire.headers.find? fun line => decide (line.key = text "content-length") with
  | none =>
    have empty : wire.body = [] := by
      by_contra nonempty
      obtain ⟨line, member, key⟩ := wire.unannounced nonempty
      exact absurd (List.find?_eq_none.mp found line member) (by simp [key])
    rw [if_pos empty]
    rfl
  | some line =>
    have key : line.key = text "content-length" := by
      simpa using List.find?_some found
    obtain ⟨nonempty, value⟩ := wire.announced line (List.mem_of_find?_eq_some found) key
    rw [if_neg nonempty, ← value]
    rfl

theorem lineEnd_render :
    lineEnd wire.render = some (wire.requestLine,
      wire.headers.flatMap (fun line => line.render ++ text "\r\n") ++
        text "\r\n" ++ wire.body) := by
  have found := lineEnd_line (requestLine_plain wire)
    (wire.headers.flatMap (fun line => line.render ++ text "\r\n") ++ text "\r\n" ++ wire.body)
  simpa only [WireRequest.render, List.append_assoc] using found

/-- The parser on a well-formed request with a target, but for the body. -/
theorem httpRequestParse_render (some_target : wire.target ≠ []) :
    httpRequestParse wire.render =
      some (parseBody { wire.meaning with body := none, bodyLength := 0 } wire.body) := by
  simp only [httpRequestParse, lineEnd_render, Option.bind_eq_bind, Option.bind_some, ge_iff_le,
    if_neg (not_le.mpr (requestLine_length wire)), parseRequestLine_wire wire some_target,
    parseHeaders_lines, stored_headers]
  rfl

theorem httpRequestParse_no_target (no_target : wire.target = []) :
    httpRequestParse wire.render = none := by
  simp only [httpRequestParse, lineEnd_render, Option.bind_eq_bind, Option.bind_some, ge_iff_le,
    if_neg (not_le.mpr (requestLine_length wire)), parseRequestLine_no_target wire no_target,
    Option.bind_none]

theorem render_length : wire.body.length + 2 ≤ wire.render.length := by
  have ending : (text "\r\n").length = 2 := rfl
  simp only [WireRequest.render, List.length_append]
  omega

/-- The body is the announced one exactly when `atoi` reads its length. -/
theorem parseBody_iff (size : wire.render.length < 2 ^ 64) :
    parseBody { wire.meaning with body := none, bodyLength := 0 } wire.body = wire.meaning ↔
      wire.body.length < 2 ^ 31 := by
  have announced := field_contentLength wire
  by_cases empty : wire.body = []
  · rw [if_pos empty] at announced
    simp [parseBody, WireRequest.meaning, announced, empty]
  · have below : wire.body.length < 2 ^ 64 - 1 := by
      have longer := render_length wire
      omega
    rw [if_neg empty] at announced
    rw [← contentLength_iff below]
    simp only [parseBody, WireRequest.meaning, announced, if_neg empty]
    constructor
    · intro same
      split_ifs at same with inside
      · exact congrArg HttpRequest.bodyLength same
      · cases congrArg HttpRequest.body same
    · intro same
      rw [same, if_pos ⟨List.length_pos_iff.mpr empty, le_refl _⟩, List.take_length]

end Body

/-- The parser gives a well-formed request its meaning, provided that there is a target
and that the body is shorter than 2 GiB. -/
theorem parse_well_formed (wire : WireRequest) (size : wire.render.length < 2 ^ 64) :
    httpRequestParse wire.render = some wire.meaning ↔
      wire.target ≠ [] ∧ wire.body.length < 2 ^ 31 := by
  by_cases no_target : wire.target = []
  · rw [httpRequestParse_no_target wire no_target]
    simp [no_target]
  · rw [httpRequestParse_render wire no_target, Option.some.injEq, parseBody_iff wire size]
    simp [no_target]

/-- The header line that announces a body. -/
def contentLengthLine (length : Nat) (fits : (decimal length).length ≤ 1023) : HeaderLine where
  name := text "Content-Length"
  value := decimal length
  name_fits := by decide
  name_plain := by decide +kernel
  value_fits := ⟨decimal_ne_nil length, fits⟩
  value_plain := fun byte member => digit_visible ((decimal_value length).1 byte member)
  value_start := fun byte first =>
    (digit_plain ((decimal_value length).1 byte (List.mem_of_head? first))).1

theorem contentLengthLine_key (length : Nat) (fits : (decimal length).length ≤ 1023) :
    (contentLengthLine length fits).key = text "content-length" := by
  have lower : (text "Content-Length").map tolower = text "content-length" := by decide +kernel
  exact lower

/-- A request with a body. -/
def postRequest (body : Bytes) (nonempty : body ≠ []) (fits : (decimal body.length).length ≤ 1023) :
    WireRequest where
  method := .post
  path := text "/api"
  query := some (text "x=1")
  version := .http11
  headers := [contentLengthLine body.length fits]
  body := body
  method_known := by decide
  version_known := by decide
  path_plain := by decide
  target_plain := by decide +kernel
  target_fits := by decide
  distinct := List.nodup_singleton _
  announced := by
    intro line member _
    rw [List.mem_singleton.mp member]
    exact ⟨nonempty, rfl⟩
  unannounced := fun _ => ⟨_, List.mem_singleton_self _, contentLengthLine_key _ fits⟩

/-- A request without a target. -/
def untargetedRequest : WireRequest where
  method := .get
  path := []
  query := none
  version := .http11
  headers := []
  body := []
  method_known := by decide
  version_known := by decide
  path_plain := by decide
  target_plain := by simp [renderTarget]
  target_fits := by decide
  distinct := List.nodup_nil
  announced := by simp
  unannounced := by simp

theorem parse_well_formed_small :
    httpRequestParse (postRequest (text "hi") (by decide) (by decide)).render =
      some (postRequest (text "hi") (by decide) (by decide)).meaning := by
  apply (parse_well_formed (postRequest (text "hi") (by decide) (by decide)) ?_).mpr
  · exact ⟨by decide, by decide⟩
  · decide +kernel

theorem postRequest_size {body : Bytes} {nonempty : body ≠ []}
    {fits : (decimal body.length).length ≤ 1023}
    (size : body.length < 2 ^ 63) : (postRequest body nonempty fits).render.length < 2 ^ 64 := by
  have line := (contentLengthLine body.length fits).render_length
  have first := requestLine_length (postRequest body nonempty fits)
  have ending : (text "\r\n").length = 2 := rfl
  have headers : (postRequest body nonempty fits).headers = [contentLengthLine body.length fits] :=
    rfl
  have same : (postRequest body nonempty fits).body = body := rfl
  simp only [WireRequest.render, headers, same, List.flatMap_singleton,
    List.length_append, lineSize] at *
  omega

theorem postRequest_large {body : Bytes} (nonempty : body ≠ [])
    (fits : (decimal body.length).length ≤ 1023)
    (large : 2 ^ 31 ≤ body.length) (size : body.length < 2 ^ 63) :
    httpRequestParse (postRequest body nonempty fits).render ≠
      some (postRequest body nonempty fits).meaning := by
  have target : (postRequest body nonempty fits).target ≠ [] := List.cons_ne_nil _ _
  rw [httpRequestParse_render _ target, ne_eq, Option.some.injEq,
    parseBody_iff _ (postRequest_size size)]
  exact not_lt.mpr large

theorem zeros_ne_nil : List.replicate (2 ^ 31) (0 : UInt8) ≠ [] :=
  mt (List.replicate_eq_nil_iff 0).mp (by decide)

theorem zeros_fit : (decimal (List.replicate (2 ^ 31) (0 : UInt8)).length).length ≤ 1023 := by
  rw [List.length_replicate]
  decide +kernel

/-- A body of 2 GiB is dropped, and a request without a target is refused. -/
theorem well_formed_not_parsed :
    httpRequestParse (postRequest (List.replicate (2 ^ 31) 0) zeros_ne_nil zeros_fit).render ≠
      some (postRequest (List.replicate (2 ^ 31) 0) zeros_ne_nil zeros_fit).meaning ∧
    httpRequestParse untargetedRequest.render ≠ some untargetedRequest.meaning := by
  constructor
  · apply postRequest_large
    · rw [List.length_replicate]
    · rw [List.length_replicate]
      decide
  · rw [httpRequestParse_no_target untargetedRequest rfl]
    exact Option.some_ne_none _ ∘ Eq.symm

end LinuxCLearning.WebServer
