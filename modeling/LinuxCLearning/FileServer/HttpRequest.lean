import LinuxCLearning.Base.Chain
import LinuxCLearning.Base.Ctype

/-! How the administration server takes an HTTP request apart, and what it finds in a
request put together from a method, a path, header lines and a body. -/

namespace LinuxCLearning.FileServer

section Parser

/-- `memchr(start, '\n', end - start)`: the bytes before the line feed and those behind it. -/
def splitLine (start : Bytes) : Option (Bytes × Bytes) :=
  if 10 ∈ start then some (start.takeWhile (· ≠ 10), (start.dropWhile (· ≠ 10)).tail) else none

/-- `strstr`: where the needle first occurs. -/
def strstr (needle : Bytes) : Bytes → Option Nat
  | [] => none
  | byte :: rest => if needle <+: byte :: rest then some 0 else (strstr needle rest).map (· + 1)

/-- `strncasecmp(start, name, strlen(name)) == 0`. -/
def beginsWith (name start : Bytes) : Bool := sameIgnoringCase (start.take name.length) name

def httpMethods : List Bytes := [text "GET", text "POST", text "HEAD", text "PUT", text "DELETE"]

/-- A parsed request. The body is given by its place in the buffer. -/
@[ext]
structure HttpRequest where
  method : Bytes
  path : Bytes
  host : Bytes
  contentLength : Int
  body : Option Nat
  deriving DecidableEq

/-- What a `Host` line stores. -/
def hostOf (line : Bytes) : Bytes :=
  let value := (line.drop 5).dropWhile (· = 32)
  let value := if value.getLast? = some 13 then value.dropLast else value
  (CString.ofBuffer (value.take 127)).bytes

/-- One header line, with everything from its beginning on. -/
def readHeader (line start : Bytes) (request : HttpRequest) : HttpRequest :=
  let request := if beginsWith (text "Host:") start then { request with host := hostOf line }
    else request
  if beginsWith (text "Content-Length:") start then
    { request with contentLength := atoi (start.drop 15) }
  else request

theorem splitLine_shorter {start line rest : Bytes} (found : splitLine start = some (line, rest)) :
    rest.length < start.length := by
  unfold splitLine at found
  split at found
  · rename_i member
    obtain ⟨-, rfl⟩ := Prod.mk.inj (Option.some.inj found)
    have positive := List.length_pos_of_mem member
    have cut := (List.dropWhile_sublist (l := start) (· ≠ 10)).length_le
    rw [List.length_tail]
    omega
  · cases found

/-- The loop over the header lines. -/
def readHeaders (start : Bytes) (request : HttpRequest) : HttpRequest :=
  match found : splitLine start with
  | none => request
  | some (line, rest) =>
    if line.length ≤ 1 then request
    else
      have := splitLine_shorter found
      readHeaders rest (readHeader line start request)
termination_by start.length

/-- The body behind the first empty line. -/
def bodyOf (buf : Bytes) : Option Nat := do
  let start ← strstr (text "\r\n\r\n") (CString.ofBuffer buf).bytes
  if start + 4 < buf.length ∧ buf[start + 4]? ≠ some 0 then some (start + 4) else none

/-- The request in the bytes received, a NUL behind them. -/
def parseRequestFromBuf (buf : Bytes) : Option HttpRequest := do
  let line ← splitLine buf
  let method ← scanWord 7 (CString.ofBuffer buf).bytes
  let path ← scanWord 255 method.2
  if httpMethods.contains method.1 then
    some { readHeaders line.2 ⟨method.1, path.1, [], 0, none⟩ with body := bodyOf buf }
  else none

end Parser

/-- A header line `Name: value`. -/
structure HeaderLine where
  name : Bytes
  value : Bytes
  name_plain : ∀ byte ∈ name, byte ≠ 58 ∧ byte ≠ 10
  value_plain : 10 ∉ value

/-- The name without regard to letter case. -/
def HeaderLine.key (line : HeaderLine) : Bytes := line.name.map tolower

def HeaderLine.render (line : HeaderLine) : Bytes := line.name ++ text ": " ++ line.value

/-- The digits that a value begins with behind its white space. -/
def leadingDigits (value : Bytes) : Bytes :=
  (value.dropWhile isspace).takeWhile fun byte => decide (48 ≤ byte ∧ byte ≤ 57)

/-- A value that announces a number: digits, and white space around them. -/
def Numeric (value : Bytes) : Prop :=
  leadingDigits value ≠ [] ∧
    ∀ byte ∈ (value.dropWhile isspace).dropWhile (fun byte => decide (48 ≤ byte ∧ byte ≤ 57)),
      isspace byte = true

instance (value : Bytes) : Decidable (Numeric value) := inferInstanceAs (Decidable (_ ∧ _))

/-- The number that a value announces. -/
def announcedBy (value : Bytes) : Nat :=
  (leadingDigits value).foldl (fun number digit => number * 10 + (digit.toNat - 48)) 0

/-- The parts of a request. -/
structure WireRequest where
  method : Bytes
  path : Bytes
  version : Bytes
  headers : List HeaderLine
  body : Bytes
  method_known : method ∈ httpMethods
  path_fits : path ≠ [] ∧ path.length ≤ 255
  path_visible : ∀ byte ∈ path, isspace byte = false
  version_visible : ∀ byte ∈ version, isspace byte = false
  host_once : (headers.filter fun line => decide (line.key = text "host")).length ≤ 1
  length_once : (headers.filter fun line => decide (line.key = text "content-length")).length ≤ 1
  length_numeric : ∀ line ∈ headers, line.key = text "content-length" → Numeric line.value
  body_nulFree : 0 ∉ body

namespace WireRequest
variable (wire : WireRequest)

def requestLine : Bytes := wire.method ++ text " " ++ wire.path ++ text " " ++ wire.version

def headerLines : Bytes := wire.headers.flatMap fun line => line.render ++ text "\r\n"

/-- Everything before the body. -/
def head : Bytes := wire.requestLine ++ text "\r\n" ++ wire.headerLines ++ text "\r\n"

/-- The bytes of the request. -/
def render : Bytes := wire.head ++ wire.body

/-- The value of the header of this name. -/
def field (key : Bytes) : Option Bytes :=
  (wire.headers.find? fun line => decide (line.key = key)).map HeaderLine.value

/-- The host without the spaces before it, cut to 127 bytes. -/
def host : Bytes := (((wire.field (text "host")).getD []).dropWhile (· = 32)).take 127

/-- The length that the request announces. -/
def announced : Nat := (wire.field (text "content-length")).elim 0 announcedBy

/-- What the request says. -/
def meaning : HttpRequest where
  method := wire.method
  path := wire.path
  host := wire.host
  contentLength := wire.announced
  body := if wire.body = [] then none else some wire.head.length

/-- The announced length is an `int`, and no NUL cuts the path, the host or the way to the body. -/
def Representable : Prop :=
  wire.announced < 2 ^ 31 ∧ 0 ∉ wire.path ∧ 0 ∉ wire.host ∧ (wire.body = [] ∨ 0 ∉ wire.head)

instance : Decidable wire.Representable := inferInstanceAs (Decidable (_ ∧ _))

end WireRequest

section Lines

theorem splitLine_line {line : Bytes} (plain : 10 ∉ line) (rest : Bytes) :
    splitLine (line ++ 10 :: rest) = some (line, rest) := by
  have kept : ∀ byte ∈ line, decide (byte ≠ 10) = true := by
    intro byte member
    apply decide_eq_true
    rintro rfl
    exact plain member
  have stops : ∀ byte, (10 :: rest : Bytes).head? = some byte → decide (byte ≠ 10) = false := by
    rintro _ ⟨⟩
    rfl
  have member : 10 ∈ line ++ 10 :: rest := List.mem_append_right _ List.mem_cons_self
  rw [splitLine, if_pos member, takeWhile_stops kept stops,
    dropWhile_stops kept stops, List.tail_cons]

theorem tolower_colon {byte : UInt8} (plain : byte ≠ 58) : tolower byte ≠ 58 := by
  unfold tolower
  split
  · rename_i upper
    have low := UInt8.le_iff_toNat_le.mp upper.1
    have high := UInt8.le_iff_toNat_le.mp upper.2
    intro same
    have shifted := congrArg UInt8.toNat same
    simp only [UInt8.toNat_add, UInt8.reduceToNat] at low high shifted
    omega
  · exact plain

theorem colon_prefix {first second : Bytes} (firstPlain : 58 ∉ first)
    (secondPlain : 58 ∉ second) (rest : Bytes) :
    (first ++ 58 :: rest).take (second.length + 1) = second ++ [58] ↔ first = second := by
  induction first generalizing second with
  | nil =>
    cases second with
    | nil => simp
    | cons letter second =>
      simp only [List.mem_cons, not_or] at secondPlain
      simp [secondPlain.1]
  | cons byte first ih =>
    simp only [List.mem_cons, not_or] at firstPlain
    cases second with
    | nil => simp [Ne.symm firstPlain.1]
    | cons letter second =>
      simp only [List.mem_cons, not_or] at secondPlain
      simp only [List.cons_append, List.length_cons, List.take_succ_cons, List.cons.injEq,
        ih firstPlain.2 secondPlain.2]

namespace HeaderLine
variable (line : HeaderLine)

/-- A line begins with a name and a colon when that is its name. -/
theorem beginsWith_render {name : Bytes} (plain : 58 ∉ name) (rest : Bytes) :
    beginsWith (name ++ [58]) (line.render ++ rest) = decide (line.key = name.map tolower) := by
  have keyPlain : 58 ∉ line.key := by
    intro member
    obtain ⟨byte, inside, same⟩ := List.mem_map.mp member
    exact tolower_colon (line.name_plain byte inside).1 same
  have namePlain : 58 ∉ name.map tolower := by
    intro member
    obtain ⟨byte, inside, same⟩ := List.mem_map.mp member
    refine tolower_colon ?_ same
    rintro rfl
    exact plain inside
  have lowered : (line.render ++ rest).map tolower =
      line.key ++ 58 :: ((text " " ++ line.value ++ rest).map tolower) := by
    simp only [render, key, List.map_append, List.append_assoc]
    rfl
  have nameLength : (name ++ [58]).length = (name.map tolower).length + 1 := by simp
  have colon : (name ++ [58]).map tolower = name.map tolower ++ [58] := by
    rw [List.map_append]
    rfl
  rw [beginsWith, sameIgnoringCase, List.map_take, lowered, nameLength, colon,
    Bool.eq_iff_iff, beq_iff_eq,
    decide_eq_true_iff]
  exact colon_prefix keyPlain namePlain _

theorem render_plain : 10 ∉ line.render ++ [13] := by
  intro member
  simp only [render, List.mem_append] at member
  obtain ((name | colon) | value) | ending := member
  · exact (line.name_plain 10 name).2 rfl
  · simp [text] at colon
  · exact line.value_plain value
  · simp at ending

end HeaderLine

/-- The `int` that `atoi` makes of a number. -/
def narrowed (number : Nat) : Int := Int.bmod (min (2 ^ 63 - 1) number) (2 ^ 32)

theorem narrowed_exact (number : Nat) : narrowed number = number ↔ number < 2 ^ 31 := by
  rw [narrowed, Int.bmod_def]
  constructor
  · split
    · omega
    · omega
  · intro small
    rw [if_pos (by omega)]
    omega

theorem foldl_cast (digits : Bytes) (all : ∀ byte ∈ digits, 48 ≤ byte ∧ byte ≤ 57) (start : Nat) :
    digits.foldl (fun (value : Int) digit => value * 10 + (digit.toNat - 48)) start =
      (digits.foldl (fun (number : Nat) digit => number * 10 + (digit.toNat - 48)) start :
        Nat) := by
  induction digits generalizing start with
  | nil => rfl
  | cons digit digits ih =>
    have low := UInt8.le_iff_toNat_le.mp (all digit List.mem_cons_self).1
    have step : (start : Int) * 10 + (digit.toNat - 48) =
        (start * 10 + (digit.toNat - 48) : Nat) := by
      simp only [UInt8.reduceToNat] at low
      omega
    rw [List.foldl_cons, List.foldl_cons, step]
    exact ih (fun byte member => all byte (List.mem_cons_of_mem _ member)) _

theorem atoi_numeric {value : Bytes} (numeric : Numeric value) (rest : Bytes) :
    atoi (text " " ++ value ++ text "\r\n" ++ rest) = narrowed (announcedBy value) := by
  obtain ⟨some_digits, blank⟩ := numeric
  have digits : ∀ byte ∈ leadingDigits value, 48 ≤ byte ∧ byte ≤ 57 := by
    intro byte member
    simpa using List.mem_takeWhile_imp member
  have before : ∀ byte ∈ text " " ++ value.takeWhile isspace, isspace byte = true := by
    intro byte member
    rcases List.mem_append.mp member with space | inside
    · rw [List.mem_singleton.mp space]
      rfl
    · exact List.mem_takeWhile_imp inside
  have behind : ∀ byte,
      ((value.dropWhile isspace).dropWhile (fun byte => decide (48 ≤ byte ∧ byte ≤ 57)) ++
        (text "\r\n" ++ rest)).head? = some byte → ¬ (48 ≤ byte ∧ byte ≤ 57) := by
    intro byte first digit
    have visible := (digit_plain digit).1
    cases tail : (value.dropWhile isspace).dropWhile (fun byte =>
      decide (48 ≤ byte ∧ byte ≤ 57)) with
    | nil =>
      rw [tail] at first
      cases first
      revert digit
      decide
    | cons other more =>
      rw [tail] at first blank
      cases first
      rw [blank byte List.mem_cons_self] at visible
      cases visible
  have shape : text " " ++ value ++ text "\r\n" ++ rest =
      text " " ++ value.takeWhile isspace ++ (leadingDigits value ++
        ((value.dropWhile isspace).dropWhile (fun byte => decide (48 ≤ byte ∧ byte ≤ 57)) ++
          (text "\r\n" ++ rest))) := by
    rw [← List.append_assoc (leadingDigits value), leadingDigits, List.takeWhile_append_dropWhile,
      List.append_assoc (text " ") (value.takeWhile isspace),
      ← List.append_assoc (value.takeWhile isspace),
      List.takeWhile_append_dropWhile]
    simp only [List.append_assoc]
  have number := decimalValue_padded before some_digits digits behind
  have same := foldl_cast (leadingDigits value) digits 0
  rw [Nat.cast_zero, ← announcedBy] at same
  rw [atoi_value, shape, number, same, narrowed, max_eq_right]
  omega

/-- What a `Host` line stores is its value without the spaces before it, cut to 127 bytes. -/
theorem hostOf_value (value : Bytes) {name : Bytes} (named : name.length = 4) :
    hostOf (name ++ text ": " ++ value ++ [13]) =
      (CString.ofBuffer ((value.dropWhile (· = 32)).take 127)).bytes := by
  have cut : (name ++ text ": " ++ value ++ [13]).drop 5 = [32] ++ value ++ [13] := by
    have shape : name ++ text ": " ++ value ++ [13] = name ++ [58] ++ ([32] ++ value ++ [13]) := by
      simp [text]
    rw [shape, List.drop_left' (by simp [named])]
  have trimmed : ([32] ++ value ++ [13]).dropWhile (· = 32) = value.dropWhile (· = 32) ++ [13] := by
    clear cut
    induction value with
    | nil => rfl
    | cons byte value ih =>
      by_cases space : byte = 32
      · subst space
        exact ih
      · simp [space]
  simp only [hostOf, cut, trimmed, List.getLast?_concat, if_true, List.dropLast_concat]

namespace HeaderLine
variable (line : HeaderLine)

/-- What a line does to the request. -/
def store (request : HttpRequest) : HttpRequest :=
  { request with
    host :=
      if line.key = text "host" then
        (CString.ofBuffer ((line.value.dropWhile (· = 32)).take 127)).bytes
      else request.host
    contentLength :=
      if line.key = text "content-length" then narrowed (announcedBy line.value)
      else request.contentLength }

theorem readHeader_render (numeric : line.key = text "content-length" → Numeric line.value)
    (request : HttpRequest) (rest : Bytes) :
    readHeader (line.render ++ [13]) (line.render ++ text "\r\n" ++ rest) request =
      line.store request := by
  have isHost : beginsWith (text "Host:") (line.render ++ text "\r\n" ++ rest) =
      decide (line.key = text "host") := by
    rw [List.append_assoc]
    exact @beginsWith_render line (text "Host") (by decide) _
  have isLength : beginsWith (text "Content-Length:") (line.render ++ text "\r\n" ++ rest) =
      decide (line.key = text "content-length") := by
    rw [List.append_assoc]
    exact @beginsWith_render line (text "Content-Length") (by decide) _
  have hosted (named : line.key = text "host") : hostOf (line.render ++ [13]) =
      (CString.ofBuffer ((line.value.dropWhile (· = 32)).take 127)).bytes := by
    have named := congrArg List.length named
    rw [key, List.length_map] at named
    exact hostOf_value line.value named
  have announced (named : line.key = text "content-length") :
      atoi ((line.render ++ text "\r\n" ++ rest).drop 15) = narrowed (announcedBy line.value) := by
    have shape : line.render ++ text "\r\n" ++ rest =
        line.name ++ text ":" ++ (text " " ++ line.value ++ text "\r\n" ++ rest) := by
      simp [render, text]
    have length := congrArg List.length named
    rw [key, List.length_map] at length
    rw [shape, List.drop_left' (by rw [List.length_append, length]; rfl),
      atoi_numeric (numeric named)]
  simp only [readHeader, isHost, isLength, store, decide_eq_true_iff]
  by_cases host : line.key = text "host"
  · have other : line.key ≠ text "content-length" := by
      rw [host]
      decide
    rw [if_pos host, if_neg other, if_pos host, if_neg other, hosted host]
  · by_cases length : line.key = text "content-length"
    · rw [if_neg host, if_pos length, if_neg host, if_pos length, announced length]
    · rw [if_neg host, if_neg length, if_neg host, if_neg length]

end HeaderLine

theorem readHeaders_line (line : HeaderLine)
    (numeric : line.key = text "content-length" → Numeric line.value)
    (request : HttpRequest) (rest : Bytes) :
    readHeaders (line.render ++ text "\r\n" ++ rest) request = readHeaders rest
      (line.store request) := by
  have shape : line.render ++ text "\r\n" ++ rest = line.render ++ [13] ++ 10 :: rest := by
    simp [text]
  have found := splitLine_line line.render_plain rest
  have long : ¬ (line.render ++ [13]).length ≤ 1 := by
    have colon : (text ": ").length = 2 := rfl
    simp only [HeaderLine.render, List.length_append, List.length_singleton, colon]
    omega
  rw [← line.readHeader_render numeric request rest, readHeaders]
  split
  · rename_i nothing
    rw [shape, found] at nothing
    cases nothing
  · rename_i other behind same
    rw [shape, found] at same
    cases same
    rw [if_neg long]

theorem readHeaders_lines (lines : List HeaderLine)
    (numeric : ∀ line ∈ lines, line.key = text "content-length" → Numeric line.value)
    (request : HttpRequest) (body : Bytes) :
    readHeaders ((lines.flatMap fun line => line.render ++ text "\r\n") ++ text "\r\n" ++ body)
      request =
      lines.foldl (fun request line => line.store request) request := by
  induction lines generalizing request with
  | nil =>
    have found : splitLine ([13] ++ 10 :: body) = some ([13], body) :=
      splitLine_line (by decide) body
    rw [List.flatMap_nil, List.nil_append, List.foldl_nil, readHeaders]
    split
    · rfl
    · rename_i other behind same
      have same := found.symm.trans same
      cases same
      rfl
  | cons line lines ih =>
    have shape : ((line :: lines).flatMap fun line => line.render ++ text "\r\n") ++
        text "\r\n" ++ body =
        line.render ++ text "\r\n" ++
          ((lines.flatMap fun line => line.render ++ text "\r\n") ++ text "\r\n" ++ body) := by
      simp only [List.flatMap_cons, List.append_assoc]
    rw [shape, readHeaders_line line (numeric line List.mem_cons_self), List.foldl_cons]
    exact ih (fun other member => numeric other (List.mem_cons_of_mem _ member)) _

end Lines

section Fields

variable (wire : WireRequest)

theorem stored_request (method path : Bytes) :
    wire.headers.foldl (fun request line => line.store request) ⟨method, path, [], 0, none⟩ =
      ⟨method, path, (CString.ofBuffer wire.host).bytes, narrowed wire.announced, none⟩ := by
  have host := Chain.foldl_set HttpRequest.host (fun request line => line.store request)
    (fun line _ => (CString.ofBuffer ((line.value.dropWhile (· = 32)).take 127)).bytes)
    (fun _ _ => rfl) wire.headers wire.host_once ⟨method, path, [], 0, none⟩
  have length := Chain.foldl_set HttpRequest.contentLength (fun request line => line.store request)
    (fun line _ => narrowed (announcedBy line.value))
    (fun _ _ => rfl) wire.headers wire.length_once ⟨method, path, [], 0, none⟩
  have kept : ∀ (lines : List HeaderLine) (request : HttpRequest),
      (lines.foldl (fun request line => line.store request) request).method = request.method ∧
        (lines.foldl (fun request line => line.store request) request).path = request.path ∧
          (lines.foldl (fun request line => line.store request) request).body = request.body := by
    intro lines
    induction lines with
    | nil => exact fun _ => ⟨rfl, rfl, rfl⟩
    | cons line lines ih => exact fun request => ih (line.store request)
  obtain ⟨sameMethod, samePath, sameBody⟩ := kept wire.headers ⟨method, path, [], 0, none⟩
  generalize wire.headers.foldl (fun request line => line.store request)
    ⟨method, path, [], 0, none⟩ = stored at *
  cases stored
  simp only [HttpRequest.mk.injEq]
  refine ⟨sameMethod, samePath, host.trans ?_, length.trans ?_, sameBody⟩
  · rw [WireRequest.host, WireRequest.field, Chain.find]
    cases wire.headers.find? _ <;> rfl
  · rw [WireRequest.announced, WireRequest.field, Chain.find]
    cases wire.headers.find? _ <;> rfl

end Fields

section RequestLine

theorem httpMethods_word {method : Bytes} (known : method ∈ httpMethods) :
    method ≠ [] ∧ method.length ≤ 7 ∧ ∀ byte ∈ method, isspace byte = false ∧ byte ≠ 0 := by
  simp only [httpMethods, List.mem_cons, List.not_mem_nil, or_false] at known
  obtain rfl | rfl | rfl | rfl | rfl := known
  all_goals decide +kernel

variable (wire : WireRequest)

theorem requestLine_plain : 10 ∉ wire.requestLine := by
  intro member
  simp only [WireRequest.requestLine, List.mem_append] at member
  obtain (((method | space) | path) | space) | version := member
  · cases ((httpMethods_word wire.method_known).2.2 10 method).1
  · cases List.mem_singleton.mp space
  · cases wire.path_visible 10 path
  · cases List.mem_singleton.mp space
  · cases wire.version_visible 10 version

theorem readHeaders_path (start : Bytes) (request : HttpRequest) :
    (readHeaders start request).path = request.path := by
  have kept (line start : Bytes) (request : HttpRequest) : (readHeader line start request).path =
      request.path := by
    simp only [readHeader]
    split <;> split <;> rfl
  fun_induction readHeaders start request with
  | case1 => rfl
  | case2 => rfl
  | case3 start request line rest found long shorter ih => exact ih.trans (kept line start request)

theorem parseRequestFromBuf_path {buf : Bytes} {request : HttpRequest}
    (parsed : parseRequestFromBuf buf = some request) : 0 ∉ request.path := by
  simp only [parseRequestFromBuf, Option.bind_eq_bind, Option.bind_eq_some_iff] at parsed
  obtain ⟨_, _, ⟨method, rest⟩, first, ⟨path, _⟩, second, parsed⟩ := parsed
  split at parsed
  · obtain rfl := Option.some.inj parsed
    rw [readHeaders_path]
    intro member
    have behind := scanWord_subset second 0 member
    simp only [scanWord] at first
    split at first
    · cases first
    · obtain ⟨-, rfl⟩ := Prod.mk.inj (Option.some.inj first)
      exact (CString.ofBuffer buf).nulFree
        ((List.dropWhile_sublist _).mem (List.mem_of_mem_drop behind))
  · cases parsed

theorem requestLine_scanned (string : 0 ∉ wire.path) :
    ∃ rest version, scanWord 7 (CString.ofBuffer wire.render).bytes = some (wire.method, rest) ∧
      scanWord 255 rest = some (wire.path, version) := by
  obtain ⟨some_method, method_fits, method_plain⟩ := httpMethods_word wire.method_known
  have shape : wire.render = (wire.method ++ text " " ++ wire.path ++ text " ") ++
      (wire.version ++ text "\r\n" ++ wire.headerLines ++ text "\r\n" ++ wire.body) := by
    simp only [WireRequest.render, WireRequest.head, WireRequest.requestLine, List.append_assoc]
  have nonzero : ∀ byte ∈ wire.method ++ text " " ++ wire.path ++ text " ",
      decide (byte ≠ 0) = true := by
    intro byte member
    apply decide_eq_true
    rintro rfl
    simp only [List.mem_append] at member
    obtain ((method | space) | path) | space := member
    · exact (method_plain 0 method).2 rfl
    · cases List.mem_singleton.mp space
    · exact string path
    · cases List.mem_singleton.mp space
  obtain ⟨rest, start⟩ : ∃ rest, (CString.ofBuffer wire.render).bytes =
      wire.method ++ text " " ++ wire.path ++ text " " ++ rest := by
    rw [shape]
    exact ⟨_, List.takeWhile_append_of_pos nonzero⟩
  rw [start]
  refine ⟨text " " ++ (wire.path ++ (text " " ++ rest)), text " " ++ rest, ?_, ?_⟩
  · rw [List.append_assoc, List.append_assoc, List.append_assoc]
    apply scanWord_word some_method method_fits
    · exact fun byte member => (method_plain byte member).1
    · rintro _ ⟨⟩
      rfl
  · rw [scanWord_space]
    apply scanWord_word wire.path_fits.1 wire.path_fits.2 wire.path_visible
    rintro _ ⟨⟩
    rfl

end RequestLine

section Body

theorem strstr_append {needle string : Bytes} {start : Nat}
    (found : strstr needle string = some start) (rest : Bytes) :
    strstr needle (string ++ rest) = some start ∧ start + needle.length ≤ string.length := by
  induction string generalizing start with
  | nil => cases found
  | cons byte string ih =>
    rw [strstr] at found
    by_cases here : needle <+: byte :: string
    · rw [if_pos here] at found
      obtain rfl := Option.some.inj found
      rw [List.cons_append, strstr, if_pos]
      · exact ⟨rfl, (Nat.zero_add _).le.trans here.length_le⟩
      · exact here.trans (List.prefix_append _ rest)
    · rw [if_neg here, Option.map_eq_some_iff] at found
      obtain ⟨later, found, rfl⟩ := found
      obtain ⟨same, fits⟩ := ih found
      have absent : ¬ needle <+: byte :: (string ++ rest) := by
        intro there
        apply here
        apply List.prefix_of_prefix_length_le there (List.prefix_append (byte :: string) rest)
        rw [List.length_cons]
        omega
      rw [List.cons_append, strstr, if_neg absent, same, Option.map_some, List.length_cons]
      exact ⟨rfl, by omega⟩

theorem emptyLine_skip {byte : UInt8} {rest : Bytes} (other : byte ≠ 13 ∨ rest.head? ≠ some 10) :
    strstr (text "\r\n\r\n") (byte :: rest) = (strstr (text "\r\n\r\n") rest).map (· + 1) := by
  rw [strstr, if_neg]
  rintro ⟨behind, same⟩
  have same : 13 :: 10 :: 13 :: 10 :: behind = byte :: rest := same
  obtain ⟨rfl, rfl⟩ := List.cons.inj same
  rcases other with visible | later
  · exact visible rfl
  · exact later rfl

theorem emptyLine_line {line : Bytes} (plain : 10 ∉ line) {rest : Bytes}
    (next : rest.head? ≠ some 10) :
    strstr (text "\r\n\r\n") (line ++ rest) =
      (strstr (text "\r\n\r\n") rest).map (· + line.length) := by
  induction line with
  | nil => simp
  | cons byte line ih =>
    simp only [List.mem_cons, not_or] at plain
    have later : (line ++ rest).head? ≠ some 10 := by
      cases line with
      | nil => exact next
      | cons second line =>
        intro first
        exact plain.2 (Option.some.inj first ▸ List.mem_cons_self)
    rw [List.cons_append, emptyLine_skip (Or.inr later), ih plain.2, Option.map_map]
    congr 1

theorem emptyLine_next {rest : Bytes} (more : ¬ text "\r\n" <+: rest) :
    strstr (text "\r\n\r\n") (text "\r\n" ++ rest) =
      (strstr (text "\r\n\r\n") rest).map (· + 2) := by
  have first : ¬ text "\r\n\r\n" <+: 13 :: 10 :: rest := by
    rintro ⟨behind, same⟩
    apply more
    have same : 13 :: 10 :: 13 :: 10 :: behind = 13 :: 10 :: rest := same
    simp only [List.cons.injEq, true_and] at same
    exact ⟨behind, same⟩
  have shape : text "\r\n" ++ rest = 13 :: 10 :: rest := rfl
  have feed : (10 : UInt8) ≠ 13 := by decide
  rw [shape, strstr, if_neg first, emptyLine_skip (Or.inl feed), Option.map_map]
  congr 1

theorem HeaderLine.render_visible (line : HeaderLine) (rest : Bytes) :
    ¬ text "\r\n" <+: line.render ++ rest := by
  rintro ⟨behind, same⟩
  have same : 13 :: 10 :: behind = line.name ++ (58 :: (text " " ++ (line.value ++ rest))) := by
    simpa [HeaderLine.render, text] using same
  cases name : line.name with
  | nil =>
    rw [name, List.nil_append] at same
    cases (List.cons.inj same).1
  | cons byte letters =>
    rw [name, List.cons_append] at same
    have second := (List.cons.inj same).2
    cases letters with
    | nil => cases (List.cons.inj second).1
    | cons letter letters =>
      apply (line.name_plain letter ?_).2
      · exact (List.cons.inj second).1.symm
      · rw [name]
        exact List.mem_cons_of_mem _ List.mem_cons_self

theorem emptyLine_headers (lines : List HeaderLine) (rest : Bytes) :
    strstr (text "\r\n\r\n")
        (text "\r\n" ++ ((lines.flatMap fun line => line.render ++ text "\r\n") ++
          (text "\r\n" ++ rest))) =
      some (lines.flatMap fun line => line.render ++ text "\r\n").length := by
  induction lines with
  | nil =>
    rw [List.flatMap_nil, List.nil_append, ← List.append_assoc]
    exact if_pos (List.prefix_append _ rest)
  | cons line lines ih =>
    have plain : 10 ∉ line.render := by
      intro member
      exact line.render_plain (List.mem_append_left _ member)
    have next : (text "\r\n" ++ ((lines.flatMap fun line => line.render ++ text "\r\n") ++
        (text "\r\n" ++ rest))).head? ≠ some 10 := by
      intro first
      cases Option.some.inj first
    have ending : (text "\r\n").length = 2 := rfl
    rw [List.flatMap_cons, List.append_assoc, List.append_assoc,
      emptyLine_next (line.render_visible _),
      emptyLine_line plain next, ih]
    simp only [Option.map_some, List.length_append, ending, Option.some.injEq]
    omega

variable (wire : WireRequest)

/-- The first empty line of a request is the one before its body. -/
theorem emptyLine_head (rest : Bytes) :
    ∃ start, start + 4 = wire.head.length ∧ strstr (text "\r\n\r\n")
      (wire.head ++ rest) = some start := by
  have shape : wire.head ++ rest =
      wire.requestLine ++ (text "\r\n" ++ (wire.headerLines ++ (text "\r\n" ++ rest))) := by
    simp only [WireRequest.head, List.append_assoc]
  refine ⟨wire.headerLines.length + wire.requestLine.length, ?_, ?_⟩
  · have ending : (text "\r\n").length = 2 := rfl
    simp only [WireRequest.head, List.length_append, ending]
    omega
  · have next : (text "\r\n" ++ (wire.headerLines ++ (text "\r\n" ++ rest))).head? ≠ some 10 := by
      intro first
      cases Option.some.inj first
    rw [shape, emptyLine_line (requestLine_plain wire) next,
      WireRequest.headerLines, emptyLine_headers,
      Option.map_some]

/-- The body is found unless a NUL comes before it. -/
theorem bodyOf_render :
    bodyOf wire.render = if wire.body = [] ∨ 0 ∈ wire.head then none
      else some wire.head.length := by
  obtain ⟨start, place, found⟩ := emptyLine_head wire wire.body
  have whole : (CString.ofBuffer wire.render).bytes ++ wire.render.dropWhile (· ≠ 0) =
      wire.head ++ wire.body :=
    List.takeWhile_append_dropWhile
  by_cases cut : 0 ∈ wire.head
  · have absent : strstr (text "\r\n\r\n") (CString.ofBuffer wire.render).bytes = none := by
      apply Option.eq_none_iff_forall_not_mem.mpr
      intro other early
      obtain ⟨same, fits⟩ := strstr_append early (wire.render.dropWhile (· ≠ 0))
      rw [whole, found] at same
      obtain rfl := Option.some.inj same
      have inside : wire.head <+: (CString.ofBuffer wire.render).bytes := by
        apply List.prefix_of_prefix_length_le (List.prefix_append wire.head wire.body)
        · rw [← whole]
          exact List.prefix_append _ _
        · rw [← place]
          exact fits
      exact (CString.ofBuffer wire.render).nulFree (inside.subset cut)
    rw [if_pos (Or.inr cut), bodyOf, absent]
    rfl
  · have string : (CString.ofBuffer wire.render).bytes = wire.head ++ wire.body := by
      apply takeWhile_whole
      intro member
      rcases List.mem_append.mp member with before | behind
      · exact cut before
      · exact wire.body_nulFree behind
    simp only [bodyOf, string, found, Option.bind_eq_bind, Option.bind_some, place]
    have length : wire.render.length = wire.head.length + wire.body.length := List.length_append
    have next : wire.render[wire.head.length]? = wire.body.head? := by
      rw [WireRequest.render, List.getElem?_append_right (le_refl _), Nat.sub_self,
        List.head?_eq_getElem?]
    rw [length, next]
    cases shape : wire.body with
    | nil => simp
    | cons byte rest =>
      have nonzero : (byte :: rest).head? ≠ some 0 := by
        intro first
        apply wire.body_nulFree
        rw [shape, Option.some.inj first]
        exact List.mem_cons_self
      rw [if_pos ⟨by rw [List.length_cons]; omega, nonzero⟩, if_neg]
      rintro (empty | early)
      · cases empty
      · exact cut early

end Body

section Requests
variable (wire : WireRequest)

theorem parseRequestFromBuf_render (string : 0 ∉ wire.path) :
    parseRequestFromBuf wire.render =
      some ⟨wire.method, wire.path, (CString.ofBuffer wire.host).bytes, narrowed wire.announced,
        bodyOf wire.render⟩ := by
  obtain ⟨rest, version, method, path⟩ := requestLine_scanned wire string
  have lines : splitLine wire.render =
      some (wire.requestLine ++ [13], wire.headerLines ++ text "\r\n" ++ wire.body) := by
    have shape : wire.render =
        wire.requestLine ++ [13] ++ 10 :: (wire.headerLines ++ text "\r\n" ++ wire.body) := by
      simp [WireRequest.render, WireRequest.head, text]
    have plain : 10 ∉ wire.requestLine ++ [13] := by
      simp [requestLine_plain wire]
    rw [shape, splitLine_line plain]
  have headers := readHeaders_lines wire.headers wire.length_numeric
    ⟨wire.method, wire.path, [], 0, none⟩ wire.body
  rw [stored_request, ← WireRequest.headerLines] at headers
  have known : httpMethods.contains wire.method = true :=
    List.contains_iff_mem.mpr wire.method_known
  simp only [parseRequestFromBuf, lines, method, path, Option.bind_eq_bind,
    Option.bind_some, headers,
    if_pos known]

/-- A request is read as it was written if and only if its announced length is an `int` and
no NUL cuts its path, its host or the way to its body. -/
theorem request_parsed_iff : parseRequestFromBuf wire.render = some wire.meaning ↔
    wire.Representable := by
  have body : bodyOf wire.render = wire.meaning.body ↔ wire.body = [] ∨ 0 ∉ wire.head := by
    rw [bodyOf_render, WireRequest.meaning]
    by_cases empty : wire.body = []
    · simp [empty]
    · by_cases cut : 0 ∈ wire.head
      · simp [empty, cut]
      · simp [empty, cut]
  constructor
  · intro parsed
    have string : 0 ∉ wire.path := parseRequestFromBuf_path parsed
    rw [parseRequestFromBuf_render wire string, Option.some.injEq, HttpRequest.ext_iff] at parsed
    obtain ⟨-, -, host, length, place⟩ := parsed
    exact ⟨(narrowed_exact _).mp length, string, (CString.ofBuffer_whole _).mp host, body.mp place⟩
  · rintro ⟨small, string, host, way⟩
    rw [parseRequestFromBuf_render wire string, (CString.ofBuffer_whole _).mpr host,
      (narrowed_exact _).mpr small,
      body.mpr way]
    rfl

end Requests

section Failures

theorem upload_known : text "POST" ∈ httpMethods := by decide

theorem upload_fits : text "/upload" ≠ [] ∧ (text "/upload").length ≤ 255 := by decide

theorem upload_visible : ∀ byte ∈ text "/upload", isspace byte = false := by decide +kernel

theorem version_visible : ∀ byte ∈ text "HTTP/1.1", isspace byte = false := by decide +kernel

/-- An upload with one header line. -/
def uploadWith (line : HeaderLine) (numeric : line.key = text "content-length" → Numeric line.value)
    (body : Bytes) (nulFree : 0 ∉ body) : WireRequest where
  method := text "POST"
  path := text "/upload"
  version := text "HTTP/1.1"
  headers := [line]
  body := body
  method_known := upload_known
  path_fits := upload_fits
  path_visible := upload_visible
  version_visible := version_visible
  host_once := List.length_filter_le _ [line]
  length_once := List.length_filter_le _ [line]
  length_numeric := by
    intro other member
    obtain rfl := List.mem_singleton.mp member
    exact numeric
  body_nulFree := nulFree

theorem contentLength_plain : ∀ byte ∈ text "Content-Length", byte ≠ 58 ∧ byte ≠ 10 := by
  decide +kernel

theorem twoGiB_plain : 10 ∉ text "2147483648" := by decide

def twoGiBLine : HeaderLine :=
  ⟨text "Content-Length", text "2147483648", contentLength_plain, twoGiB_plain⟩

theorem twoGiB_numeric : twoGiBLine.key = text "content-length" → Numeric twoGiBLine.value := by
  decide +kernel

theorem agent_plain : ∀ byte ∈ text "X", byte ≠ 58 ∧ byte ≠ 10 := by decide +kernel

theorem nul_plain : 10 ∉ ([0] : Bytes) := by decide

def nulLine : HeaderLine := ⟨text "X", [0], agent_plain, nul_plain⟩

theorem nulLine_numeric : nulLine.key = text "content-length" → Numeric nulLine.value := by
  decide +kernel

theorem hi_nulFree : 0 ∉ text "hi" := by decide

/-- An announced length of 2 GiB is read as a negative number, and a body behind a NUL is not
found. -/
theorem request_misread :
    parseRequestFromBuf (uploadWith twoGiBLine twoGiB_numeric [] List.not_mem_nil).render ≠
        some (uploadWith twoGiBLine twoGiB_numeric [] List.not_mem_nil).meaning ∧
      parseRequestFromBuf (uploadWith nulLine nulLine_numeric (text "hi") hi_nulFree).render ≠
        some (uploadWith nulLine nulLine_numeric (text "hi") hi_nulFree).meaning := by
  constructor
  · rw [parseRequestFromBuf_render _ (by decide), ne_eq, Option.some.injEq, HttpRequest.ext_iff]
    rintro ⟨-, -, -, length, -⟩
    revert length
    decide +kernel
  · rw [parseRequestFromBuf_render _ (by decide), ne_eq, Option.some.injEq, HttpRequest.ext_iff]
    rintro ⟨-, -, -, -, place⟩
    rw [bodyOf_render] at place
    revert place
    decide +kernel

end Failures

end LinuxCLearning.FileServer
