import LinuxCLearning.WebServer.Http

/-! Where the body of a request comes from. The parser takes it from the place where its
loop over the header lines stopped, which is behind the empty line only if nothing else
has stopped the loop. -/

namespace LinuxCLearning.WebServer

/-- The bytes that follow the first empty line. -/
def behindBlankLine : Bytes → Option Bytes
  | [] => none
  | byte :: rest =>
    if [13, 10, 13, 10] <+: byte :: rest then some (rest.drop 3) else behindBlankLine rest

/-- The place that `http_request_parse` takes the body from. -/
def bodyStart (data : Bytes) : Option Bytes :=
  (lineEnd data).map fun (_, rest) =>
    let position := (parseHeaders .empty rest).2
    if [13, 10] <+: position then position.drop 2 else position

/-- Header lines up to an empty one: each ends in a line end, is shorter than the line
buffer, contains no NUL and does not start with a carriage return. -/
inductive Closed : Bytes → Prop where
  | blank {position : Bytes} (empty : [13, 10] <+: position) : Closed position
  | line {position line rest : Bytes} (starts : position.headD 0 ≠ 0 ∧ position.headD 0 ≠ 13)
      (ends : lineEnd position = some (line, rest)) (short : line.length < lineSize)
      (further : Closed rest) : Closed position

/-- The header section of a request is closed by an empty line. -/
def HeadersClosed (data : Bytes) : Prop :=
  ∃ line rest, lineEnd data = some (line, rest) ∧ Closed rest

section Position

theorem parseHeaders_step (headers : HttpHeaders) {position line rest : Bytes}
    (goes : ¬ (position.headD 0 = 0 ∨ position.headD 0 = 13))
    (ends : lineEnd position = some (line, rest)) (short : ¬ line.length ≥ lineSize) :
    parseHeaders headers position = parseHeaders (parseHeader line headers) rest := by
  rw [parseHeaders, if_neg goes]
  split
  · rename_i missing
    rw [ends] at missing
    cases missing
  · rename_i found
    rw [ends] at found
    cases found
    rw [if_neg short]

theorem parseHeaders_stop (headers : HttpHeaders) {position : Bytes}
    (stops : (position.headD 0 = 0 ∨ position.headD 0 = 13) ∨ ∀ line rest,
      lineEnd position = some (line, rest) → line.length ≥ lineSize) :
    parseHeaders headers position = (headers, position) := by
  rw [parseHeaders]
  split
  · rfl
  · rename_i goes
    split
    · rfl
    · rename_i line rest found
      rw [if_pos ((stops.resolve_left goes) line rest found)]

/-- Where there is no proper line, only an empty one closes the section. -/
theorem closed_stop {position : Bytes}
    (stops : position.headD 0 ≠ 0 ∧ position.headD 0 ≠ 13 → ∀ line rest,
    lineEnd position = some (line, rest) → lineSize ≤ line.length) :
      [13, 10] <+: position ↔ Closed position := by
  constructor
  · intro empty
    exact .blank empty
  · intro closed
    cases closed with
    | blank empty => exact empty
    | line starts ends short _ => exact absurd (stops starts _ _ ends) (not_le.mpr short)

/-- The loop stops at an empty line exactly if there are only proper lines before it. -/
theorem parseHeaders_closed (headers : HttpHeaders) (position : Bytes) :
    [13, 10] <+: (parseHeaders headers position).2 ↔ Closed position := by
  fun_induction parseHeaders headers position with
  | case1 headers position stops =>
    apply closed_stop
    intro starts
    exact absurd stops (not_or.mpr starts)
  | case2 headers position goes missing =>
    apply closed_stop
    intro _ line rest ends
    rw [missing] at ends
    cases ends
  | case3 headers position goes line rest ends long =>
    apply closed_stop
    intro _ other behind found
    rw [ends] at found
    cases found
    exact long
  | case4 headers position goes line rest ends short ih =>
    rw [ih]
    constructor
    · intro closed
      exact .line (not_or.mp goes) ends (not_le.mp short) closed
    · intro closed
      cases closed with
      | blank empty =>
        obtain ⟨after, rfl⟩ := empty
        exact absurd (Or.inr rfl) goes
      | line _ found _ further =>
        rw [ends] at found
        cases found
        exact further

theorem behindBlankLine_shorter {data rest : Bytes} (found : behindBlankLine data = some rest) :
    rest.length < data.length := by
  fun_induction behindBlankLine data with
  | case1 => cases found
  | case2 byte data blank =>
    cases found
    rw [List.length_drop, List.length_cons]
    omega
  | case3 byte data _ ih => exact (ih found).trans (Nat.lt_succ_self _)

/-- What follows the first empty line from a place behind a line end. -/
def behindBlankFrom (position : Bytes) : Option Bytes :=
  if [13, 10] <+: position then some (position.drop 2) else behindBlankLine position

theorem behindBlankLine_line {data line rest : Bytes} (ends : lineEnd data = some (line, rest)) :
    behindBlankLine data = behindBlankFrom rest := by
  fun_induction lineEnd data generalizing line rest with
  | case1 => cases ends
  | case2 => cases ends
  | case3 after =>
    cases ends
    have second : ¬ [13, 10, 13, 10] <+: 10 :: after := by simp
    rw [behindBlankLine, behindBlankLine, if_neg second, behindBlankFrom]
    simp
  | case4 byte data _ other ih =>
    obtain ⟨⟨before, behind⟩, inside, same⟩ := Option.map_eq_some_iff.mp ends
    cases same
    have elsewhere : ¬ [13, 10, 13, 10] <+: byte :: data := by
      rintro ⟨after, same⟩
      obtain ⟨rfl, rfl⟩ := List.cons.inj same
      exact other _ rfl rfl
    rw [behindBlankLine, if_neg elsewhere]
    exact ih inside

theorem behindBlankFrom_stop (headers : HttpHeaders) (position : Bytes) :
    behindBlankFrom position = behindBlankFrom (parseHeaders headers position).2 := by
  fun_induction parseHeaders headers position with
  | case1 => rfl
  | case2 => rfl
  | case3 => rfl
  | case4 headers position goes line rest ends short ih =>
    have no_blank : ¬ [13, 10] <+: position := by
      intro ⟨after, same⟩
      rw [← same] at goes
      exact goes (Or.inr rfl)
    rw [behindBlankFrom, if_neg no_blank, behindBlankLine_line ends, ih]

/-- The body is taken from behind the first empty line exactly if the header section is
closed. -/
theorem bodyStart_iff {data line rest : Bytes} (ends : lineEnd data = some (line, rest)) :
    (∃ body, behindBlankLine data = some body ∧ bodyStart data = some body) ↔
      HeadersClosed data := by
  have closed : HeadersClosed data ↔ Closed rest := by
    constructor
    · intro ⟨other, position, found, closed⟩
      rw [ends] at found
      cases found
      exact closed
    · intro closed
      exact ⟨line, rest, ends, closed⟩
  rw [closed, ← parseHeaders_closed .empty rest, behindBlankLine_line ends,
    behindBlankFrom_stop .empty rest]
  simp only [bodyStart, ends, Option.map_some, behindBlankFrom]
  generalize (parseHeaders .empty rest).2 = position
  by_cases blank : [13, 10] <+: position
  · simp [blank]
  · simp only [if_neg blank]
    refine iff_of_false ?_ blank
    intro ⟨body, found, same⟩
    cases same
    exact absurd (behindBlankLine_shorter found) (lt_irrefl _)

end Position

/-- The lines up to an empty one or the end of the text. -/
def headerLines (position : Bytes) : List Bytes :=
  match _found : lineEnd position with
  | none => []
  | some (line, rest) => if line = [] then [] else line :: headerLines rest
termination_by position.length
decreasing_by
  have length := lineEnd_length _found
  omega

/-- What follows the colon of a header line, without blanks in front. -/
def valueBehind (after : Bytes) : Bytes :=
  (after.dropWhile isspace).takeWhile fun byte => byte != 13 && byte != 10

/-- The value of a line `Content-Length: value`, in any letter case. -/
def lengthField (line : Bytes) : Option Bytes :=
  let name := line.takeWhile (· != 58)
  let value := valueBehind (line.drop (name.length + 1))
  if name.map tolower = text "content-length" ∧ value ≠ [] then some value else none

/-- The last one of the `Content-Length` headers with a value. -/
def lastLength (lines : List Bytes) : Option Bytes := lines.reverse.findSome? lengthField

/-- The value of the `Content-Length` header of a request. -/
def contentLengthField (data : Bytes) : Option Bytes :=
  (lineEnd data).bind fun (_, rest) => lastLength (headerLines rest)

section Fields

theorem storeHeader_contentLength (key value : Bytes) (headers : HttpHeaders) :
    (storeHeader key value headers).contentLength =
      if key = text "content-length" then some value else headers.contentLength := by
  unfold storeHeader
  split_ifs <;> simp_all +decide

/-- The name that the parser reads is that of the line, unless it is cut at 255 bytes. -/
theorem scanHeader_key {line key value : Bytes} (scanned : scanHeader line = some (key, value))
    (short : key.length < 255) : key = line.takeWhile (· != 58) := by
  obtain ⟨⟨name, after⟩, named, rest⟩ := Option.bind_eq_some_iff.mp scanned
  have same : name = key := by
    dsimp only at rest
    split at rest
    · change Option.bind _ _ = _ at rest
      obtain ⟨⟨found, behind⟩, _, equal⟩ := Option.bind_eq_some_iff.mp rest
      exact congrArg Prod.fst (Option.some.inj equal)
    · cases rest
  subst same
  simp only [scanSet] at named
  split at named
  · cases named
  · cases named
    rw [List.length_take] at short
    exact List.take_of_length_le (by omega)

theorem scanHeader_colon {line key value : Bytes} (scanned : scanHeader line = some (key, value)) :
    58 ∈ line := by
  obtain ⟨⟨name, after⟩, named, rest⟩ := Option.bind_eq_some_iff.mp scanned
  dsimp only at rest
  split at rest
  · rename_i colon
    simp only [scanSet] at named
    split at named
    · cases named
    · cases named
      exact List.mem_of_mem_drop (List.mem_of_mem_head? colon)
  · cases rest

/-- A line without a `Content-Length` leaves the field alone. -/
theorem parseHeader_other {line : Bytes} (headers : HttpHeaders)
    (other : (line.takeWhile (· != 58)).map tolower ≠ text "content-length") :
    (parseHeader line headers).contentLength = headers.contentLength := by
  unfold parseHeader
  split
  · rfl
  · rename_i key value scanned
    rw [storeHeader_contentLength, if_neg]
    intro same
    have fourteen : key.length = 14 := by
      rw [← List.length_map (f := tolower), same]
      rfl
    rw [scanHeader_key scanned (by omega)] at same
    exact other same

section Line
variable {name after : Bytes}

theorem takeWhile_name (plain : 58 ∉ name) : (name ++ 58 :: after).takeWhile (· != 58) = name := by
  apply takeWhile_stops
  · intro byte member
    rw [bne_iff_ne]
    intro same
    exact plain (same ▸ member)
  · intro byte first
    cases first
    rfl

theorem lengthField_name (plain : 58 ∉ name) :
    lengthField (name ++ 58 :: after) =
      if name.map tolower = text "content-length" ∧ valueBehind after ≠ [] then
        some (valueBehind after) else none := by
  have behind : (name ++ 58 :: after).drop (name.length + 1) = after := by
    rw [← List.drop_drop, List.drop_left]
    rfl
  simp only [lengthField, takeWhile_name plain, behind]

theorem valueBehind_start (after : Bytes) :
    ((valueBehind after).take 1023).dropWhile (· = 32) = (valueBehind after).take 1023 := by
  have visible := List.head?_dropWhile_not isspace after
  unfold valueBehind
  cases trimmed : after.dropWhile isspace with
  | nil => rfl
  | cons byte rest =>
    rw [trimmed, List.head?_cons] at visible
    have start : byte ≠ 32 := by
      rintro rfl
      exact absurd visible (by decide)
    rw [List.takeWhile_cons]
    split
    · simp [start]
    · rfl

theorem scanHeader_name (plain : 58 ∉ name) (some_name : name ≠ []) (short : name.length ≤ 255) :
    scanHeader (name ++ 58 :: after) =
      if valueBehind after = [] then none else some (name, (valueBehind after).take 1023) := by
  have kept : ∀ byte ∈ name, (byte != 58) = true := by
    intro byte member
    rw [bne_iff_ne]
    intro same
    exact plain (same ▸ member)
  have scanned : scanSet 255 (fun byte => byte != 58) (name ++ 58 :: after) =
      some (name, 58 :: after) := by
    apply scanSet_word some_name short kept
    intro byte first
    cases first
    rfl
  have cut : (valueBehind after).take 1023 = [] ↔ valueBehind after = [] := by
    rw [List.take_eq_nil_iff]
    simp
  rw [scanHeader, scanned]
  change Option.bind (scanSet 1023 _ (after.dropWhile isspace)) _ = _
  simp only [scanSet]
  change Option.bind (if (valueBehind after).take 1023 = [] then none else _) _ = _
  rw [if_congr cut rfl rfl]
  split <;> rfl

end Line

/-- The line that the parser reads a `Content-Length` from, and as much as fits of it. -/
theorem parseHeader_contentLength (line : Bytes) (headers : HttpHeaders) :
    (parseHeader line headers).contentLength =
      ((lengthField line).map fun value => value.take 1023).or headers.contentLength := by
  by_cases named : (line.takeWhile (· != 58)).map tolower = text "content-length"
  · by_cases colon : 58 ∈ line
    · obtain ⟨name, after, rfl, plain⟩ := List.eq_append_cons_of_mem colon
      rw [takeWhile_name plain] at named
      have fourteen : name.length = 14 := by
        rw [← List.length_map (f := tolower), named]
        rfl
      have some_name : name ≠ [] := List.ne_nil_of_length_pos (by omega)
      rw [parseHeader, scanHeader_name plain some_name (by omega), lengthField_name plain]
      by_cases empty : valueBehind after = []
      · simp [empty]
      · simp [empty, named, storeHeader_contentLength, valueBehind_start]
    · have nothing : scanHeader line = none := by
        rw [Option.eq_none_iff_forall_not_mem]
        intro ⟨key, value⟩ scanned
        exact colon (scanHeader_colon scanned)
      have whole : line.takeWhile (· != 58) = line := by
        rw [List.takeWhile_eq_self_iff]
        intro byte member
        rw [bne_iff_ne]
        intro same
        exact colon (same ▸ member)
      have none_behind : line.drop (line.length + 1) = [] := List.drop_eq_nil_of_le (Nat.le_succ _)
      simp [parseHeader, nothing, lengthField, whole, none_behind, valueBehind]
  · rw [parseHeader_other headers named, lengthField, if_neg (fun both => named both.1)]
    rfl

theorem parseHeaders_lines_contentLength (lines : List Bytes) (headers : HttpHeaders) :
    (lines.foldl (fun headers line => parseHeader line headers) headers).contentLength =
      ((lastLength lines).map fun value => value.take 1023).or headers.contentLength := by
  induction lines generalizing headers with
  | nil => rfl
  | cons line rest ih =>
    rw [List.foldl_cons, ih, parseHeader_contentLength, lastLength, lastLength, List.reverse_cons,
      List.findSome?_append, ← Option.or_assoc]
    congr 1
    cases rest.reverse.findSome? lengthField with
    | some value => rfl
    | none => simp

theorem lineEnd_nil {position rest : Bytes} (ends : lineEnd position = some ([], rest)) :
    position.headD 0 = 13 := by
  fun_induction lineEnd position with
  | case1 => cases ends
  | case2 => cases ends
  | case3 after => rfl
  | case4 byte data _ other _ =>
    obtain ⟨found, _, same⟩ := Option.map_eq_some_iff.mp ends
    cases same

theorem headerLines_line {position line rest : Bytes} (ends : lineEnd position = some (line, rest))
    (some_line : line ≠ []) : headerLines position = line :: headerLines rest := by
  rw [headerLines]
  split
  · rename_i missing
    rw [ends] at missing
    cases missing
  · rename_i found
    rw [ends] at found
    cases found
    rw [if_neg some_line]

theorem headerLines_blank {position : Bytes} (empty : [13, 10] <+: position) :
    headerLines position = [] := by
  obtain ⟨after, rfl⟩ := empty
  rw [headerLines]
  rfl

/-- The loop reads the lines of a closed header section in their order. -/
theorem Closed.parseHeaders_fields {position : Bytes} (closed : Closed position)
    (headers : HttpHeaders) :
    (parseHeaders headers position).1 =
      (headerLines position).foldl (fun headers line => parseHeader line headers) headers := by
  induction closed generalizing headers with
  | blank empty =>
    rw [headerLines_blank empty]
    obtain ⟨after, rfl⟩ := empty
    rw [parseHeaders_stop headers (Or.inl (Or.inr rfl))]
    rfl
  | @line position line rest starts ends short further ih =>
    have goes : ¬ (position.headD 0 = 0 ∨ position.headD 0 = 13) := not_or.mpr starts
    have some_line : line ≠ [] := by
      rintro rfl
      exact starts.2 (lineEnd_nil ends)
    rw [parseHeaders_step headers goes ends (not_le.mpr short), headerLines_line ends some_line,
      List.foldl_cons, ih]

end Fields

/-- The body is what follows the first empty line, as long as the `Content-Length` says. -/
structure BodyBehindHeaders (data : Bytes) (request : HttpRequest) : Prop where
  place : ∃ rest, behindBlankLine data = some rest ∧ bodyStart data = some rest ∧
    request.body = some (rest.take request.bodyLength) ∧ request.bodyLength ≤ rest.length
  announced : ∃ value, contentLengthField data = some value ∧
    (request.bodyLength : Int) = decimalValue value

/-- The number in the `Content-Length` header is one of an `int` and does not go on behind
the bytes that are kept of it. -/
def LengthReadable (data : Bytes) : Prop :=
  ∀ value, contentLengthField data = some value →
    0 ≤ decimalValue value ∧ decimalValue value < 2 ^ 31 ∧
      decimalValue (value.take 1023) = decimalValue value

section Body
variable {data : Bytes} {request : HttpRequest}

/-- `size_t content_len = atoi(...)` is below 2^31 if it is no converted negative number. -/
theorem contentLength_int {value : Bytes} {length : Nat}
    (read : (atoi value % 2 ^ 64).toNat = length) (below : length < 2 ^ 63) : length < 2 ^ 31 := by
  rw [atoi_value] at read
  have lower := Int.le_bmod (x := max (-2 ^ 63) (min (2 ^ 63 - 1) (decimalValue value)))
    (m := 2 ^ 32) (by decide)
  have upper := Int.bmod_lt (x := max (-2 ^ 63) (min (2 ^ 63 - 1) (decimalValue value)))
    (m := 2 ^ 32) (by decide)
  omega

/-- `size_t content_len = atoi(...)` is the number it stands for. -/
theorem contentLength_value {value : Bytes} {length : Nat}
    (read : (atoi value % 2 ^ 64).toNat = length) (positive : 0 < length)
    (below : length < 2 ^ 63) :
    (length : Int) = decimalValue value ↔ 0 ≤ decimalValue value ∧ decimalValue value < 2 ^ 31 := by
  rw [atoi_value] at read
  generalize decimalValue value = number at read ⊢
  have lower := Int.le_bmod (x := max (-2 ^ 63) (min (2 ^ 63 - 1) number)) (m := 2 ^ 32) (by decide)
  have upper := Int.bmod_lt (x := max (-2 ^ 63) (min (2 ^ 63 - 1) number)) (m := 2 ^ 32) (by decide)
  constructor
  · intro same
    refine ⟨by omega, ?_⟩
    by_contra large
    have clamped : (2 ^ 63 - 1 : Int) ≤ number := by omega
    have wrapped : Int.bmod (2 ^ 63 - 1) (2 ^ 32) = -1 := by decide
    rw [min_eq_left clamped, max_eq_right (by decide), wrapped] at read
    omega
  · intro ⟨natural, small⟩
    have exactly : Int.bmod number (2 ^ 32) = number := by
      apply Int.bmod_eq_of_le
      · omega
      · omega
    rw [min_eq_right (by omega), max_eq_right (by omega), exactly] at read
    omega

theorem parseRequestLine_fresh {line : Bytes} (parsed : parseRequestLine line = some request) :
    request.headers = .empty ∧ request.body = none := by
  obtain ⟨⟨method, afterMethod⟩, _, rest⟩ := Option.bind_eq_some_iff.mp parsed
  obtain ⟨⟨target, afterTarget⟩, _, rest⟩ := Option.bind_eq_some_iff.mp rest
  obtain ⟨⟨version, behind⟩, _, rest⟩ := Option.bind_eq_some_iff.mp rest
  dsimp only at rest
  split at rest
  · cases rest
  · cases rest
    exact ⟨rfl, rfl⟩

theorem parseBody_some {start : Bytes} (some_body : (parseBody request start).body ≠ none)
    (bodiless : request.body = none) :
    ∃ value, request.headers.contentLength = some value ∧
      (parseBody request start).bodyLength = (atoi value % 2 ^ 64).toNat ∧
      0 < (parseBody request start).bodyLength ∧
      (parseBody request start).bodyLength ≤ start.length ∧
      (parseBody request start).body = some (start.take (parseBody request start).bodyLength) := by
  unfold parseBody at some_body ⊢
  cases announced : request.headers.contentLength with
  | none =>
    rw [announced] at some_body
    exact absurd bodiless some_body
  | some value =>
    rw [announced] at some_body
    refine ⟨value, rfl, ?_⟩
    dsimp only at some_body ⊢
    split
    · rename_i inside
      exact ⟨rfl, inside.1, inside.2, rfl⟩
    · rename_i outside
      rw [if_neg outside] at some_body
      exact absurd bodiless some_body

/-- A request with a body has come through all stages of the parser. -/
theorem httpRequestParse_body (parsed : httpRequestParse data = some request)
    (some_body : request.body ≠ none) :
    ∃ line rest start value, lineEnd data = some (line, rest) ∧ bodyStart data = some start ∧
      (parseHeaders .empty rest).1.contentLength = some value ∧
      request.bodyLength = (atoi value % 2 ^ 64).toNat ∧ 0 < request.bodyLength ∧
      request.bodyLength ≤ start.length ∧ request.body = some (start.take request.bodyLength) := by
  obtain ⟨⟨line, rest⟩, ends, parsed⟩ := Option.bind_eq_some_iff.mp parsed
  dsimp only at parsed
  split at parsed
  · cases parsed
  · obtain ⟨first, lineParsed, parsed⟩ := Option.bind_eq_some_iff.mp parsed
    obtain ⟨fresh, bodiless⟩ := parseRequestLine_fresh lineParsed
    rw [fresh] at parsed
    have start : bodyStart data = some (if [13, 10] <+: (parseHeaders .empty rest).2 then
        (parseHeaders .empty rest).2.drop 2 else (parseHeaders .empty rest).2) := by
      simp only [bodyStart, ends, Option.map_some]
    cases parsed
    obtain ⟨value, announced, length, positive, inside, body⟩ := parseBody_some some_body bodiless
    exact ⟨line, rest, _, value, ends, start, announced, length, positive, inside, body⟩

/-- The parser keeps 1023 bytes of the `Content-Length` of a closed header section. -/
theorem contentLengthField_closed {line rest value : Bytes}
    (ends : lineEnd data = some (line, rest)) (closed : HeadersClosed data)
    (announced : (parseHeaders .empty rest).1.contentLength = some value) :
    ∃ field, contentLengthField data = some field ∧ field.take 1023 = value := by
  obtain ⟨other, position, found, further⟩ := closed
  rw [ends] at found
  cases found
  rw [further.parseHeaders_fields, parseHeaders_lines_contentLength] at announced
  have fresh : HttpHeaders.empty.contentLength = none := rfl
  rw [fresh, Option.or_none] at announced
  obtain ⟨field, last, cut⟩ := Option.map_eq_some_iff.mp announced
  refine ⟨field, ?_, cut⟩
  simp only [contentLengthField, ends, Option.bind_some, last]

end Body

/-- A delivered body is the one behind the first empty line, as long as `Content-Length`
says, exactly if the header section is closed by an empty line and that number is
readable. -/
theorem body_behind_headers_iff {data : Bytes} (size : data.length < 2 ^ 63) {request : HttpRequest}
    (parsed : httpRequestParse data = some request) (some_body : request.body ≠ none) :
    BodyBehindHeaders data request ↔ HeadersClosed data ∧ LengthReadable data := by
  obtain ⟨line, rest, start, value, ends, place, announced, length, positive, inside, body⟩ :=
    httpRequestParse_body parsed some_body
  have behind := bodyStart_iff ends
  have short (found : behindBlankLine data = some start) : request.bodyLength < 2 ^ 63 := by
    have less := behindBlankLine_shorter found
    omega
  constructor
  · intro ⟨⟨found, blank, same, _, _⟩, header, field, number⟩
    have closed := behind.mp ⟨found, blank, same⟩
    rw [place] at same
    cases same
    obtain ⟨other, otherField, cut⟩ := contentLengthField_closed ends closed announced
    rw [field] at otherField
    cases otherField
    refine ⟨closed, ?_⟩
    intro value isField
    rw [field] at isField
    cases isField
    have int := contentLength_int length.symm (short blank)
    have kept := decimalValue_take header 1023
    rw [cut] at kept ⊢
    have exactly := (contentLength_value length.symm positive (short blank)).mpr (by omega)
    omega
  · intro ⟨closed, readable⟩
    obtain ⟨found, blank, same⟩ := behind.mpr closed
    rw [place] at same
    cases same
    obtain ⟨field, isField, cut⟩ := contentLengthField_closed ends closed announced
    obtain ⟨natural, small, whole⟩ := readable field isField
    refine ⟨⟨start, blank, place, body, inside⟩, field, isField, ?_⟩
    rw [← whole] at natural small
    rw [← whole, cut]
    rw [cut] at natural small
    exact (contentLength_value length.symm positive (short blank)).mpr ⟨natural, small⟩

section Requests

/-- A request line, one header line and what follows them. -/
def postBytes (rest : Bytes) : Bytes :=
  text "POST / HTTP/1.1\r\n" ++ text "Content-Length: 2\r\n" ++ rest

/-- The request that is read from these lines. -/
def postRead : HttpRequest where
  method := .post
  version := .http11
  path := ⟨text "/", by decide⟩
  queryString := none
  headers := { HttpHeaders.empty with contentLength := some (text "2") }
  body := some (text "hi")
  bodyLength := 2

theorem parseHeaders_post {rest : Bytes} (stops : rest.headD 0 = 13 ∨ lineEnd rest = none) :
    parseHeaders .empty (text "Content-Length: 2\r\n" ++ rest) = (postRead.headers, rest) := by
  have ends : lineEnd (text "Content-Length: 2\r\n" ++ rest) =
    some (text "Content-Length: 2", rest) := rfl
  have first : (text "Content-Length: 2\r\n" ++ rest).headD 0 = 67 := rfl
  rw [parseHeaders_step .empty (by rw [first]; decide) ends (by decide), parseHeaders_stop]
  · rfl
  · rcases stops with carriage | missing
    · exact Or.inl (Or.inr carriage)
    · refine Or.inr ?_
      intro line behind found
      rw [missing] at found
      cases found

theorem httpRequestParse_post {rest : Bytes} (stops : rest.headD 0 = 13 ∨ lineEnd rest = none) :
    httpRequestParse (postBytes rest) =
      some (parseBody { postRead with body := none, bodyLength := 0 }
        (if [13, 10] <+: rest then rest.drop 2 else rest)) := by
  have ends : lineEnd (postBytes rest) =
      some (text "POST / HTTP/1.1", text "Content-Length: 2\r\n" ++ rest) := rfl
  have line : parseRequestLine (text "POST / HTTP/1.1") =
      some { postRead with headers := .empty, body := none, bodyLength := 0 } := by
    decide +kernel
  rw [httpRequestParse, ends]
  change Option.bind _ _ = _
  rw [Option.bind_some]
  dsimp only
  rw [if_neg (by decide), line]
  change Option.bind _ _ = _
  rw [Option.bind_some, parseHeaders_post stops]
  rfl

theorem closed_post : HeadersClosed (postBytes (text "\r\nhi")) := by
  refine ⟨text "POST / HTTP/1.1", text "Content-Length: 2\r\n\r\nhi", rfl, ?_⟩
  have ends : lineEnd (text "Content-Length: 2\r\n\r\nhi") =
    some (text "Content-Length: 2", text "\r\nhi") := rfl
  refine .line ⟨by decide, by decide⟩ ends (by decide) ?_
  exact .blank (by decide)

theorem contentLengthField_post :
    contentLengthField (postBytes (text "\r\nhi")) = some (text "2") := by
  have ends : lineEnd (postBytes (text "\r\nhi")) =
      some (text "POST / HTTP/1.1", text "Content-Length: 2\r\n\r\nhi") := rfl
  have next : lineEnd (text "Content-Length: 2\r\n\r\nhi") =
    some (text "Content-Length: 2", text "\r\nhi") := rfl
  rw [contentLengthField, ends, Option.bind_some]
  dsimp only
  rw [headerLines_line next (by decide), headerLines_blank (by decide)]
  decide +kernel

/-- A request whose header section is closed. -/
theorem body_behind_headers_iff_post : BodyBehindHeaders (postBytes (text "\r\nhi")) postRead := by
  have parsed : httpRequestParse (postBytes (text "\r\nhi")) = some postRead := by
    rw [httpRequestParse_post (Or.inl rfl)]
    decide +kernel
  refine (body_behind_headers_iff (by decide) parsed (by decide)).mpr ⟨closed_post, ?_⟩
  intro value isField
  rw [contentLengthField_post] at isField
  cases isField
  decide

/-- Without an empty line the bytes of the next header line are the body. -/
theorem header_delivered_as_body :
    httpRequestParse (postBytes (text "hi")) = some postRead ∧
      behindBlankLine (postBytes (text "hi")) = none ∧
      ¬ BodyBehindHeaders (postBytes (text "hi")) postRead := by
  have no_blank : behindBlankLine (postBytes (text "hi")) = none := by decide +kernel
  refine ⟨?_, no_blank, ?_⟩
  · rw [httpRequestParse_post (Or.inr (by decide))]
    decide +kernel
  · intro ⟨⟨found, blank, _⟩, _⟩
    rw [no_blank] at blank
    cases blank

end Requests

end LinuxCLearning.WebServer
