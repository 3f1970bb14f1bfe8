import LinuxCLearning.NetworkProxy.HttpProxy

/-! The room in `new_request`. The words of the new request line are those that `sscanf`
reads, the rest is what stands behind the first CR LF of the string, wherever the words
have been. -/

namespace LinuxCLearning.NetworkProxy

/-- The string up to the first CR LF. -/
def beforeLineEnd : Bytes → Bytes
  | [] => []
  | 13 :: 10 :: _ => []
  | byte :: rest => byte :: beforeLineEnd rest

/-- The length of the new request line without its CR LF. -/
def lineLength (line : RequestLine) (path : Bytes) : Nat :=
  line.method.length + 1 + path.length + 1 + line.version.length

/-- When a CR LF is found, the new request line is longer than what stands before it by no
more bytes than a string of the buffer leaves free. -/
def LineCovered (request : CString) (line : RequestLine) (path : Bytes) : Prop :=
  (behindLineEnd request.bytes).isSome →
    lineLength line path ≤ (beforeLineEnd request.bytes).length +
      (maxRequestSize - 1 - request.length)

instance (request : CString) (line : RequestLine) (path : Bytes) :
    Decidable (LineCovered request line path) :=
  inferInstanceAs (Decidable (_ → _))

/-- The words stand in front of the first CR, with something between them. -/
def Separated (request : CString) (line : RequestLine) : Prop :=
  ∃ lead first second tail, request.bytes =
      lead ++ (line.method ++ (first ++ (line.url ++ (second ++ (line.version ++ tail))))) ∧
    (13 ∉ lead ∧ 13 ∉ first ∧ 13 ∉ second) ∧ first ≠ [] ∧ second ≠ []

section LineEnd

theorem split_lineEnd {string rest : Bytes} (found : behindLineEnd string = some rest) :
    string = beforeLineEnd string ++ 13 :: 10 :: rest := by
  fun_induction behindLineEnd string with
  | case1 => cases found
  | case2 after =>
    cases found
    rfl
  | case3 byte after other ih =>
    rw [beforeLineEnd, List.cons_append, ← ih found]
    exact other

theorem length_lineEnd {string rest : Bytes} (found : behindLineEnd string = some rest) :
    string.length = (beforeLineEnd string).length + 2 + rest.length := by
  conv_lhs => rw [split_lineEnd found]
  rw [List.length_append, List.length_cons, List.length_cons]
  omega

theorem beforeLineEnd_plain {word : Bytes} (plain : ∀ byte ∈ word, byte ≠ 13) (rest : Bytes) :
    beforeLineEnd (word ++ rest) = word ++ beforeLineEnd rest := by
  induction word with
  | nil => rfl
  | cons byte word ih =>
    have other : byte ≠ 13 := plain byte List.mem_cons_self
    rw [List.cons_append, beforeLineEnd, ih fun inside member => plain inside
      (List.mem_cons_of_mem byte member)]
    · rfl
    · intro after same
      exact absurd same other

end LineEnd

section Lengths
variable {request : CString} {line : RequestLine} {path : Bytes}

theorem newRequest_length (method : line.method.length ≤ 15) (version : line.version.length ≤ 15)
    (short : path.length < proxyPathLength) :
    (newRequest request line path).length =
      lineLength line path + 2 + ((behindLineEnd request.bytes).getD []).length := by
  have blank : (text " ").length = 1 := rfl
  have ending : (text "\r\n").length = 2 := rfl
  have whole : (line.method ++ text " " ++ path ++ text " " ++ line.version ++ text "\r\n").length =
      lineLength line path + 2 := by
    simp only [List.length_append, blank, ending, lineLength]
  rw [newRequest, List.take_of_length_le, List.length_append, whole]
  rw [whole]
  simp only [lineLength, maxRequestSize, proxyPathLength] at short ⊢
  omega

theorem lineLength_le (method : line.method.length ≤ 15) (version : line.version.length ≤ 15)
    (short : path.length < proxyPathLength) : lineLength line path ≤ 1055 := by
  simp only [lineLength, proxyPathLength] at short ⊢
  omega

/-- The string in `new_request` and its terminator fit into the array. -/
theorem newRequest_fits_iff (one_read : request.length < maxRequestSize)
    (method : line.method.length ≤ 15)
    (version : line.version.length ≤ 15) (short : path.length < proxyPathLength) :
    (newRequest request line path).length + 1 ≤ maxRequestSize ↔ LineCovered request line path := by
  have bound := lineLength_le method version short
  rw [newRequest_length method version short, LineCovered]
  cases found : behindLineEnd request.bytes with
  | none =>
    simp only [Option.getD_none, List.length_nil, Option.isSome_none, Bool.false_eq_true,
      false_implies, iff_true,
      maxRequestSize]
    omega
  | some rest =>
    have length := length_lineEnd found
    simp only [Option.getD_some, Option.isSome_some, true_implies, maxRequestSize,
      CString.length] at one_read ⊢
    omega

end Lengths

/-- The path that `proxy_parse_url` stores is shorter than its array. -/
theorem proxyParseUrl_short {url : Bytes} {parsed : ProxyUrl}
    (read : proxyParseUrl url = some parsed) :
    parsed.path.length < proxyPathLength := by
  rw [proxyParseUrl_path read]
  exact Nat.lt_of_le_pred (by decide) (List.length_take_le _ _)

theorem proxyParseRequestLine_url {request : CString} {line : RequestLine}
    (parsed : proxyParseRequestLine request = some line) : line.url ≠ [] := by
  obtain ⟨⟨_, afterMethod⟩, _, parsed⟩ := Option.bind_eq_some_iff.mp parsed
  obtain ⟨⟨url, afterUrl⟩, scanned, parsed⟩ := Option.bind_eq_some_iff.mp parsed
  obtain ⟨_, _, parsed⟩ := Option.bind_eq_some_iff.mp parsed
  cases parsed
  simp only [scanWord] at scanned
  split at scanned
  · cases scanned
  · rename_i some_word
    cases scanned
    exact some_word

/-- Both scans meet behind the version of a request whose words are separated. -/
theorem covered_of_separated {request : CString} {line : RequestLine} {url : ProxyUrl}
    (parsed : proxyParseRequestLine request = some line) (read : proxyParseUrl line.url = some url)
    (separated : Separated request line) : LineCovered request line url.path := by
  obtain ⟨⟨_, method⟩, target, _, version⟩ := proxyParseRequestLine_spec parsed
  obtain ⟨lead, first, second, tail, string, sameLine, firstGap, secondGap⟩ := separated
  have visible {word : Bytes} (plain : ∀ byte ∈ word, isspace byte = false) :
      ∀ byte ∈ word, byte ≠ 13 := by
    rintro byte member rfl
    exact absurd (plain 13 member) (by decide)
  have absent {gap : Bytes} (inside : 13 ∉ gap) : ∀ byte ∈ gap, byte ≠ 13 :=
    fun byte member same => inside (same ▸ member)
  have before : beforeLineEnd request.bytes = lead ++ (line.method ++ (first ++
      (line.url ++ (second ++ (line.version ++ beforeLineEnd tail))))) := by
    rw [string, beforeLineEnd_plain (absent sameLine.1), beforeLineEnd_plain (visible method),
      beforeLineEnd_plain (absent sameLine.2.1), beforeLineEnd_plain (visible target),
      beforeLineEnd_plain (absent sameLine.2.2), beforeLineEnd_plain (visible version)]
  have path : url.path.length ≤ line.url.length := by
    rw [proxyParseUrl_path read]
    exact (List.length_take_le' _ _).trans (urlPath_length (proxyParseRequestLine_url parsed))
  have firstLength := List.length_pos_iff.mpr firstGap
  have secondLength := List.length_pos_iff.mpr secondGap
  intro found
  rw [before, lineLength]
  simp only [List.length_append]
  omega

/-- The forwarding step overruns its buffer exactly if the new line is not covered. -/
theorem handleHttpProxy_overflow {connect : Bytes → UInt16 → Option Nat} {request : CString}
    (one_read : request.length < maxRequestSize) :
    handleHttpProxy connect request = .overflow ↔
      ∃ line url takes, proxyParseRequestLine request = some line ∧
        proxyParseUrl line.url = some url ∧
        connect url.host url.port = some takes ∧ ¬ LineCovered request line url.path := by
  unfold handleHttpProxy
  cases parsed : proxyParseRequestLine request with
  | none => simp
  | some line =>
    obtain ⟨⟨method, _⟩, _, version, _⟩ := proxyParseRequestLine_spec parsed
    cases read : proxyParseUrl line.url with
    | none => simp [read]
    | some url =>
      have fits := newRequest_fits_iff one_read method version (proxyParseUrl_short read)
      cases connected : connect url.host url.port with
      | none => simp [read, connected]
      | some takes =>
        simp only [read, connected, Option.some.injEq, exists_and_left, exists_eq_left']
        rw [← fits, not_le, Nat.lt_succ_iff]
        by_cases long : (newRequest request line url.path).length ≥ maxRequestSize
        · simp [long]
        · simp [long]

theorem ofBuffer_length (received : Bytes) : (CString.ofBuffer received).length ≤ received.length :=
  (List.takeWhile_prefix _).length_le

/-- Every received buffer that reaches the forwarding step fits into `new_request` together
with the new line exactly if the new line is covered, and it is covered wherever the words
are separated in front of the first CR LF. -/
theorem forwarded_request_fits_iff (connect : Bytes → UInt16 → Option Nat) {received : Bytes}
    (one_read : received.length < maxRequestSize) :
    (handleHttpProxy connect (.ofBuffer received) ≠ .overflow ↔
      ∀ line url takes, proxyParseRequestLine (.ofBuffer received) = some line →
        proxyParseUrl line.url = some url → connect url.host url.port = some takes →
        LineCovered (.ofBuffer received) line url.path) ∧
    ∀ line, proxyParseRequestLine (.ofBuffer received) = some line →
      Separated (.ofBuffer received) line →
      handleHttpProxy connect (.ofBuffer received) ≠ .overflow := by
  have one_string := (ofBuffer_length received).trans_lt one_read
  have exact_fit := @handleHttpProxy_overflow connect (.ofBuffer received) one_string
  constructor
  · rw [ne_eq, exact_fit]
    constructor
    · intro fits line url takes parsed read connected
      by_contra uncovered
      exact fits ⟨line, url, takes, parsed, read, connected, uncovered⟩
    · rintro covered ⟨line, url, takes, parsed, read, connected, uncovered⟩
      exact uncovered (covered line url takes parsed read connected)
  · intro line parsed separated overflow
    obtain ⟨other, url, takes, again, read, _, uncovered⟩ := exact_fit.mp overflow
    obtain rfl : line = other := Option.some.inj (parsed.symm.trans again)
    exact uncovered (covered_of_separated parsed read separated)

theorem forwarded_request_fits_iff_short :
    Separated (.ofBuffer (text "GET http://host/ HTTP/1.1\r\n\r\n"))
      ⟨text "GET", text "http://host/", text "HTTP/1.1"⟩ ∧
    handleHttpProxy (fun _ _ => some 8192)
      (.ofBuffer (text "GET http://host/ HTTP/1.1\r\n\r\n")) ≠ .overflow := by
  have parsed : proxyParseRequestLine (.ofBuffer (text "GET http://host/ HTTP/1.1\r\n\r\n")) =
      some ⟨text "GET", text "http://host/", text "HTTP/1.1"⟩ := by decide +kernel
  have separated : Separated (.ofBuffer (text "GET http://host/ HTTP/1.1\r\n\r\n"))
      ⟨text "GET", text "http://host/", text "HTTP/1.1"⟩ :=
    ⟨[], text " ", text " ", text "\r\n\r\n", by decide +kernel, by decide, by decide, by decide⟩
  exact ⟨separated, (forwarded_request_fits_iff (fun _ _ => some 8192) (by decide)).2 _ parsed
    separated⟩

/-- A request behind an empty line: the rest behind the first CR LF is the whole request. -/
def emptyLineFirst (body : Bytes) : Bytes := text "\r\nGET http://host/ HTTP/1.1\r\n\r\n" ++ body

theorem emptyLineFirst_string {body : Bytes} (nulFree : 0 ∉ body) :
    (CString.ofBuffer (emptyLineFirst body)).bytes = emptyLineFirst body := by
  rw [CString.ofBuffer_whole]
  intro member
  rcases List.mem_append.mp member with head | tail
  · exact absurd head (by decide)
  · exact nulFree tail

/-- A buffer that is full up to its terminator, with an empty line before the request. -/
theorem empty_line_overruns_buffer :
    (emptyLineFirst (List.replicate 8160 97)).length = maxRequestSize - 1 ∧
      handleHttpProxy (fun _ _ => some 8192) (.ofBuffer (emptyLineFirst (List.replicate 8160 97))) =
        .overflow := by
  have full : (emptyLineFirst (List.replicate 8160 97)).length = maxRequestSize - 1 := by
    rw [emptyLineFirst, List.length_append, List.length_replicate]
    rfl
  have string : (CString.ofBuffer (emptyLineFirst (List.replicate 8160 97))).bytes = _ :=
    emptyLineFirst_string (replicate_nulFree (by decide) 8160)
  refine ⟨full, (handleHttpProxy_overflow ?_).mpr ?_⟩
  · exact (ofBuffer_length _).trans_lt (full ▸ by decide)
  · refine ⟨⟨text "GET", text "http://host/", text "HTTP/1.1"⟩, ⟨text "host", 80, text "/"⟩,
      8192, ?_, ?_, rfl, ?_⟩
    · decide +kernel
    · decide +kernel
    · rw [LineCovered, CString.length, string, full]
      exact fun covered => absurd (covered rfl) (by decide)

end LinuxCLearning.NetworkProxy
