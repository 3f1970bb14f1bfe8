import LinuxCLearning.NetworkProxy.HttpProxy

/-! URLs taken apart: what the proxy finds in a URL put together from its parts, and the port
that it finds in any URL. -/

namespace LinuxCLearning.NetworkProxy

/-- The parts of a URL, with or without the protocol in front. -/
structure UrlParts where
  protocol : Bool
  host : Bytes
  port : Option UInt16
  path : Bytes
  host_some : host ≠ []
  host_fits : host.length < maxHostLength
  host_plain : ∀ byte ∈ host, byte ≠ 58 ∧ byte ≠ 47 ∧ byte ≠ 0
  port_some : port ≠ some 0
  path_slash : ∀ byte, path.head? = some byte → byte = 47
  path_fits : path.length < proxyPathLength
  path_nulFree : 0 ∉ path

namespace UrlParts

/-- The port as it is written behind the host. -/
def portText (parts : UrlParts) : Bytes :=
  match parts.port with
  | none => []
  | some port => text ":" ++ decimal port.toNat

/-- The URL of the parts. -/
def written (parts : UrlParts) : Bytes :=
  (if parts.protocol then text "http://" else []) ++ parts.host ++ parts.portText ++ parts.path

end UrlParts

section Authority

theorem host_ends {host : Bytes} (plain : ∀ byte ∈ host, byte ≠ 58 ∧ byte ≠ 47) {tail : Bytes}
    (stops : ∀ byte, tail.head? = some byte → byte = 58 ∨ byte = 47) :
    (host ++ tail).takeWhile (fun byte => byte != 58 && byte != 47) = host ∧
      (host ++ tail).dropWhile (fun byte => byte != 58 && byte != 47) = tail := by
  have kept : ∀ byte ∈ host, (byte != 58 && byte != 47) = true := by
    intro byte member
    obtain ⟨noColon, noSlash⟩ := plain byte member
    simp [noColon, noSlash]
  have ends : ∀ byte, tail.head? = some byte → (byte != 58 && byte != 47) = false := by
    intro byte first
    rcases stops byte first with rfl | rfl
    · rfl
    · rfl
  exact ⟨takeWhile_stops kept ends, dropWhile_stops kept ends⟩

/-- A host is no protocol unless two slashes follow its colon. -/
theorem protocol_absent {host tail scheme : Bytes} (plain : ∀ byte ∈ host, byte ≠ 58 ∧ byte ≠ 47)
    (stops : ∀ byte, tail.head? = some byte → byte = 58 ∨ byte = 47)
    (schemePlain : ∀ byte ∈ scheme, byte ≠ 58 ∧ byte ≠ 47) (noSlashes : ¬ [58, 47] <+: tail) :
    ¬ scheme ++ text "://" <+: host ++ tail := by
  rintro ⟨rest, same⟩
  rw [List.append_assoc] at same
  have cut : (scheme ++ (text "://" ++ rest)).dropWhile (fun byte => byte != 58 && byte != 47) =
      text "://" ++ rest := by
    refine (host_ends schemePlain ?_).2
    intro byte first
    left
    exact (Option.some.inj first).symm
  rw [same, (host_ends plain stops).2] at cut
  apply noSlashes
  exact ⟨[47] ++ rest, cut.symm⟩

end Authority

section Port

theorem portOf_digits {digits : Bytes} (all : ∀ byte ∈ digits, 48 ≤ byte ∧ byte ≤ 57)
    (short : digits.length < 16) :
    ((portOf digits).toNat : Int) = decimalValue digits % 2 ^ 16 := by
  obtain ⟨natural, below⟩ := decimalValue_bounds all
  have bounded : decimalValue digits < 10 ^ 16 :=
    below.trans_le (pow_le_pow_right₀ (by decide) short.le)
  have narrowed : atoi digits % 2 ^ 16 = decimalValue digits % 2 ^ 16 := by
    rw [atoi_value, min_eq_right (by omega), max_eq_right (by omega), Int.bmod_def]
    split
    · omega
    · omega
  rw [portOf, narrowed, UInt16.toNat_ofNat']
  omega

theorem portOf_decimal (port : UInt16) : portOf (decimal port.toNat) = port := by
  obtain ⟨digits, value⟩ := decimal_value port.toNat
  have small := port.toNat_lt
  have short : (decimal port.toNat).length ≤ 4 + 1 := decimal_length (by omega)
  apply UInt16.toNat.inj
  have narrowed := portOf_digits digits (by omega)
  rw [decimalValue_digits digits, value] at narrowed
  omega

end Port

section Parts
variable (parts : UrlParts)

theorem host_plain' : ∀ byte ∈ parts.host, byte ≠ 58 ∧ byte ≠ 47 := by
  intro byte member
  obtain ⟨noColon, noSlash, _⟩ := parts.host_plain byte member
  exact ⟨noColon, noSlash⟩

theorem behindHost_start :
    ∀ byte, (parts.portText ++ parts.path).head? = some byte → byte = 58 ∨ byte = 47 := by
  intro byte first
  unfold UrlParts.portText at first
  cases port : parts.port with
  | none =>
    rw [port] at first
    exact Or.inr (parts.path_slash byte first)
  | some number =>
    rw [port] at first
    exact Or.inl (Option.some.inj first).symm

theorem behindHost_noSlashes : ¬ [58, 47] <+: parts.portText ++ parts.path := by
  rintro ⟨rest, same⟩
  unfold UrlParts.portText at same
  cases port : parts.port with
  | none =>
    rw [port] at same
    have first := parts.path_slash 58 (by rw [← List.nil_append parts.path, ← same]; rfl)
    exact absurd first (by decide)
  | some number =>
    rw [port] at same
    obtain ⟨digits, _⟩ := decimal_value number.toNat
    cases shape : decimal number.toNat with
    | nil => exact decimal_ne_nil _ shape
    | cons first more =>
      simp only [shape] at same digits
      have slash : 47 = first := (List.cons.inj (List.cons.inj same).2).1
      have digit := digits first List.mem_cons_self
      rw [← slash] at digit
      exact absurd digit (by decide)

theorem withoutProtocol_written :
    withoutProtocol parts.written = parts.host ++ (parts.portText ++ parts.path) := by
  have absent {scheme : Bytes} (plain : ∀ byte ∈ scheme, byte ≠ 58 ∧ byte ≠ 47) :
      ¬ scheme ++ text "://" <+: parts.host ++ (parts.portText ++ parts.path) :=
    protocol_absent (host_plain' parts) (behindHost_start parts) plain (behindHost_noSlashes parts)
  have http : ¬ text "http://" <+: parts.host ++ (parts.portText ++ parts.path) :=
    @absent (text "http") (by decide +kernel)
  have https : ¬ text "https://" <+: parts.host ++ (parts.portText ++ parts.path) :=
    @absent (text "https") (by decide +kernel)
  simp only [UrlParts.written, List.append_assoc]
  cases parts.protocol with
  | false => simp only [withoutProtocol, Bool.false_eq_true, if_false, List.nil_append, http, https]
  | true =>
    rw [withoutProtocol, if_pos rfl, if_pos (List.prefix_append _ _)]
    rfl

/-- The proxy finds the parts that a URL is put together from. -/
theorem proxyParseUrl_written : proxyParseUrl parts.written =
    some ⟨parts.host, parts.port.getD 80, if parts.path = [] then text "/" else parts.path⟩ := by
  have slash : (if parts.path.head? = some 47 then parts.path.take (proxyPathLength - 1)
      else text "/") =
      if parts.path = [] then text "/" else parts.path := by
    have whole := List.take_of_length_le (Nat.le_sub_one_of_lt parts.path_fits)
    cases path : parts.path with
    | nil => rfl
    | cons first rest =>
      obtain rfl := parts.path_slash first (by rw [path]; rfl)
      rw [path] at whole
      rw [List.head?_cons, if_pos rfl, whole, if_neg (List.cons_ne_nil _ _)]
  obtain ⟨host, behind⟩ := host_ends (host_plain' parts) (behindHost_start parts)
  simp only [proxyParseUrl, withoutProtocol_written, host, behind]
  rw [if_neg (not_le.mpr parts.host_fits)]
  unfold UrlParts.portText
  cases port : parts.port with
  | none =>
    have noColon : parts.path.head? ≠ some 58 := by
      intro colon
      exact absurd (parts.path_slash 58 colon) (by decide)
    simp only [List.nil_append, if_neg noColon, slash, Option.getD_none]
  | some number =>
    obtain ⟨digits, _⟩ := decimal_value number.toNat
    have small := number.toNat_lt
    have short : (decimal number.toNat).length ≤ 4 + 1 := decimal_length (by omega)
    have plain : ∀ byte ∈ decimal number.toNat, (byte != 47) = true := by
      intro byte member
      rw [bne_iff_ne]
      rintro rfl
      exact absurd (digits 47 member) (by decide)
    have ends : ∀ byte, parts.path.head? = some byte → (byte != 47) = false := by
      intro byte first
      rw [parts.path_slash byte first]
      rfl
    have colon : text ":" ++ decimal number.toNat ++ parts.path =
      58 :: (decimal number.toNat ++ parts.path) := rfl
    simp only [colon, List.head?_cons, if_true, List.tail_cons, takeWhile_stops plain ends,
      dropWhile_stops plain ends,
      slash, if_neg (by omega : ¬ (decimal number.toNat).length ≥ 16),
      portOf_decimal, Option.getD_some]

/-- A port, and a path with a colon and two slashes in a row. -/
def colonInPath : UrlParts where
  protocol := true
  host := text "host"
  port := some 8080
  path := text "/a:b//c"
  host_some := List.cons_ne_nil _ _
  host_fits := by decide
  host_plain := by decide +kernel
  port_some := by decide
  path_slash := fun _ first => (Option.some.inj first).symm
  path_fits := by decide +kernel
  path_nulFree := by decide

/-- A colon and slashes behind the path's first slash belong to the path. -/
theorem proxyParseUrl_written_colon : colonInPath.written = text "http://host:8080/a:b//c" ∧
    proxyParseUrl colonInPath.written = some ⟨text "host", 8080, text "/a:b//c"⟩ :=
  ⟨by decide +kernel, proxyParseUrl_written colonInPath⟩

end Parts

section WrittenPort

/-- What is written behind the first colon of the authority. -/
def writtenPort (url : Bytes) : Option Bytes :=
  (((withoutProtocol url).takeWhile fun byte => byte != 47).dropWhile fun byte => byte != 58).tail?

/-- The port of the written scheme. -/
def defaultPort (url : Bytes) : UInt16 := if text "https://" <+: url then 443 else 80

/-- A URL denotes the port that is written in it, and the one of its scheme if none is. -/
def DenotesPort (url : Bytes) (port : UInt16) : Prop :=
  match writtenPort url with
  | some (digit :: digits) =>
    (∀ byte ∈ digit :: digits, 48 ≤ byte ∧ byte ≤ 57) ∧ decimalValue (digit :: digits) = port.toNat
  | _ => port = defaultPort url

/-- The URL has no colon behind its host and its scheme is not `https`, or it has a port of
digits that fits into 16 bits. -/
def PortDelivered (url : Bytes) : Prop :=
  match writtenPort url with
  | none => ¬ text "https://" <+: url
  | some digits =>
    digits ≠ [] ∧ (∀ byte ∈ digits, 48 ≤ byte ∧ byte ≤ 57) ∧ decimalValue digits < 2 ^ 16

theorem writtenPort_eq (url : Bytes) : writtenPort url =
    if ((withoutProtocol url).dropWhile fun byte => byte != 58 && byte != 47).head? = some 58 then
      some (((withoutProtocol url).dropWhile fun byte => byte != 58 && byte != 47).tail.takeWhile
        fun byte => byte != 47)
    else none := by
  unfold writtenPort
  generalize withoutProtocol url = start
  have host : ∀ byte ∈ start.takeWhile (fun byte => byte != 58 && byte != 47),
      (byte != 58 && byte != 47) = true := by
    intro byte member
    exact List.mem_takeWhile_imp (p := fun byte => byte != 58 && byte != 47) member
  have first := List.head?_dropWhile_not (fun byte => byte != 58 && byte != 47) start
  have cut : (start.takeWhile fun byte => byte != 47).dropWhile (fun byte => byte != 58) =
      ((start.dropWhile fun byte => byte != 58 && byte != 47).takeWhile
        fun byte => byte != 47).dropWhile fun byte => byte != 58 := by
    conv_lhs => rw [← List.takeWhile_append_dropWhile (p := fun byte => byte != 58 && byte != 47)
      (l := start)]
    rw [List.takeWhile_append_of_pos fun byte member =>
      (Bool.and_eq_true_iff.mp (host byte member)).2]
    exact List.dropWhile_append_of_pos fun byte member =>
      (Bool.and_eq_true_iff.mp (host byte member)).1
  rw [cut]
  cases behind : start.dropWhile (fun byte => byte != 58 && byte != 47) with
  | nil => rfl
  | cons byte rest =>
    rw [behind, List.head?_cons] at first
    by_cases colon : byte = 58
    · subst colon
      rfl
    · have slash : byte = 47 := by simpa [colon] using first
      subst slash
      rfl

theorem proxyParseUrl_port {url : Bytes} {parsed : ProxyUrl}
    (read : proxyParseUrl url = some parsed) :
    (writtenPort url = none ∧ parsed.port = 80) ∨
      ∃ digits, writtenPort url = some digits ∧ digits.length < 16 ∧
        parsed.port = portOf digits := by
  rw [writtenPort_eq]
  simp only [proxyParseUrl] at read
  split at read
  · cases read
  · split at read
    · rename_i absent
      cases read
      exact Or.inl ⟨absent, rfl⟩
    · rename_i digits present
      split at read
      · cases read
      · rename_i short
        cases read
        exact Or.inr ⟨digits, present, not_le.mp short, rfl⟩

/-- The port that the proxy delivers is the one of the URL exactly if none is written and the
scheme is not `https`, or it is a number of 16 bits in decimal. -/
theorem proxy_port_iff {url : Bytes} {parsed : ProxyUrl} (read : proxyParseUrl url = some parsed) :
    DenotesPort url parsed.port ↔ PortDelivered url := by
  rcases proxyParseUrl_port read with ⟨absent, port⟩ | ⟨digits, present, short, port⟩
  · simp only [DenotesPort, PortDelivered, absent, port, defaultPort]
    split
    · simp_all
    · simp_all
  · cases digits with
    | nil =>
      simp only [DenotesPort, PortDelivered, present, port, defaultPort, ne_eq, not_true_eq_false,
        false_and, iff_false]
      have zero : portOf [] = 0 := rfl
      rw [zero]
      split
      · decide
      · decide
    | cons digit digits =>
      simp only [DenotesPort, PortDelivered, present, port]
      constructor
      · intro ⟨all, value⟩
        have narrow := (portOf (digit :: digits)).toNat_lt
        exact ⟨List.cons_ne_nil _ _, all, by omega⟩
      · intro ⟨_, all, small⟩
        obtain ⟨natural, _⟩ := decimalValue_bounds all
        refine ⟨all, ?_⟩
        rw [portOf_digits all short]
        exact (Int.emod_eq_of_lt natural small).symm

/-- A port of four digits. -/
theorem proxy_port_written :
    proxyParseUrl (text "http://host:8080/") = some ⟨text "host", 8080, text "/"⟩ ∧
    (DenotesPort (text "http://host:8080/") 8080 ↔ PortDelivered (text "http://host:8080/")) := by
  have read : proxyParseUrl (text "http://host:8080/") = some ⟨text "host", 8080, text "/"⟩ := by
    decide +kernel
  exact ⟨read, proxy_port_iff read⟩

/-- A URL with `https` gets the port of `http`. -/
theorem https_port : proxyParseUrl (text "https://host/") = some ⟨text "host", 80, text "/"⟩ ∧
    ¬ DenotesPort (text "https://host/") 80 := by
  refine ⟨by decide +kernel, ?_⟩
  have absent : writtenPort (text "https://host/") = none := by decide +kernel
  rw [DenotesPort, absent]
  decide +kernel

end WrittenPort

end LinuxCLearning.NetworkProxy
