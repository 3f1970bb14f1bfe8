import LinuxCLearning.Base.Bytes
import LinuxCLearning.Base.Process

/-! The wire format of the file server and the two loops that send and receive
whole buffers. -/

namespace LinuxCLearning.FileServer

/-- `cmd_type_t`. -/
inductive CmdType where
  | list | upload | download | delete | quit | auth | mkdir | rmdir | pwd | cd | resume | heartbeat
  | hash | web
  deriving DecidableEq

def CmdType.code : CmdType → UInt32
  | list => 1
  | upload => 2
  | download => 3
  | delete => 4
  | quit => 5
  | auth => 6
  | mkdir => 7
  | rmdir => 8
  | pwd => 9
  | cd => 10
  | resume => 11
  | heartbeat => 12
  | hash => 13
  | web => 14

/-- `status_code_t`. -/
inductive StatusCode where
  | ok | error | notFound | denied | partially | authRequired
  deriving DecidableEq

def StatusCode.code : StatusCode → UInt32
  | ok => 0
  | error => 1
  | notFound => 2
  | denied => 3
  | partially => 4
  | authRequired => 5

/-- The results of `error_code_t` that the client and the handlers return. -/
inductive ErrorCode where
  | success | errSend | errRecv | errFileOpen | errFileWrite | errProtocol
  deriving DecidableEq

def protocolMagic : UInt32 := 0x46535256

def defaultBufferSize : Nat := 4096

/-- `protocol_header_t`. -/
structure ProtocolHeader where
  magic : UInt32
  cmd : UInt32
  dataLen : UInt32
  checksum : UInt32
  offset : UInt64
  filename : CharArray 256
  deriving DecidableEq

/-- `response_header_t`. -/
structure ResponseHeader where
  status : UInt32
  dataLen : UInt32
  message : CharArray 256
  deriving DecidableEq

/-- A `uint32_t` at an offset of a packed structure. -/
def uint32At (bytes : Bytes) (position : Nat) : UInt32 :=
  UInt32.ofNat (leNat ((bytes.drop position).take 4))

def uint64At (bytes : Bytes) (position : Nat) : UInt64 :=
  UInt64.ofNat (leNat ((bytes.drop position).take 8))

namespace ProtocolHeader

/-- `sizeof(protocol_header_t)`. -/
def size : Nat := 280

def encode (header : ProtocolHeader) : Bytes :=
  leBytes 4 header.magic.toNat ++ (leBytes 4 header.cmd.toNat ++ (leBytes 4 header.dataLen.toNat ++
    (leBytes 4 header.checksum.toNat ++ (leBytes 8 header.offset.toNat ++ header.filename.bytes))))

def decode (bytes : Bytes) : ProtocolHeader where
  magic := uint32At bytes 0
  cmd := uint32At bytes 4
  dataLen := uint32At bytes 8
  checksum := uint32At bytes 12
  offset := uint64At bytes 16
  filename := .ofBytes 256 (bytes.drop 24)

end ProtocolHeader

namespace ResponseHeader

/-- `sizeof(response_header_t)`. -/
def size : Nat := 264

def encode (header : ResponseHeader) : Bytes :=
  leBytes 4 header.status.toNat ++ (leBytes 4 header.dataLen.toNat ++ header.message.bytes)

def decode (bytes : Bytes) : ResponseHeader where
  status := uint32At bytes 0
  dataLen := uint32At bytes 4
  message := .ofBytes 256 (bytes.drop 8)

end ResponseHeader

theorem uint32_of_leBytes (value : UInt32) :
    UInt32.ofNat (leNat (leBytes 4 value.toNat)) = value := by
  rw [leNat_leBytes value.toNat_lt, UInt32.ofNat_toNat]

theorem uint64_of_leBytes (value : UInt64) :
    UInt64.ofNat (leNat (leBytes 8 value.toNat)) = value := by
  rw [leNat_leBytes value.toNat_lt, UInt64.ofNat_toNat]

@[simp] theorem ProtocolHeader.encode_length (header : ProtocolHeader) :
    header.encode.length = ProtocolHeader.size := by
  simp [encode, size, header.filename.full]

@[simp] theorem ResponseHeader.encode_length (header : ResponseHeader) :
    header.encode.length = ResponseHeader.size := by
  simp [encode, size, header.message.full]

theorem drop_leBytes {width value count : Nat} (past : width ≤ count) :
    (leBytes width value).drop count = [] :=
  List.drop_eq_nil_of_le (by rwa [leBytes_length])

@[simp] theorem ProtocolHeader.decode_encode (header : ProtocolHeader) :
    decode header.encode = header := by
  simp [decode, encode, uint32At, uint64At, List.drop_append, drop_leBytes,
    uint32_of_leBytes, uint64_of_leBytes, CharArray.ofBytes_bytes]

@[simp] theorem ResponseHeader.decode_encode (header : ResponseHeader) :
    decode header.encode = header := by
  simp [decode, encode, uint32At, List.drop_append, drop_leBytes, uint32_of_leBytes,
    CharArray.ofBytes_bytes]

section Calls
variable {σ : Type}

/-- A single `send` of a whole structure. -/
def sendOnce (bytes : Bytes) : Proc UInt8 σ (Option Nat) := .send bytes true .done

/-- `send_all`: `false` is the result `-1`. -/
def sendAll (buffer : Bytes) : Proc UInt8 σ Bool :=
  if buffer = [] then .done true
  else .send buffer false fun
    | none => .done false
    | some count => if count = 0 then .done false else sendAll (buffer.drop count)
termination_by buffer.length
decreasing_by
  rename_i nonempty positive
  rw [List.length_drop]
  exact Nat.sub_lt (List.length_pos_iff.mpr nonempty) (Nat.pos_of_ne_zero positive)

/-- `recv_all` after `received`, with `missing` bytes to come: `none` is the result `-1`. -/
def recvAll (missing : Nat) (received : Bytes) : Proc UInt8 σ (Option Bytes) :=
  if missing = 0 then .done (some received)
  else .recv missing fun
    | none => .done none
    | some chunk =>
      if chunk = [] then .done none else recvAll (missing - chunk.length) (received ++ chunk)
termination_by missing
decreasing_by
  rename_i more positive
  exact Nat.sub_lt (Nat.pos_of_ne_zero more) (List.length_pos_iff.mpr positive)

end Calls

end LinuxCLearning.FileServer
