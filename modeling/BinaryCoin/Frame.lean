/-
  BinaryCoin — net.cpp: frames of the peer-to-peer protocol.

  A frame is a header of 24 bytes (message start, padded command, payload
  length, checksum) and a payload.  Two parsers read it, one from a buffer and
  one from a socket that delivers the bytes in pieces; both accept exactly what
  the encoder writes.
-/
import BinaryCoin.Messages

namespace BinaryCoin

open Cursor LittleEndian

def messageHeaderSize : ℕ := 24
def commandSize : ℕ := 12

/-- `TBIT` -/
def testnetMessageStart : Bytes := [84, 66, 73, 84]

structure Message where
  command : Str
  payload : Bytes
  deriving DecidableEq

def validateCommand (command : Str) : Except Exn Unit := do
  throwIf (command = [] ∨ command.length > commandSize)
    (invalidArgument "P2P command length is invalid")
  forM command fun character => throwIf (character < 0x20 ∨ character > 0x7e)
    (invalidArgument "P2P command contains invalid character")

/-- The loop over the header bytes of a command: the command so far, and whether its padding has
    begun. -/
def readCommandByte (state : Str × Bool) (byte : UInt8) : Except Exn (Str × Bool) := do
  if byte = 0 then return (state.1, true)
  else
    throwIf (state.2 ∨ byte < 0x20 ∨ byte > 0x7e) (runtimeError "Peer sent malformed command field")
    return (state.1 ++ [byte], state.2)

def readCommand (header : Bytes) : Except Exn Str := do
  let (command, _) ← ((header.drop 4).take commandSize).foldlM readCommandByte ([], false)
  validateCommand command
  return command

/-- The payload length and the checksum in a header. -/
def readLengthAndChecksum : Reader (UInt32 × Bytes) := do
  let payloadLength ← readU32Le
  throwIf (payloadLength.toNat > maxP2pPayload) (runtimeError "Peer payload exceeds limit")
  return (payloadLength, ← readBytes 4)

section
variable [Crypto]

def payloadChecksum (payload : Bytes) : Bytes := (sha256d payload).bytes.take 4

def encodeP2pFrame (command : Str) (payload : Bytes) : Except Exn Bytes := do
  validateCommand command
  throwIf (payload.length > maxP2pPayload) (runtimeError "P2P payload exceeds limit")
  let frame := testnetMessageStart ++ (List.range commandSize).map fun index => command.getD index 0
  let frame := appendU32Le frame (UInt32.ofNat payload.length)
  return frame ++ payloadChecksum payload ++ payload

def decodeP2pFrame (frame : Bytes) : Except Exn Message := do
  throwIf (frame.length < messageHeaderSize) (runtimeError "Truncated P2P message header")
  throwIf (frame.take 4 ≠ testnetMessageStart)
    (runtimeError "Peer sent incorrect network message start; expected TBIT")
  let command ← readCommand frame
  let header := frame.take messageHeaderSize
  let (payloadLength, expectedChecksum) ← readLengthAndChecksum.parse (header.drop 16)
  throwIf (frame.length ≠ messageHeaderSize + payloadLength.toNat)
    (runtimeError "P2P frame length does not match header")
  let payload := frame.drop messageHeaderSize
  throwIf (payloadChecksum payload ≠ expectedChecksum)
    (runtimeError "P2P payload checksum mismatch")
  return ⟨command, payload⟩

end

/-! ## Receiving -/

/-- What a socket gives at once: some bytes that have arrived, or an interruption. -/
inductive Delivery where
  | bytes (chunk : Bytes)
  | interrupted

abbrev SocketM := EStateM Exn (List Delivery)

/-- The loop of `receive_exact`: `count` more bytes, of which a call of `socket_receive` takes what
    has arrived together.  A call that returns nothing is the end of the stream. -/
def receiveLoop : List Delivery → ℕ → Bytes → EStateM.Result Exn (List Delivery) Bytes
  | deliveries, 0, received => .ok received deliveries
  | [], _ + 1, _ => .error (runtimeError "Peer closed connection unexpectedly") []
  | .interrupted :: rest, count + 1, received => receiveLoop rest (count + 1) received
  | .bytes chunk :: rest, count + 1, received =>
    if chunk = [] then .error (runtimeError "Peer closed connection unexpectedly") rest
    else if chunk.length ≤ count + 1 then
      receiveLoop rest (count + 1 - chunk.length) (received ++ chunk)
    else .ok (received ++ chunk.take (count + 1)) (.bytes (chunk.drop (count + 1)) :: rest)

def receiveExact (count : ℕ) : SocketM Bytes := fun deliveries => receiveLoop deliveries count []

def receiveMessage [Crypto] : SocketM Message := do
  let header ← receiveExact messageHeaderSize
  throwIf (header.take 4 ≠ testnetMessageStart)
    (runtimeError "Peer sent incorrect network message start; expected TBIT")
  let _ ← readCommand header
  let payloadLength ← Reader.parse readU32Le (header.drop 16)
  throwIf (payloadLength.toNat > maxP2pPayload) (runtimeError "Peer payload exceeds limit")
  let payload ← receiveExact payloadLength.toNat
  decodeP2pFrame (header ++ payload)

/-! ## Commands -/

/-- A printable character. -/
def Printable (c : UInt8) : Prop := ¬ (c < 0x20 ∨ c > 0x7e)

/-- What `validate_command` accepts. -/
structure CommandOk (command : Str) : Prop where
  ne : command ≠ []
  length_le : command.length ≤ commandSize
  printable : ∀ c ∈ command, Printable c

/-- The command in a header, padded. -/
def paddedCommand (command : Str) : Bytes :=
  command ++ List.replicate (commandSize - command.length) 0

theorem Printable.ne_zero {c : UInt8} (h : Printable c) : c ≠ 0 := by
  rintro rfl
  exact h (.inl (by decide))

theorem validateCommand_ok {command : Str} {x : Unit} :
    validateCommand command = .ok x ↔ CommandOk command := by
  have hloop : ∀ (characters : Str) (x : Unit), (forM characters fun character => throwIf
      (character < 0x20 ∨ character > 0x7e)
      (invalidArgument "P2P command contains invalid character") : Except Exn Unit) = .ok x ↔
      ∀ c ∈ characters, Printable c := by
    intro characters
    induction characters with
    | nil => intro x; simp [except_pure_ok]
    | cons c cs ih =>
      intro x
      rw [List.forM_cons, except_bind_ok, List.forall_mem_cons]
      simp only [throwIf_ok, exists_and_left, exists_const, ih]
      rfl
  simp only [validateCommand, except_bind_ok, throwIf_ok, exists_and_left, exists_const, hloop, not_or,
    not_lt, gt_iff_lt]
  exact ⟨fun ⟨⟨hne, hle⟩, hp⟩ => ⟨hne, hle, hp⟩, fun h => ⟨⟨h.ne, h.length_le⟩, h.printable⟩⟩

theorem map_getD_range {command : Str} (h : command.length ≤ commandSize) :
    ((List.range commandSize).map fun index => command.getD index 0) = paddedCommand command := by
  apply List.ext_getElem
  · simp only [paddedCommand, List.length_map, List.length_range, List.length_append,
      List.length_replicate]
    omega
  · intro i h₁ h₂
    by_cases hi : i < command.length
    · simp [paddedCommand, hi]
    · simp [paddedCommand, List.getElem_append, hi]

/-- The loop accepts printable characters and then zeros. -/
theorem foldlM_readCommandByte_ok {bytes acc command : Str} {started : Bool} :
    (∃ started', bytes.foldlM readCommandByte (acc, started) = .ok (command, started')) ↔
      ∃ text zeros, bytes = text ++ List.replicate zeros 0 ∧ (∀ c ∈ text, Printable c) ∧
        (started = true → text = []) ∧ command = acc ++ text := by
  induction bytes generalizing acc started with
  | nil =>
    simp only [List.foldlM_nil, except_pure_ok, Prod.mk.injEq, exists_and_left]
    constructor
    · rintro ⟨rfl, -⟩
      exact ⟨[], 0, rfl, by simp, fun _ => rfl, by simp⟩
    · rintro ⟨text, zeros, hnil, -, -, rfl⟩
      obtain ⟨rfl, -⟩ := List.append_eq_nil_iff.1 hnil.symm
      exact ⟨by simp, started, rfl⟩
  | cons b bs ih =>
    simp only [List.foldlM_cons, except_bind_ok]
    by_cases hzero : b = 0
    · subst hzero
      have hstep : ∀ state, readCommandByte (acc, started) 0 = .ok state ↔ (acc, true) = state := by
        intro state
        simp [readCommandByte, except_pure_ok]
      simp only [hstep, exists_eq_left', ih]
      constructor
      · rintro ⟨text, zeros, rfl, -, hnil, rfl⟩
        obtain rfl := hnil trivial
        exact ⟨[], zeros + 1, rfl, by simp, fun _ => rfl, rfl⟩
      · rintro ⟨text, zeros, heq, hprint, -, rfl⟩
        cases text with
        | nil =>
          cases zeros with
          | zero => cases heq
          | succ zeros => exact ⟨[], zeros, (List.cons.inj heq).2, by simp, fun _ => rfl, by simp⟩
        | cons c text =>
          have hc := hprint c List.mem_cons_self
          exact absurd (List.cons.inj heq).1.symm hc.ne_zero
    · have hstep : ∀ state, readCommandByte (acc, started) b = .ok state ↔
          (started = false ∧ Printable b) ∧ (acc ++ [b], started) = state := by
        intro state
        simp only [readCommandByte, hzero, if_false, except_bind_ok, throwIf_ok, except_pure_ok,
          exists_and_left, exists_const, not_or, Bool.not_eq_true, Printable]
      simp only [hstep]
      constructor
      · rintro ⟨started', state, ⟨⟨rfl, hb⟩, rfl⟩, h⟩
        obtain ⟨text, zeros, rfl, hprint, -, rfl⟩ := ih.1 ⟨started', h⟩
        exact ⟨b :: text, zeros, rfl, List.forall_mem_cons.2 ⟨hb, hprint⟩, by simp, by simp⟩
      · rintro ⟨text, zeros, heq, hprint, hstarted, rfl⟩
        cases text with
        | nil =>
          cases zeros with
          | zero => cases heq
          | succ zeros => exact absurd (List.cons.inj heq).1 hzero
        | cons c text =>
          obtain ⟨rfl, rfl⟩ := List.cons.inj heq
          obtain ⟨hc, hprint⟩ := List.forall_mem_cons.1 hprint
          have hfresh : started = false := by
            cases started with
            | false => rfl
            | true => cases hstarted rfl
          have hrest : ∃ started', (text ++ List.replicate zeros 0).foldlM readCommandByte
              (acc ++ [b], started) = .ok (acc ++ b :: text, started') :=
            ih.2 ⟨text, zeros, rfl, hprint, by simp [hfresh], by simp⟩
          obtain ⟨started', h⟩ := hrest
          exact ⟨started', _, ⟨⟨hfresh, hc⟩, rfl⟩, h⟩

/-- **The command field** of a header is read back, and nothing but a padded command is read. -/
theorem readCommand_ok {header : Bytes} {command : Str} (hlen : 16 ≤ header.length) :
    readCommand header = .ok command ↔
      CommandOk command ∧ (header.drop 4).take commandSize = paddedCommand command := by
  have hfield : ((header.drop 4).take commandSize).length = commandSize := by
    simp [commandSize]
    omega
  simp only [readCommand, except_bind_ok, except_pure_ok, validateCommand_ok, exists_and_left,
    exists_const, Prod.exists]
  constructor
  · rintro ⟨text, started, h, hok, rfl⟩
    obtain ⟨text, zeros, heq, -, -, hcommand⟩ := foldlM_readCommandByte_ok.1 ⟨started, h⟩
    rw [List.nil_append] at hcommand
    subst hcommand
    refine ⟨hok, ?_⟩
    have hzeros : zeros = commandSize - text.length := by
      have := congrArg List.length heq
      rw [hfield, List.length_append, List.length_replicate] at this
      omega
    rw [heq, hzeros]
    rfl
  · rintro ⟨hok, heq⟩
    have hread : ∃ started, ((header.drop 4).take commandSize).foldlM readCommandByte ([], false) =
        .ok (command, started) :=
      foldlM_readCommandByte_ok.2 ⟨command, _, heq, hok.printable, by simp, by simp⟩
    obtain ⟨started, h⟩ := hread
    exact ⟨command, started, h, hok, rfl⟩

/-! ## Frames -/

section
variable [Crypto]

/-- A message that may be sent. -/
structure Message.Ok (message : Message) : Prop where
  command : CommandOk message.command
  payload : message.payload.length ≤ maxP2pPayload

/-- The header of a frame. -/
def Message.header (message : Message) : Bytes :=
  testnetMessageStart ++ (paddedCommand message.command ++
    (leBytes 4 message.payload.length ++ payloadChecksum message.payload))

def Message.encode (message : Message) : Bytes := message.header ++ message.payload

theorem length_payloadChecksum (payload : Bytes) : (payloadChecksum payload).length = 4 := by
  rw [payloadChecksum, List.length_take, (sha256d payload).size_eq]
  rfl

omit [Crypto] in
theorem CommandOk.length_padded {command : Str} (h : CommandOk command) :
    (paddedCommand command).length = 12 := by
  have := h.length_le
  simp only [paddedCommand, commandSize, List.length_append, List.length_replicate] at this ⊢
  omega

theorem Message.Ok.length_header {message : Message} (h : message.Ok) :
    message.header.length = messageHeaderSize := by
  simp [Message.header, h.command.length_padded, length_payloadChecksum, testnetMessageStart,
    messageHeaderSize]

/-- The fields of a frame. -/
theorem Message.Ok.fields {message : Message} (h : message.Ok) (rest : Bytes) :
    (message.header ++ rest).take 4 = testnetMessageStart ∧
    ((message.header ++ rest).drop 4).take commandSize = paddedCommand message.command ∧
    (message.header ++ rest).take messageHeaderSize = message.header ∧
    (message.header ++ rest).drop messageHeaderSize = rest ∧
    message.header.drop 16 = leBytes 4 message.payload.length ++ payloadChecksum message.payload := by
  have hstart : testnetMessageStart.length = 4 := rfl
  have hpadded : (paddedCommand message.command).length = commandSize := h.command.length_padded
  refine ⟨?_, ?_, ?_, ?_, ?_⟩
  · rw [Message.header, List.append_assoc, List.take_left' hstart]
  · rw [Message.header, List.append_assoc, List.drop_left' hstart, List.append_assoc,
      List.take_left' hpadded]
  · rw [List.take_left' h.length_header]
  · rw [List.drop_left' h.length_header]
  · rw [Message.header, ← List.append_assoc]
    exact List.drop_left' (by rw [List.length_append, hstart, hpadded]; rfl)

/-- **What `encode_p2p_frame` returns.** -/
theorem encodeP2pFrame_ok {message : Message} {frame : Bytes} :
    encodeP2pFrame message.command message.payload = .ok frame ↔
      message.Ok ∧ frame = message.encode := by
  simp only [encodeP2pFrame, except_bind_ok, validateCommand_ok, throwIf_ok, except_pure_ok,
    exists_and_left, exists_const, not_lt, gt_iff_lt]
  have hframe : ∀ h : message.Ok, appendU32Le (testnetMessageStart ++
      (List.range commandSize).map fun index => message.command.getD index 0)
      (UInt32.ofNat message.payload.length) ++ payloadChecksum message.payload ++ message.payload =
      message.encode := by
    intro h
    have hlen : (UInt32.ofNat message.payload.length).toNat = message.payload.length := by
      have := h.payload
      unfold maxP2pPayload at this
      exact UInt32.toNat_ofNat_of_lt' (by norm_num [UInt32.size]; omega)
    rw [map_getD_range h.command.length_le, appendU32Le, hlen]
    simp [Message.encode, Message.header]
  constructor
  · rintro ⟨hcommand, hpayload, rfl⟩
    have h : message.Ok := ⟨hcommand, hpayload⟩
    exact ⟨h, hframe h⟩
  · rintro ⟨h, rfl⟩
    exact ⟨h.command, h.payload, hframe h⟩

/-- A message that can be sent. -/
theorem encodeP2pFrame_sent {command : Str} {payload : Bytes} (hcommand : CommandOk command)
    (hlength : payload.length ≤ maxP2pPayload) :
    encodeP2pFrame command payload = .ok (Message.encode ⟨command, payload⟩) :=
  (encodeP2pFrame_ok : _ ↔ (Message.mk command payload).Ok ∧ _).2 ⟨⟨hcommand, hlength⟩, rfl⟩

omit [Crypto] in
/-- The length and the checksum in a header. -/
theorem readLengthAndChecksum_ok {bytes checksum : Bytes} {payloadLength : UInt32} :
    readLengthAndChecksum.parse bytes = .ok (payloadLength, checksum) ↔
      payloadLength.toNat ≤ maxP2pPayload ∧ checksum.length = 4 ∧
      ∃ rest, bytes = leBytes 4 payloadLength.toNat ++ (checksum ++ rest) := by
  simp only [readLengthAndChecksum, Reader.parse_ok, readU32Le_decodes.bind_ok, run_bind_ok,
    throwIf_run_ok, readBytes_decodes _ _ _, run_pure_ok, true_and, id_eq, not_lt, gt_iff_lt,
    Prod.mk.injEq]
  constructor
  · rintro ⟨_, length, _, rfl, _, _, ⟨hle, rfl⟩, _, rest, ⟨hlen, rfl⟩, ⟨rfl, rfl⟩, rfl⟩
    exact ⟨hle, hlen, rest, rfl⟩
  · rintro ⟨hle, hlen, rest, rfl⟩
    exact ⟨rest, payloadLength, _, rfl, (), _, ⟨hle, rfl⟩, checksum, rest, ⟨hlen, rfl⟩, ⟨rfl, rfl⟩, rfl⟩

/-- **What `decode_p2p_frame` accepts**: exactly the encodings. -/
theorem decodeP2pFrame_ok {message : Message} {frame : Bytes} :
    decodeP2pFrame frame = .ok message ↔ message.Ok ∧ frame = message.encode := by
  simp only [decodeP2pFrame, except_bind_ok, throwIf_ok, except_pure_ok, exists_and_left,
    exists_const, not_not, not_lt, Prod.exists]
  constructor
  · rintro ⟨hlen, hstart, command, hcommand, length, checksum, hread, hsize, hchecksum, rfl⟩
    have hlen16 : 16 ≤ frame.length := le_trans (by decide) hlen
    obtain ⟨hok, hfield⟩ := (readCommand_ok hlen16).1 hcommand
    obtain ⟨hle, hclen, rest, heq⟩ := readLengthAndChecksum_ok.1 hread
    -- the header has nothing after the checksum
    have hrest : rest = [] := by
      have h := congrArg List.length heq
      simp only [List.length_drop, List.length_take, List.length_append, length_leBytes, hclen] at h
      unfold messageHeaderSize at hlen h
      exact List.length_eq_zero_iff.1 (by omega)
    subst hrest
    have hpayload : (frame.drop messageHeaderSize).length = length.toNat := by
      rw [List.length_drop]
      omega
    have hcounts : frame.take messageHeaderSize = testnetMessageStart ++ (paddedCommand command ++
        (leBytes 4 length.toNat ++ checksum)) := by
      have h₁ : frame.take messageHeaderSize = frame.take 4 ++ ((frame.drop 4).take commandSize ++
          (frame.take messageHeaderSize).drop 16) := by
        rw [List.drop_take, ← List.drop_drop (i := 12) (j := 4) (l := frame)]
        have h := List.take_append_drop 12 ((frame.drop 4).take 20)
        rw [List.take_take, List.drop_take] at h
        have h' := List.take_append_drop 4 (frame.take messageHeaderSize)
        rw [List.take_take, List.drop_take] at h'
        simp only [messageHeaderSize, commandSize] at h h' ⊢
        rw [← h', ← h]
        rfl
      rw [h₁, hstart, hfield, heq, List.append_nil]
    refine ⟨⟨hok, hpayload ▸ hle⟩, ?_⟩
    rw [Message.encode, Message.header, ← List.take_append_drop messageHeaderSize frame, hcounts]
    simp only [List.drop_left' (show (testnetMessageStart ++ (paddedCommand command ++
      (leBytes 4 length.toNat ++ checksum))).length = messageHeaderSize by
        rw [← hcounts, List.length_take]; omega), hpayload, hchecksum]
  · rintro ⟨h, rfl⟩
    obtain ⟨hstart, hfield, htake, hdrop, hrest⟩ := h.fields message.payload
    have hlen := h.length_header
    have hle : message.payload.length ≤ maxP2pPayload := h.payload
    have hlength : (UInt32.ofNat message.payload.length).toNat = message.payload.length := by
      unfold maxP2pPayload at hle
      exact UInt32.toNat_ofNat_of_lt' (by norm_num [UInt32.size]; omega)
    have hread : readLengthAndChecksum.parse (message.header.drop 16) =
        .ok (UInt32.ofNat message.payload.length, payloadChecksum message.payload) :=
      readLengthAndChecksum_ok.2 ⟨by rw [hlength]; exact hle, length_payloadChecksum _, [], by
        rw [hrest, hlength, List.append_nil]⟩
    have hlen16 : 16 ≤ (message.header ++ message.payload).length := by
      rw [List.length_append, hlen]
      exact le_trans (by decide) (Nat.le_add_right _ _)
    refine ⟨?_, hstart, message.command, (readCommand_ok hlen16).2 ⟨h.command, hfield⟩, _, _,
      htake ▸ hread, ?_, hdrop.symm ▸ rfl, ?_⟩
    · rw [Message.encode, List.length_append, hlen]
      exact Nat.le_add_right _ _
    · rw [Message.encode, List.length_append, hlen, hlength]
    · rw [Message.encode, hdrop]

/-! ## Streams -/

/-- The bytes that are still to be delivered. -/
def content (deliveries : List Delivery) : Bytes :=
  deliveries.flatMap fun
    | .bytes chunk => chunk
    | .interrupted => []

/-- The stream is not at its end before all has been delivered. -/
def Open (deliveries : List Delivery) : Prop := .bytes [] ∉ deliveries

omit [Crypto] in
/-- **`receive_exact` takes the next bytes**, however they are delivered. -/
theorem receiveLoop_ok {deliveries : List Delivery} (received : Bytes) {bytes rest : Bytes}
    (hopen : Open deliveries) (hcontent : content deliveries = bytes ++ rest) :
    ∃ deliveries', receiveLoop deliveries bytes.length received =
        .ok (received ++ bytes) deliveries' ∧ Open deliveries' ∧ content deliveries' = rest := by
  induction deliveries generalizing received bytes with
  | nil =>
    obtain ⟨rfl, rfl⟩ := List.append_eq_nil_iff.1 hcontent.symm
    exact ⟨[], by simp [receiveLoop], hopen, rfl⟩
  | cons d ds ih =>
    obtain ⟨hd, hopen'⟩ := not_or.1 (List.mem_cons.not.1 hopen)
    cases bytes with
    | nil => exact ⟨d :: ds, by simp [receiveLoop], hopen, hcontent⟩
    | cons b bs =>
      cases d with
      | interrupted =>
        exact ih received hopen' hcontent
      | bytes chunk =>
        have hne : chunk ≠ [] := fun h => hd (by rw [h])
        have hsplit : chunk ++ content ds = b :: bs ++ rest := hcontent
        simp only [List.length_cons, receiveLoop, hne, if_false]
        by_cases hle : chunk.length ≤ bs.length + 1
        · rw [if_pos hle]
          -- the chunk is a prefix of what is wanted
          obtain ⟨more, hmore⟩ : ∃ more, b :: bs = chunk ++ more := by
            have hprefix := List.append_eq_append_iff.1 hsplit
            rcases hprefix with ⟨more, h, -⟩ | ⟨more, h, -⟩
            · exact ⟨more, h⟩
            · have hlen := congrArg List.length h
              simp only [List.length_append, List.length_cons] at hlen
              have hnil : more = [] := List.length_eq_zero_iff.1 (by omega)
              exact ⟨[], by rw [List.append_nil, h, hnil, List.append_nil]⟩
          rw [hmore, List.append_assoc, List.append_cancel_left_eq] at hsplit
          have hcount : bs.length + 1 - chunk.length = more.length := by
            have := congrArg List.length hmore
            simp only [List.length_append, List.length_cons] at this
            omega
          obtain ⟨ds', hrun, hopen'', hrest⟩ := ih (received ++ chunk) hopen' hsplit
          refine ⟨ds', ?_, hopen'', hrest⟩
          rw [hcount, hrun, hmore, List.append_assoc]
        · rw [if_neg hle]
          obtain ⟨more, hmore⟩ : ∃ more, chunk = (b :: bs) ++ more := by
            rcases List.append_eq_append_iff.1 hsplit with ⟨more, h, -⟩ | ⟨more, h, -⟩
            · have hlen := congrArg List.length h
              simp only [List.length_append, List.length_cons] at hlen
              omega
            · exact ⟨more, h⟩
          have hmore_ne : more ≠ [] := by
            rintro rfl
            have hlen := congrArg List.length hmore
            simp only [List.length_append, List.length_cons, List.length_nil] at hlen
            omega
          have htake : chunk.take (bs.length + 1) = b :: bs := by
            rw [hmore]
            exact List.take_left' rfl
          have hdrop : chunk.drop (bs.length + 1) = more := by
            rw [hmore]
            exact List.drop_left' rfl
          refine ⟨.bytes more :: ds, by rw [htake, hdrop], ?_, ?_⟩
          · intro h
            rcases List.mem_cons.1 h with h | h
            · exact hmore_ne (Delivery.bytes.inj h).symm
            · exact hopen' h
          · rw [hmore, List.append_assoc, List.append_cancel_left_eq] at hsplit
            exact hsplit

/-- **A message is received** from any delivery of its frame. -/
theorem receiveMessage_ok {message : Message} (h : message.Ok) {deliveries : List Delivery}
    {rest : Bytes} (hopen : Open deliveries) (hcontent : content deliveries = message.encode ++ rest) :
    ∃ deliveries', receiveMessage.run deliveries = .ok message deliveries' ∧ Open deliveries' ∧
      content deliveries' = rest := by
  rw [Message.encode, List.append_assoc] at hcontent
  obtain ⟨ds₁, hheader, hopen₁, hcontent₁⟩ := receiveLoop_ok [] hopen hcontent
  obtain ⟨ds₂, hpayload, hopen₂, hcontent₂⟩ := receiveLoop_ok [] hopen₁ hcontent₁
  rw [List.nil_append] at hheader hpayload
  obtain ⟨hstart, hfield, -, -, hlast⟩ := h.fields []
  rw [List.append_nil] at hstart hfield
  have hlen16 : 16 ≤ message.header.length := by rw [h.length_header]; decide
  have hcommand := (readCommand_ok hlen16).2 ⟨h.command, hfield⟩
  have hle : message.payload.length ≤ maxP2pPayload := h.payload
  have hlength : (UInt32.ofNat message.payload.length).toNat = message.payload.length := by
    unfold maxP2pPayload at hle
    exact UInt32.toNat_ofNat_of_lt' (by norm_num [UInt32.size]; omega)
  have hread : Reader.parse readU32Le (message.header.drop 16) =
      .ok (UInt32.ofNat message.payload.length) := by
    refine Reader.parse_ok.2 ⟨payloadChecksum message.payload, ?_⟩
    refine (readU32Le_decodes _ _ _).2 ⟨trivial, ?_⟩
    show _ = leBytes 4 (UInt32.ofNat message.payload.length).toNat ++ _
    rw [hlast, hlength]
  refine ⟨ds₂, ?_, hopen₂, hcontent₂⟩
  simp only [receiveMessage, run_bind_ok, throwIf_run_ok, lift_run_ok]
  exact ⟨message.header, ds₁, h.length_header ▸ hheader, (), ds₁, ⟨not_not.2 hstart, rfl⟩,
    message.command, ds₁, ⟨hcommand, rfl⟩, _, ds₁, ⟨hread, rfl⟩, (), ds₁,
    ⟨by rw [hlength]; exact Nat.not_lt.2 hle, rfl⟩, message.payload, ds₂, hlength.symm ▸ hpayload,
    decodeP2pFrame_ok.2 ⟨h, rfl⟩, rfl⟩

/-- **Framing.**  Encoding and decoding are inverse to each other, and any delivery of the frames of
    a list of messages is received as that list. -/
theorem framing :
    (∀ command payload, validateCommand command = .ok () → payload.length ≤ maxP2pPayload →
      ∃ frame, encodeP2pFrame command payload = .ok frame ∧
        decodeP2pFrame frame = .ok ⟨command, payload⟩) ∧
    (∀ frame message, decodeP2pFrame frame = .ok message →
      encodeP2pFrame message.command message.payload = .ok frame) ∧
    ∀ (messages : List Message) (frames : List Bytes) (deliveries : List Delivery),
      messages.mapM (fun message => encodeP2pFrame message.command message.payload) = .ok frames →
      .bytes [] ∉ deliveries → content deliveries = frames.flatten →
      ∃ deliveries', (many receiveMessage messages.length).run deliveries =
        .ok messages deliveries' ∧ content deliveries' = [] := by
  refine ⟨fun command payload hcommand hpayload => ?_, fun frame message h => ?_,
    fun messages frames deliveries hframes hopen hcontent => ?_⟩
  · have h : Message.Ok ⟨command, payload⟩ := ⟨validateCommand_ok.1 hcommand, hpayload⟩
    exact ⟨_, encodeP2pFrame_ok.2 ⟨h, rfl⟩, decodeP2pFrame_ok.2 ⟨h, rfl⟩⟩
  · exact encodeP2pFrame_ok.2 (decodeP2pFrame_ok.1 h)
  · obtain ⟨hok, rfl⟩ := (mapM_ok fun message frame => encodeP2pFrame_ok).1 hframes
    replace hopen : Open deliveries := hopen
    clear hframes
    induction messages generalizing deliveries with
    | nil => exact ⟨deliveries, rfl, hcontent⟩
    | cons message messages ih =>
      obtain ⟨hmessage, hmessages⟩ := List.forall_mem_cons.1 hok
      rw [List.map_cons, List.flatten_cons] at hcontent
      obtain ⟨ds₁, hrun, hopen₁, hcontent₁⟩ := receiveMessage_ok hmessage hopen hcontent
      obtain ⟨ds₂, hrest, hnil⟩ := ih ds₁ hmessages hcontent₁ hopen₁
      refine ⟨ds₂, ?_, hnil⟩
      simp only [List.length_cons, many, run_bind_ok, run_pure_ok]
      exact ⟨message, ds₁, hrun, messages, ds₂, hrest, rfl, rfl⟩

end

end BinaryCoin
