-- The payloads of OPEN, EXIT and WINDOW_UPDATE (docs/wire_protocol.md). The laws:
-- each decoder reads back what its encoder wrote, and accepts nothing invalid.
import PipeShellX.Os
import PipeShellX.Transport.Wire

namespace psx.transport

open psx.os (ExitStatus)

/-- The error of a payload that cannot be read. -/
def malformed (what : String) : Error := ⟨.Other, 0, what⟩

/-! ## EXIT -/

def kindByte : ExitStatus.Kind → UInt8
  | .Exited => 0
  | .Signaled => 1
  | .Terminated => 2

/-- The payload of an EXIT. -/
def encodeExit (status : ExitStatus) : Bytes :=
  kindByte status.kind :: writeU32BE status.code.toUInt32

/-- The status of an EXIT. -/
def decodeExit : Bytes → Result ExitStatus
  | [kind, b0, b1, b2, b3] =>
    let code := (readU32BE b0 b1 b2 b3).toInt32
    if kind = 0 then .ok ⟨.Exited, code⟩
    else if kind = 1 then .ok ⟨.Signaled, code⟩
    else if kind = 2 then .ok ⟨.Terminated, code⟩
    else .error (malformed "EXIT payload: unknown status kind")
  | _ => .error (malformed "EXIT payload: expected 5 bytes")

theorem decodeExit_encode (status : ExitStatus) : decodeExit (encodeExit status) = .ok status := by
  obtain ⟨kind, code⟩ := status
  simp only [encodeExit, writeU32BE, decodeExit, read_write, Int32.toInt32_toUInt32]
  cases kind <;> rfl

@[simp] theorem encodeExit_length (status : ExitStatus) : (encodeExit status).length = 5 := rfl

/-! ## WINDOW_UPDATE -/

def encodeWindowUpdate (delta : UInt32) : Bytes := writeU32BE delta

def decodeWindowUpdate : Bytes → Result UInt32
  | [b0, b1, b2, b3] =>
    let delta := readU32BE b0 b1 b2 b3
    if delta = 0 then .error (malformed "WINDOW_UPDATE payload: zero delta")
    else .ok delta
  | _ => .error (malformed "WINDOW_UPDATE payload: expected 4 bytes")

theorem decodeWindowUpdate_encode {delta : UInt32} (h : delta ≠ 0) :
    decodeWindowUpdate (encodeWindowUpdate delta) = .ok delta := by
  simp only [encodeWindowUpdate, writeU32BE, decodeWindowUpdate, read_write, if_neg h]

/-! ## OPEN -/

def kMaxOpenArgc : Nat := 1024

def kMaxOpenArgumentBytes : Nat := 128 * 1024

def kMaxOpenCwdBytes : Nat := 32 * 1024

def kOpenVersion : UInt8 := 1

/-- What the controller asks a node to start. An empty `cwd` inherits the agent's. -/
structure OpenRequest where
  argv : List Bytes
  cwd : Bytes
  deriving DecidableEq

/-- The loop of `validateOpenRequest` over the arguments. -/
def validateArguments : List Bytes → Result Unit
  | [] => .ok ()
  | argument :: argv =>
    if argument.length > kMaxOpenArgumentBytes then
      .error (malformed "OPEN payload: argument exceeds the maximum")
    else if 0 ∈ argument then .error (malformed "OPEN payload: argument contains NUL")
    else validateArguments argv

/-- What a request has to be, on both sides. -/
def validateOpenRequest (request : OpenRequest) : Result Unit :=
  match request.argv with
  | [] => .error (malformed "OPEN payload: argv must not be empty")
  | front :: _ =>
    if request.argv.length > kMaxOpenArgc then
      .error (malformed "OPEN payload: argc exceeds the maximum")
    else if front = [] then .error (malformed "OPEN payload: argv[0] must not be empty")
    else
      match validateArguments request.argv with
      | .error e => .error e
      | .ok () =>
        if request.cwd.length > kMaxOpenCwdBytes then
          .error (malformed "OPEN payload: cwd exceeds the maximum")
        else if 0 ∈ request.cwd then .error (malformed "OPEN payload: cwd contains NUL")
        else .ok ()

/-- A length-prefixed string. -/
def writeString (bytes : Bytes) : Bytes := writeU32BE (UInt32.ofNat bytes.length) ++ bytes

/-- The payload of an OPEN. -/
def encodeOpen (request : OpenRequest) : Bytes :=
  kOpenVersion :: (writeU32BE (UInt32.ofNat request.argv.length) ++
    request.argv.flatMap writeString ++ writeString request.cwd)

/-! `Reader` is a forward cursor: each `take` gives what it read and the bytes after it. -/

def takeU8 : Bytes → Option (UInt8 × Bytes)
  | [] => none
  | byte :: rest => some (byte, rest)

def takeU32 : Bytes → Option (UInt32 × Bytes)
  | b0 :: b1 :: b2 :: b3 :: rest => some (readU32BE b0 b1 b2 b3, rest)
  | _ => none

/-- A length and the bytes behind it. -/
def takeString (maxLength : Nat) (bytes : Bytes) : Option (Bytes × Bytes) :=
  match takeU32 bytes with
  | none => none
  | some (len, rest) =>
    if len.toNat > maxLength ∨ rest.length < len.toNat then none
    else some (rest.take len.toNat, rest.drop len.toNat)

/-- The loop of `decodeOpen` over the announced arguments. -/
def takeArguments : Nat → Bytes → Option (List Bytes × Bytes)
  | 0, bytes => some ([], bytes)
  | argc + 1, bytes =>
    match takeString kMaxOpenArgumentBytes bytes with
    | none => none
    | some (argument, rest) =>
      match takeArguments argc rest with
      | none => none
      | some (argv, rest) => some (argument :: argv, rest)

/-- The request of an OPEN; nothing may stand behind it. -/
def decodeOpen (payload : Bytes) : Result OpenRequest :=
  match takeU8 payload with
  | none => .error (malformed "OPEN payload: missing version")
  | some (version, rest) =>
    if version ≠ kOpenVersion then .error (malformed "OPEN payload: unsupported version")
    else
      match takeU32 rest with
      | none => .error (malformed "OPEN payload: missing argc")
      | some (argc, rest) =>
        if argc.toNat > kMaxOpenArgc then
          .error (malformed "OPEN payload: argc exceeds the maximum")
        else
          match takeArguments argc.toNat rest with
          | none => .error (malformed "OPEN payload: truncated argument")
          | some (argv, rest) =>
            match takeString kMaxOpenCwdBytes rest with
            | none => .error (malformed "OPEN payload: truncated cwd")
            | some (cwd, rest) =>
              if rest ≠ [] then .error (malformed "OPEN payload: trailing bytes")
              else
                match validateOpenRequest ⟨argv, cwd⟩ with
                | .error e => .error e
                | .ok () => .ok ⟨argv, cwd⟩

theorem validateArguments_iff {argv : List Bytes} : validateArguments argv = .ok () ↔
    ∀ argument ∈ argv, argument.length ≤ kMaxOpenArgumentBytes ∧ 0 ∉ argument := by
  induction argv with
  | nil => simp [validateArguments]
  | cons argument argv ih =>
    unfold validateArguments
    rw [List.forall_mem_cons, ← ih]
    split_ifs with h1 h2
    · simp [Nat.not_le_of_lt h1]
    · simp [h2]
    · simp [Nat.le_of_not_lt h1, h2]

/-- What a valid request is. -/
theorem validateOpenRequest_iff {request : OpenRequest} : validateOpenRequest request = .ok () ↔
    request.argv.length ≤ kMaxOpenArgc ∧
      (∀ argument ∈ request.argv, argument.length ≤ kMaxOpenArgumentBytes ∧ 0 ∉ argument) ∧
      (∃ front rest, request.argv = front :: rest ∧ front ≠ []) ∧
      request.cwd.length ≤ kMaxOpenCwdBytes ∧ 0 ∉ request.cwd := by
  rw [← validateArguments_iff]
  unfold validateOpenRequest
  cases hargv : request.argv with
  | nil => simp
  | cons front rest =>
    dsimp only
    split_ifs with h1 h2 h3 h4
    · simp only [false_iff, not_and]
      exact fun h => absurd h1 (Nat.not_lt_of_le h)
    · simp [h2]
    · cases validateArguments (front :: rest) <;> simp [Nat.not_le_of_lt h3]
    · cases validateArguments (front :: rest) <;> simp [h4]
    · have hargc : rest.length + 1 ≤ kMaxOpenArgc := Nat.le_of_not_lt h1
      cases validateArguments (front :: rest) <;> simp [hargc, h2, Nat.le_of_not_lt h3, h4]

/-- The bounds of a valid request. -/
theorem validateOpenRequest_ok {request : OpenRequest} (h : validateOpenRequest request = .ok ()) :
    request.argv.length ≤ kMaxOpenArgc ∧
      (∀ argument ∈ request.argv, argument.length ≤ kMaxOpenArgumentBytes) ∧
      request.cwd.length ≤ kMaxOpenCwdBytes := by
  obtain ⟨hargc, hargs, -, hcwd, -⟩ := validateOpenRequest_iff.mp h
  exact ⟨hargc, fun a ha => (hargs a ha).1, hcwd⟩

theorem takeU32_write (value : UInt32) (rest : Bytes) :
    takeU32 (writeU32BE value ++ rest) = some (value, rest) := by
  simp only [writeU32BE, List.cons_append, List.nil_append, takeU32, read_write]

theorem takeString_write {maxLength : Nat} {bytes : Bytes} (h : bytes.length ≤ maxLength)
    (hmax : maxLength < UInt32.size) (rest : Bytes) :
    takeString maxLength (writeString bytes ++ rest) = some (bytes, rest) := by
  have hlen : (UInt32.ofNat bytes.length).toNat = bytes.length := by
    rw [UInt32.toNat_ofNat']
    exact Nat.mod_eq_of_lt (Nat.lt_of_le_of_lt h hmax)
  simp only [takeString, writeString, List.append_assoc, takeU32_write, hlen]
  rw [if_neg (by simp; omega)]
  simp

theorem takeArguments_write {argv : List Bytes}
    (h : ∀ argument ∈ argv, argument.length ≤ kMaxOpenArgumentBytes) (rest : Bytes) :
    takeArguments argv.length (argv.flatMap writeString ++ rest) = some (argv, rest) := by
  induction argv with
  | nil => rfl
  | cons argument argv ih =>
    have hfirst := takeString_write (h argument (by simp)) (by decide)
      (argv.flatMap writeString ++ rest)
    simp only [List.length_cons, List.flatMap_cons, List.append_assoc, takeArguments, hfirst]
    rw [ih fun a ha => h a (by simp [ha])]

/-- The run of `decodeOpen` on which every field is there. The cursors are variables, so that
the kernel never unfolds the words behind them. -/
theorem decodeOpen_run {payload rest1 rest2 rest3 cwd : Bytes} {argc : UInt32}
    {argv : List Bytes} (hversion : takeU8 payload = some (kOpenVersion, rest1))
    (hargc : takeU32 rest1 = some (argc, rest2)) (hbound : argc.toNat ≤ kMaxOpenArgc)
    (hargv : takeArguments argc.toNat rest2 = some (argv, rest3))
    (hcwd : takeString kMaxOpenCwdBytes rest3 = some (cwd, []))
    (hvalid : validateOpenRequest ⟨argv, cwd⟩ = .ok ()) :
    decodeOpen payload = .ok ⟨argv, cwd⟩ := by
  have hle : ¬ argc.toNat > kMaxOpenArgc := Nat.not_lt_of_le hbound
  simp [decodeOpen, hversion, hargc, hle, hargv, hcwd, hvalid]

/-- An OPEN payload is read back as the request it was written from. -/
theorem decodeOpen_encode {request : OpenRequest} (h : validateOpenRequest request = .ok ()) :
    decodeOpen (encodeOpen request) = .ok request := by
  obtain ⟨hargc, hargs, hcwd⟩ := validateOpenRequest_ok h
  have hlen : (UInt32.ofNat request.argv.length).toNat = request.argv.length := by
    rw [UInt32.toNat_ofNat']
    refine Nat.mod_eq_of_lt (Nat.lt_of_le_of_lt hargc ?_)
    decide
  have hargv := takeArguments_write hargs (writeString request.cwd)
  rw [← hlen] at hargv hargc
  have hstring := takeString_write hcwd (by decide) []
  rw [List.append_nil] at hstring
  have hversion : takeU8 (encodeOpen request) = some (kOpenVersion,
      writeU32BE (UInt32.ofNat request.argv.length) ++
        (request.argv.flatMap writeString ++ writeString request.cwd)) := by
    rw [← List.append_assoc]
    rfl
  exact decodeOpen_run hversion (takeU32_write ..) hargc hargv hstring h

theorem decodeOpen_valid {payload : Bytes} {request : OpenRequest}
    (h : decodeOpen payload = .ok request) : validateOpenRequest request = .ok () := by
  unfold decodeOpen at h
  split at h
  · cases h
  split_ifs at h
  split at h
  · cases h
  split_ifs at h
  split at h
  · cases h
  split at h
  · cases h
  split_ifs at h
  split at h
  · cases h
  · rename_i hvalid
    cases h
    exact hvalid

/-! Every accepted payload is the one that the encoder writes. -/

theorem takeU32_some {bytes rest : Bytes} {value : UInt32}
    (h : takeU32 bytes = some (value, rest)) :
    bytes = writeU32BE value ++ rest := by
  unfold takeU32 at h
  split at h
  · obtain ⟨rfl, rfl⟩ := Prod.mk.inj (Option.some.inj h)
    rw [write_read]
    rfl
  · cases h

theorem takeString_some {maxLength : Nat} {bytes text rest : Bytes}
    (h : takeString maxLength bytes = some (text, rest)) : bytes = writeString text ++ rest := by
  unfold takeString at h
  split at h
  · cases h
  · rename_i len tail hlen
    by_cases hbad : len.toNat > maxLength ∨ tail.length < len.toNat
    · rw [if_pos hbad] at h
      cases h
    · rw [if_neg hbad] at h
      obtain ⟨rfl, rfl⟩ := Prod.mk.inj (Option.some.inj h)
      have hlength : (tail.take len.toNat).length = len.toNat := by
        rw [List.length_take]
        omega
      rw [takeU32_some hlen, writeString, hlength, UInt32.ofNat_toNat, List.append_assoc,
        List.take_append_drop]

theorem takeArguments_some {argc : Nat} {bytes rest : Bytes} {argv : List Bytes}
    (h : takeArguments argc bytes = some (argv, rest)) :
    argv.length = argc ∧ bytes = argv.flatMap writeString ++ rest := by
  induction argc generalizing bytes argv with
  | zero =>
    obtain ⟨rfl, rfl⟩ := Prod.mk.inj (Option.some.inj h)
    exact ⟨rfl, rfl⟩
  | succ argc ih =>
    unfold takeArguments at h
    split at h
    · cases h
    · rename_i argument tail hargument
      split at h
      · cases h
      · rename_i later left hlater
        obtain ⟨rfl, rfl⟩ := Prod.mk.inj (Option.some.inj h)
        obtain ⟨hlength, htail⟩ := ih hlater
        refine ⟨by rw [List.length_cons, hlength], ?_⟩
        rw [takeString_some hargument, htail, List.flatMap_cons, List.append_assoc]

theorem takeU8_some {bytes rest : Bytes} {byte : UInt8} (h : takeU8 bytes = some (byte, rest)) :
    bytes = byte :: rest := by
  cases bytes with
  | nil => cases h
  | cons first bytes =>
    obtain ⟨rfl, rfl⟩ := Prod.mk.inj (Option.some.inj h)
    rfl

theorem decodeOpen_canonical {payload : Bytes} {request : OpenRequest}
    (h : decodeOpen payload = .ok request) : payload = encodeOpen request := by
  unfold decodeOpen at h
  split at h
  · cases h
  rename_i version rest₁ hversion
  by_cases hother : version ≠ kOpenVersion
  · rw [if_pos hother] at h
    cases h
  rw [if_neg hother] at h
  split at h
  · cases h
  rename_i argc rest₂ hargc
  by_cases hmany : argc.toNat > kMaxOpenArgc
  · rw [if_pos hmany] at h
    cases h
  rw [if_neg hmany] at h
  split at h
  · cases h
  rename_i argv rest₃ hargv
  split at h
  · cases h
  rename_i cwd rest₄ hcwd
  by_cases htrailing : rest₄ ≠ []
  · rw [if_pos htrailing] at h
    cases h
  rw [if_neg htrailing] at h
  split at h
  · cases h
  obtain rfl := Except.ok.inj h
  obtain ⟨hlength, hrest₂⟩ := takeArguments_some hargv
  rw [takeU8_some hversion, takeU32_some hargc, hrest₂, takeString_some hcwd]
  simp only [not_not] at hother htrailing
  rw [hother, htrailing, encodeOpen, hlength, UInt32.ofNat_toNat, List.append_nil,
    List.append_assoc]

/-- The codec of OPEN payloads is a bijection between the valid requests and the payloads that are
accepted. -/
theorem open_payloads_are_canonical :
    (∀ request, validateOpenRequest request = .ok () →
      decodeOpen (encodeOpen request) = .ok request) ∧
      ∀ payload request, decodeOpen payload = .ok request ↔
        validateOpenRequest request = .ok () ∧ payload = encodeOpen request := by
  refine ⟨fun _ => decodeOpen_encode, fun payload request => ⟨fun h => ?_, fun h => ?_⟩⟩
  · exact ⟨decodeOpen_valid h, decodeOpen_canonical h⟩
  · rw [h.2]
    exact decodeOpen_encode h.1

theorem flatMap_writeString_length {argv : List Bytes} {bound : Nat}
    (h : ∀ argument ∈ argv, argument.length ≤ bound) :
    (argv.flatMap writeString).length ≤ argv.length * (4 + bound) := by
  induction argv with
  | nil => simp
  | cons argument argv ih =>
    have h1 := h argument (by simp)
    have h2 := ih fun a ha => h a (by simp [ha])
    simp only [List.flatMap_cons, List.length_append, List.length_cons, writeString,
      writeU32BE_length, Nat.succ_mul]
    omega

/-- The length field of an OPEN frame holds the payload of any valid request. -/
theorem encodeOpen_fits {request : OpenRequest} (h : validateOpenRequest request = .ok ()) :
    (encodeOpen request).length < UInt32.size := by
  obtain ⟨hargc, hargs, hcwd⟩ := validateOpenRequest_ok h
  have h1 := flatMap_writeString_length hargs
  have h2 : request.argv.length * (4 + kMaxOpenArgumentBytes) ≤
      kMaxOpenArgc * (4 + kMaxOpenArgumentBytes) := Nat.mul_le_mul_right _ hargc
  simp only [kMaxOpenArgc, kMaxOpenArgumentBytes, kMaxOpenCwdBytes] at h1 h2 hcwd
  simp only [encodeOpen, List.length_cons, List.length_append, writeU32BE_length, writeString,
    UInt32.size]
  omega

end psx.transport
