-- `pipeshellx ca revoke` (ca_command.cpp): a serial is put on the list of the CA, and the CRL is
-- made of the whole list. What OpenSSL answers, and how a write ends, is an input.
import PipeShellX.Hex
import PipeShellX.Result
import PipeShellX.Scan

namespace psx.cli.ca

open Text (ascii)

def newline : UInt8 := 10

/-- The value of a flag. `args` starts behind the action. -/
def flag (name : Bytes) : List Bytes → Option Bytes
  | option :: value :: rest => if option = name then some value else flag name (value :: rest)
  | _ => none

/-! ## Serials -/

/-- A hexadecimal digit in upper case. -/
def canonicalDigit (character : UInt8) : Option UInt8 :=
  if 48 ≤ character ∧ character ≤ 57 then some character
  else if 65 ≤ character ∧ character ≤ 70 then some character
  else if 97 ≤ character ∧ character ≤ 102 then some (character - 97 + 65)
  else none

/-- A serial in upper case and without leading zeros, if it is all hexadecimal digits. -/
def canonicalSerialHex (value : Bytes) : Option Bytes :=
  if value.isEmpty then none
  else (value.mapM canonicalDigit).map fun canonical =>
    let significant := canonical.dropWhile (· == 48)
    if significant.isEmpty then [48] else significant

/-- A serial that is not on the list yet goes to its end. -/
def pushNew (serials : List Bytes) (serial : Bytes) : List Bytes :=
  if serial ∈ serials then serials else serials ++ [serial]

/-- A line without what is popped off its end. -/
def popped (line : Bytes) : Bytes := line.rdropWhile fun c => c = 13 || c = 32

/-- One line of the list: a blank one adds nothing, and one that is no serial makes the list
unreadable. -/
def readLine (serials : List Bytes) (line : Bytes) : Option (List Bytes) :=
  if (popped line).isEmpty then some serials
  else (canonicalSerialHex (popped line)).map (pushNew serials)

/-- The serials of `revoked.txt`, if it is there, and none if a line is no serial. -/
def readSerials : Option Bytes → Option (List Bytes)
  | none => some []
  | some existing => (Text.getlines newline existing).foldlM readLine []

/-- The list as it is written, a serial on each line. -/
def revText (serials : List Bytes) : Bytes := serials.flatMap fun s => s ++ [newline]

/-! ## Files -/

/-- The files of the CA directory. -/
structure CaFiles where
  key : Option Bytes
  cert : Option Bytes
  revoked : Option Bytes
  crl : Option Bytes
  deriving DecidableEq

/-- How a write ends: the file cannot be opened, or it is cut off and `left` stays of it. -/
inductive Write
  | refused
  | failed (left : Bytes)
  | written

/-- A path as it is written to a stream: in quotes, with escapes. -/
def quoted (path : Bytes) : Bytes :=
  34 :: path.flatMap (fun c => if c = 34 ∨ c = 92 then [92, c] else [c]) ++ [34]

/-- What the file holds afterwards, and the text of the error. -/
def writeFile (write : Write) (path content : Bytes) (old : Option Bytes) :
    Option Bytes × Except Bytes Unit :=
  match write with
  | .refused => (old, .error (ascii "pipeshellx ca: cannot write " ++ quoted path ++ [newline]))
  | .failed left =>
    (some left, .error (ascii "pipeshellx ca: failed writing " ++ quoted path ++ [newline]))
  | .written => (some content, .ok ())

/-- A file in a directory. -/
def child (dir name : Bytes) : Bytes :=
  if dir = [] ∨ dir.getLast? = some 47 then dir ++ name else dir ++ 47 :: name

/-! ## The command -/

/-- What OpenSSL makes of a key and a certificate, and the serial of a certificate. -/
structure Openssl (Ca : Type) where
  load : Bytes → Bytes → Except Bytes Ca
  serialHex : Bytes → Except Bytes Bytes

/-- A call, with the files that are read, the CRL that is issued at its time and how its writes
end. -/
structure RevokeCall (Ca : Type) where
  args : List Bytes
  slurp : Bytes → Option Bytes
  issueCrl : Ca → List Bytes → Except Bytes Bytes
  writeRevoked : Write := .written
  writeCrl : Write := .written

/-- The line that the command writes when it fails. -/
def complaint (what : Bytes) : Bytes := ascii "pipeshellx ca revoke: " ++ what ++ [newline]

/-- A value that has to be there, or the complaint about it. -/
def orComplain {α : Type} (value : Option α) (what : Bytes) : Except Bytes α :=
  match value with
  | some a => .ok a
  | none => .error (complaint what)

/-- What to revoke. -/
inductive Target
  | serial (serialArg : Bytes)
  | cert (certPath : Bytes)

/-- The directory of the CA and what to revoke: a serial or a certificate, but not both. -/
def target (args : List Bytes) : Option (Bytes × Target) :=
  match flag (ascii "--ca") args, flag (ascii "--cert") args, flag (ascii "--serial") args with
  | some caDir, none, some serialArg => some (caDir, .serial serialArg)
  | some caDir, some certPath, none => some (caDir, .cert certPath)
  | _, _, _ => none

variable {Ca : Type} (openssl : Openssl Ca)

/-- The CA of a directory, from its key and its certificate. -/
def loadCa (files : CaFiles) (caDir : Bytes) : Except Bytes Ca :=
  match files.key, files.cert with
  | some caKey, some caCert => (openssl.load caKey caCert).mapError complaint
  | _, _ => .error (complaint (ascii "cannot read the CA in " ++ caDir))

/-- The canonical serial of a certificate file. -/
def certSerial (call : RevokeCall Ca) (certPath : Bytes) : Except Bytes Bytes := do
  let certPem ← orComplain (call.slurp certPath) (ascii "cannot read --cert " ++ certPath)
  let s ← (openssl.serialHex certPem).mapError complaint
  orComplain (canonicalSerialHex s) (ascii "certificate returned an invalid serial")

/-- The CA and the serial. A serial of the arguments is checked before the CA is read. -/
def caAndSerial (files : CaFiles) (call : RevokeCall Ca) (caDir : Bytes) :
    Target → Except Bytes (Ca × Bytes)
  | .serial serialArg => do
    let serial ← orComplain (canonicalSerialHex serialArg)
      (ascii "--serial must be non-empty hexadecimal")
    let ca ← loadCa openssl files caDir
    return (ca, serial)
  | .cert certPath => do
    let ca ← loadCa openssl files caDir
    let serial ← certSerial openssl call certPath
    return (ca, serial)

/-- What is about to be written. -/
structure Revocation where
  caDir : Bytes
  serial : Bytes
  serials : List Bytes
  crl : Bytes
  deriving DecidableEq

/-- All of the call that is done before the first write. -/
def prepare (files : CaFiles) (call : RevokeCall Ca) : Except Bytes Revocation := do
  let (caDir, target) ← orComplain (target call.args)
    (ascii "--ca DIR and exactly one of --cert or --serial are required")
  let (ca, serial) ← caAndSerial openssl files call caDir target
  let existing ← orComplain (readSerials files.revoked)
    (ascii "revoked.txt contains a non-hexadecimal serial")
  let serials := pushNew existing serial
  let crl ← (call.issueCrl ca serials).mapError complaint
  return { caDir, serial, serials, crl }

/-- The files after the call, and what it writes: to `out` and it returns 0, or to `err` and 2. -/
def caRevoke (files : CaFiles) (call : RevokeCall Ca) : CaFiles × Except Bytes Bytes :=
  match prepare openssl files call with
  | .error what => (files, .error what)
  | .ok r =>
    let first :=
      writeFile call.writeRevoked (child r.caDir (ascii "revoked.txt")) (revText r.serials)
      files.revoked
    match first.2 with
    | .error what => ({ files with revoked := first.1 }, .error what)
    | .ok () =>
      let second := writeFile call.writeCrl (child r.caDir (ascii "crl.pem")) r.crl files.crl
      let files := { files with revoked := first.1, crl := second.1 }
      match second.2 with
      | .error what => (files, .error what)
      | .ok () =>
        (files, .ok (ascii "revoked " ++ r.serial ++ ascii "; CRL now lists " ++
          Decimal.natural r.serials.length ++ ascii ": " ++ child r.caDir (ascii "crl.pem") ++
            [newline]))

/-- The files after a call that returns 0. -/
def revokes (files : CaFiles) (call : RevokeCall Ca) : Option CaFiles :=
  match caRevoke openssl files call with
  | (files, .ok _) => some files
  | (_, .error _) => none

/-- The files after calls that all return 0. -/
def revokesAll (files : CaFiles) (calls : List (RevokeCall Ca)) : Option CaFiles :=
  calls.foldlM (revokes openssl) files

end psx.cli.ca
