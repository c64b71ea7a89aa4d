-- The list of revoked serials over any calls: a serial that is on it stays, and the file that a
-- call writes is the list that the next one reads. The canonical serial is the shortest spelling of
-- its number.
import PipeShellX.Cli.CaCommand

namespace psx.cli.ca

open Json (hexDigit)
open Text (ascii)
open Hex (number shortest symbol)

/-! ## Spellings -/

theorem canonicalDigit_eq (c : UInt8) : canonicalDigit c = (hexDigit c).map symbol := by
  unfold canonicalDigit hexDigit
  simp only [UInt8.le_iff_toNat_le]
  split_ifs with hten hupper hlower
  · have hvalue : symbol (c.toNat - 48) = c := by
      simp only [UInt8.reduceToNat] at hten
      unfold symbol
      rw [if_pos (by omega), show 48 + (c.toNat - 48) = c.toNat by omega, UInt8.ofNat_toNat]
    rw [Option.map_some, hvalue]
  · have hvalue : symbol (c.toNat - 55) = c := by
      simp only [UInt8.reduceToNat] at hupper
      unfold symbol
      rw [if_neg (by omega), show 55 + (c.toNat - 55) = c.toNat by omega, UInt8.ofNat_toNat]
    rw [Option.map_some, hvalue]
  · have hvalue : symbol (c.toNat - 87) = c - 97 + 65 := by
      simp only [UInt8.reduceToNat] at hlower
      unfold symbol
      rw [if_neg (by omega), ← UInt8.toNat_inj, UInt8.toNat_ofNat', UInt8.toNat_add,
        UInt8.toNat_sub]
      simp only [UInt8.reduceToNat]
      omega
    rw [Option.map_some, hvalue]
  · rfl

theorem mapM_canonicalDigit (value : Bytes) :
    value.mapM canonicalDigit = (value.mapM hexDigit).map (List.map symbol) := by
  induction value with
  | nil => rfl
  | cons c value ih =>
    rw [List.mapM_cons, List.mapM_cons, canonicalDigit_eq, ih]
    cases hexDigit c with
    | none => rfl
    | some d => cases value.mapM hexDigit with
      | none => rfl
      | some digits => rfl

theorem hexDigits_lt {value : Bytes} {digits : List ℕ} (h : value.mapM hexDigit = some digits) :
    ∀ d ∈ digits, d < 16 := by
  induction value generalizing digits with
  | nil =>
    cases h
    exact nofun
  | cons c value ih =>
    rw [List.mapM_cons] at h
    obtain ⟨d, hd, h⟩ := Option.bind_eq_some_iff.mp h
    obtain ⟨rest, hrest, h⟩ := Option.bind_eq_some_iff.mp h
    cases h
    exact List.forall_mem_cons.mpr ⟨Hex.hexDigit_lt hd, ih hrest⟩

/-- The canonical serial is the shortest spelling of the number. -/
theorem canonicalSerialHex_eq (value : Bytes) :
    canonicalSerialHex value = (number value).map shortest := by
  unfold canonicalSerialHex number
  split_ifs with hempty
  · rfl
  · rw [mapM_canonicalDigit, Option.map_map, Option.map_map]
    cases hdigits : value.mapM hexDigit with
    | none => rfl
    | some digits =>
      have hlt := hexDigits_lt hdigits
      have hdrop : (digits.map symbol).dropWhile (· == 48) =
          (digits.dropWhile fun d => d = 0).map symbol := by
        clear hdigits
        induction digits with
        | nil => rfl
        | cons d digits ih =>
          rw [List.forall_mem_cons] at hlt
          have hzero := Hex.symbol_eq_zero hlt.1
          by_cases hd : d = 0
          · rw [List.map_cons, List.dropWhile_cons_of_pos (by simpa using hzero.mpr hd),
              List.dropWhile_cons_of_pos (by simpa using hd), ih hlt.2]
          · rw [List.map_cons, List.dropWhile_cons_of_neg (by simpa using mt hzero.mp hd),
              List.dropWhile_cons_of_neg (by simpa using hd), List.map_cons]
      simp only [Option.map_some, Function.comp_apply, hdrop]
      rw [← Hex.value_dropWhile]
      congr 1
      by_cases hnone : digits.dropWhile (fun d => d = 0) = []
      · rw [hnone]
        rfl
      · rw [if_neg (by simpa using hnone), Hex.shortest_value _ hnone]
        · have hhead := List.head_dropWhile_not (fun d : ℕ => d = 0) hnone
          simpa using hhead
        · exact fun d hd => hlt d ((List.dropWhile_suffix _).subset hd)

/-- A serial in its canonical spelling. -/
def IsCanonical (serial : Bytes) : Prop := ∃ n, serial = shortest n

theorem isCanonical_of {value serial : Bytes} (h : canonicalSerialHex value = some serial) :
    IsCanonical serial := by
  rw [canonicalSerialHex_eq] at h
  obtain ⟨n, -, rfl⟩ := Option.map_eq_some_iff.mp h
  exact ⟨n, rfl⟩

theorem canonical_self {serial : Bytes} (h : IsCanonical serial) :
    canonicalSerialHex serial = some serial := by
  obtain ⟨n, rfl⟩ := h
  rw [canonicalSerialHex_eq, Hex.number_shortest]
  rfl

theorem canonical_of_number {value : Bytes} {n : ℕ} (h : number value = some n) :
    canonicalSerialHex value = some (shortest n) := by
  rw [canonicalSerialHex_eq, h]
  rfl

theorem isCanonical_digit {serial : Bytes} (h : IsCanonical serial) :
    ∀ c ∈ serial, ∃ d < 16, c = symbol d := by
  obtain ⟨n, rfl⟩ := h
  unfold shortest
  split_ifs
  · exact List.forall_mem_singleton.mpr ⟨0, by decide, rfl⟩
  · intro c hc
    obtain ⟨d, hd, rfl⟩ := List.mem_map.mp hc
    exact ⟨d, Nat.digits_lt_base (by decide) (List.mem_reverse.mp hd), rfl⟩

theorem symbol_plain : ∀ d < 16, symbol d ≠ newline ∧ ¬ (symbol d = 13 ∨ symbol d = 32) := by
  decide

theorem isCanonical_newline {serial : Bytes} (h : IsCanonical serial) : newline ∉ serial := by
  intro hin
  obtain ⟨d, hd, heq⟩ := isCanonical_digit h newline hin
  exact (symbol_plain d hd).1 heq.symm

theorem isCanonical_ne_nil {serial : Bytes} (h : IsCanonical serial) : serial ≠ [] := by
  rintro rfl
  cases canonical_self h

theorem popped_self {serial : Bytes} (h : IsCanonical serial) : popped serial = serial := by
  have hne := isCanonical_ne_nil h
  unfold popped
  rw [List.rdropWhile_eq_self_iff]
  intro _
  obtain ⟨d, hd, heq⟩ := isCanonical_digit h _ (List.getLast_mem hne)
  rw [heq]
  simpa using (symbol_plain d hd).2

/-! ## The list -/

theorem mem_pushNew {serials : List Bytes} {serial s : Bytes} :
    s ∈ pushNew serials serial ↔ s ∈ serials ∨ s = serial := by
  unfold pushNew
  split_ifs with hin
  · constructor
    · exact Or.inl
    · rintro (hs | rfl)
      · exact hs
      · exact hin
  · rw [List.mem_append, List.mem_singleton]

theorem nodup_pushNew {serials : List Bytes} (h : serials.Nodup) (serial : Bytes) :
    (pushNew serials serial).Nodup := by
  unfold pushNew
  split_ifs with hin
  · exact h
  · refine List.nodup_append.mpr ⟨h, List.nodup_singleton _, fun s hs s' hs' heq => ?_⟩
    rw [List.mem_singleton] at hs'
    exact hin (hs' ▸ heq ▸ hs)

theorem pushNew_of_mem {serials : List Bytes} {serial : Bytes} (h : serial ∈ serials) :
    pushNew serials serial = serials := if_pos h

/-- The serials of a list that was read, or written. -/
structure IsSerials (serials : List Bytes) : Prop where
  canonical : ∀ s ∈ serials, IsCanonical s
  nodup : serials.Nodup

theorem IsSerials.pushNew {serials : List Bytes} (h : IsSerials serials) {serial : Bytes}
    (hserial : IsCanonical serial) : IsSerials (pushNew serials serial) where
  canonical s hs := by
    rcases mem_pushNew.mp hs with hold | rfl
    · exact h.canonical s hold
    · exact hserial
  nodup := nodup_pushNew h.nodup serial

/-- The canonical serials of the lines of a file. -/
def InFile (revoked : Option Bytes) (serial : Bytes) : Prop :=
  ∃ existing, revoked = some existing ∧
    ∃ line ∈ Text.getlines newline existing, canonicalSerialHex (popped line) = some serial

theorem readLine_spec {serials serials' : List Bytes} {line : Bytes} (hserials : IsSerials serials)
    (h : readLine serials line = some serials') : IsSerials serials' ∧
      ∀ s, s ∈ serials' ↔ s ∈ serials ∨ canonicalSerialHex (popped line) = some s := by
  unfold readLine at h
  split_ifs at h with hempty
  · obtain rfl := Option.some.inj h
    refine ⟨hserials, fun s => ?_⟩
    rw [List.isEmpty_iff.mp hempty]
    simp [canonicalSerialHex]
  · obtain ⟨serial, hserial, rfl⟩ := Option.map_eq_some_iff.mp h
    refine ⟨hserials.pushNew (isCanonical_of hserial), fun s => ?_⟩
    rw [mem_pushNew, hserial, Option.some.injEq, eq_comm (a := s)]

theorem readLines_spec {lines : List Bytes} {serials serials' : List Bytes}
    (hserials : IsSerials serials) (h : lines.foldlM readLine serials = some serials') :
    IsSerials serials' ∧
      ∀ s, s ∈ serials' ↔ s ∈ serials ∨ ∃ line ∈ lines,
        canonicalSerialHex (popped line) = some s := by
  induction lines generalizing serials with
  | nil =>
    obtain rfl := Option.some.inj h
    exact ⟨hserials, by simp⟩
  | cons line lines ih =>
    rw [List.foldlM_cons] at h
    obtain ⟨next, hnext, h⟩ := Option.bind_eq_some_iff.mp h
    obtain ⟨hone, hmem⟩ := readLine_spec hserials hnext
    obtain ⟨hall, hmem'⟩ := ih hone h
    refine ⟨hall, fun s => ?_⟩
    rw [hmem', hmem, List.exists_mem_cons_iff, or_assoc]

theorem isSerials_nil : IsSerials [] := ⟨nofun, List.nodup_nil⟩

theorem readSerials_spec {revoked : Option Bytes} {serials : List Bytes}
    (h : readSerials revoked = some serials) :
    IsSerials serials ∧ ∀ s, s ∈ serials ↔ InFile revoked s := by
  cases revoked with
  | none =>
    obtain rfl := Option.some.inj h
    exact ⟨isSerials_nil, fun s => by simp [InFile]⟩
  | some existing =>
    obtain ⟨hserials, hmem⟩ := readLines_spec isSerials_nil h
    refine ⟨hserials, fun s => ?_⟩
    rw [hmem]
    simp [InFile]

/-- A list that is written is the list that is read. -/
theorem readSerials_revText {serials : List Bytes} (h : IsSerials serials) :
    readSerials (some (revText serials)) = some serials := by
  have hlines : Text.getlines newline (revText serials) = serials := by
    have hone : ∀ s ∈ serials, newline ∉ s := fun s hs => isCanonical_newline (h.canonical s hs)
    clear h
    induction serials with
    | nil => rfl
    | cons s serials ih =>
      rw [List.forall_mem_cons] at hone
      unfold revText at ih ⊢
      rw [List.flatMap_cons, List.append_assoc, List.singleton_append,
        Text.getlines_first hone.1, ih hone.2]
  change (Text.getlines newline (revText serials)).foldlM readLine [] = some serials
  rw [hlines]
  -- what is read so far, and the rest of the list
  have hrest : ∀ (front back : List Bytes), IsSerials (front ++ back) →
      back.foldlM readLine front = some (front ++ back) := by
    intro front back hall
    induction back generalizing front with
    | nil => rw [List.append_nil]; rfl
    | cons s back ih =>
      have hs : IsCanonical s := hall.canonical s (by simp)
      have hnew : s ∉ front := fun hin =>
        (List.nodup_append.mp hall.nodup).2.2 s hin s List.mem_cons_self rfl
      have hline : readLine front s = some (front ++ [s]) := by
        unfold readLine
        rw [popped_self hs, if_neg (by simpa using isCanonical_ne_nil hs), canonical_self hs]
        exact congrArg some (if_neg hnew)
      rw [List.append_cons] at hall ⊢
      rw [List.foldlM_cons, hline]
      exact ih _ hall
  exact hrest [] serials h

/-! ## The calls -/

section

variable {Ca : Type} (openssl : Openssl Ca)

/-- The serial of a call as it is spelled: in the arguments, or of the certificate. -/
def spelled (call : RevokeCall Ca) : Option Bytes :=
  match target call.args with
  | some (_, .serial serialArg) => some serialArg
  | some (_, .cert certPath) =>
    (call.slurp certPath).bind fun certPem => (openssl.serialHex certPem).toOption
  | none => none

/-- The canonical serial that a call revokes. -/
def revokedSerial (call : RevokeCall Ca) : Option Bytes :=
  (spelled openssl call).bind canonicalSerialHex

/-- The CRL is what the CA issues for the list. -/
def Built (files : CaFiles) (call : RevokeCall Ca) (serials : List Bytes)
    (crl : Option Bytes) : Prop :=
  ∃ caKey caCert ca pem, files.key = some caKey ∧ files.cert = some caCert ∧
    openssl.load caKey caCert = .ok ca ∧ call.issueCrl ca serials = .ok pem ∧ crl = some pem

variable {openssl} {files files' : CaFiles} {call : RevokeCall Ca}

theorem mapError_ok {α : Type} {x : Except Bytes α} {f : Bytes → Bytes} {a : α} :
    x.mapError f = .ok a ↔ x = .ok a := by
  cases x with
  | error what => exact iff_of_false nofun nofun
  | ok b => exact Iff.rfl

theorem orComplain_ok {α : Type} {value : Option α} {what : Bytes} {a : α} :
    orComplain value what = .ok a ↔ value = some a := by
  cases value with
  | none => exact iff_of_false nofun nofun
  | some b =>
    exact ⟨fun h => congrArg some (Except.ok.inj h),
      fun h => congrArg Except.ok (Option.some.inj h)⟩

theorem loadCa_ok {caDir : Bytes} {ca : Ca} (h : loadCa openssl files caDir = .ok ca) :
    ∃ caKey caCert, files.key = some caKey ∧ files.cert = some caCert ∧
      openssl.load caKey caCert = .ok ca := by
  unfold loadCa at h
  split at h
  · rename_i caKey caCert hkey hcert
    exact ⟨caKey, caCert, hkey, hcert, mapError_ok.mp h⟩
  · cases h

theorem caAndSerial_ok {caDir : Bytes} {what : Target} {ca : Ca} {serial : Bytes}
    (htarget : target call.args = some (caDir, what))
    (h : caAndSerial openssl files call caDir what = .ok (ca, serial)) :
    loadCa openssl files caDir = .ok ca ∧ revokedSerial openssl call = some serial := by
  unfold revokedSerial spelled
  rw [htarget]
  cases what with
  | serial serialArg =>
    obtain ⟨canonical, hcanonical, h⟩ := bind_ok.mp h
    obtain ⟨loaded, hloaded, h⟩ := bind_ok.mp h
    cases pure_ok.mp h
    exact ⟨hloaded, orComplain_ok.mp hcanonical⟩
  | cert certPath =>
    obtain ⟨loaded, hloaded, h⟩ := bind_ok.mp h
    obtain ⟨canonical, hcanonical, h⟩ := bind_ok.mp h
    cases pure_ok.mp h
    obtain ⟨certPem, hpem, hcanonical⟩ := bind_ok.mp hcanonical
    obtain ⟨s, hs, hcanonical⟩ := bind_ok.mp hcanonical
    refine ⟨hloaded, ?_⟩
    dsimp only
    rw [orComplain_ok.mp hpem, Option.bind_some, mapError_ok.mp hs]
    exact orComplain_ok.mp hcanonical

/-- What is prepared: the list of the file with the serial of the call. -/
theorem prepare_ok {r : Revocation} (h : prepare openssl files call = .ok r) :
    ∃ existing, readSerials files.revoked = some existing ∧
      revokedSerial openssl call = some r.serial ∧ r.serials = pushNew existing r.serial ∧
      Built openssl files call r.serials (some r.crl) := by
  obtain ⟨⟨caDir, what⟩, htarget, h⟩ := bind_ok.mp h
  obtain ⟨⟨ca, serial⟩, hserial, h⟩ := bind_ok.mp h
  obtain ⟨existing, hexisting, h⟩ := bind_ok.mp h
  obtain ⟨crl, hcrl, h⟩ := bind_ok.mp h
  obtain rfl := pure_ok.mp h
  obtain ⟨hloaded, hrevoked⟩ := caAndSerial_ok (orComplain_ok.mp htarget) hserial
  obtain ⟨caKey, caCert, hkey, hcert, hload⟩ := loadCa_ok hloaded
  exact ⟨existing, orComplain_ok.mp hexisting, hrevoked, rfl, caKey, caCert, ca, crl, hkey, hcert,
    hload, mapError_ok.mp hcrl, rfl⟩

theorem writeFile_ok {write : Write} {path content : Bytes} {old : Option Bytes}
    (h : (writeFile write path content old).2 = .ok ()) :
    (writeFile write path content old).1 = some content := by
  cases write with
  | refused => cases h
  | failed left => cases h
  | written => rfl

/-- A call that returns 0. -/
theorem revokes_spec (h : revokes openssl files call = some files') :
    ∃ existing serial, readSerials files.revoked = some existing ∧
      revokedSerial openssl call = some serial ∧
      files'.revoked = some (revText (pushNew existing serial)) ∧
      Built openssl files call (pushNew existing serial) files'.crl ∧
      files'.key = files.key ∧ files'.cert = files.cert := by
  unfold revokes caRevoke at h
  cases hprepare : prepare openssl files call with
  | error what =>
    rw [hprepare] at h
    cases h
  | ok r =>
    rw [hprepare] at h
    dsimp only at h
    obtain ⟨existing, hexisting, hserial, hserials, hbuilt⟩ := prepare_ok hprepare
    rw [hserials] at h hbuilt
    cases hfirst : (writeFile call.writeRevoked (child r.caDir (ascii "revoked.txt"))
        (revText (pushNew existing r.serial)) files.revoked).2 with
    | error what =>
      rw [hfirst] at h
      cases h
    | ok _ =>
      rw [hfirst] at h
      dsimp only at h
      cases hsecond : (writeFile call.writeCrl (child r.caDir (ascii "crl.pem")) r.crl
          files.crl).2 with
      | error what =>
        rw [hsecond] at h
        cases h
      | ok _ =>
        rw [hsecond] at h
        obtain rfl := Option.some.inj h
        dsimp only
        rw [writeFile_ok hfirst, writeFile_ok hsecond]
        exact ⟨existing, r.serial, hexisting, hserial, rfl, hbuilt, rfl, rfl⟩

/-- What the calls so far leave. -/
structure Holds (openssl : Openssl Ca) (initial : List Bytes) (files : CaFiles)
    (calls : List (RevokeCall Ca)) (files' : CaFiles) (serials : List Bytes) : Prop where
  read : readSerials files'.revoked = some serials
  isSerials : IsSerials serials
  mem : ∀ s, s ∈ serials ↔ s ∈ initial ∨ ∃ call ∈ calls, revokedSerial openssl call = some s
  written : calls ≠ [] → files'.revoked = some (revText serials)
  key : files'.key = files.key
  cert : files'.cert = files.cert

/-- One more call. -/
theorem Holds.revokes {initial serials : List Bytes} {calls : List (RevokeCall Ca)} {next : CaFiles}
    (h : Holds openssl initial files calls files' serials)
    (hcall : revokes openssl files' call = some next) :
    ∃ serial, revokedSerial openssl call = some serial ∧
      Built openssl files call (pushNew serials serial) next.crl ∧
      Holds openssl initial files (calls ++ [call]) next (pushNew serials serial) := by
  obtain ⟨existing, serial, hread, hserial, hrevoked, hbuilt, hkey, hcert⟩ := revokes_spec hcall
  obtain rfl := Option.some.inj (h.read.symm.trans hread)
  have hcanonical : IsCanonical serial := by
    obtain ⟨text, -, htext⟩ := Option.bind_eq_some_iff.mp hserial
    exact isCanonical_of htext
  have hserials := h.isSerials.pushNew hcanonical
  refine ⟨serial, hserial, ?_, ?_⟩
  · unfold Built at hbuilt ⊢
    rwa [h.key, h.cert] at hbuilt
  · refine ⟨?_, hserials, fun s => ?_, fun _ => hrevoked, hkey.trans h.key, hcert.trans h.cert⟩
    · rw [hrevoked]
      exact readSerials_revText hserials
    · rw [mem_pushNew, h.mem, or_assoc]
      refine or_congr_right ?_
      constructor
      · rintro (⟨c, hc, hs⟩ | rfl)
        · exact ⟨c, List.mem_append_left _ hc, hs⟩
        · exact ⟨call, List.mem_append_right _ (List.mem_singleton_self call), hserial⟩
      · rintro ⟨c, hc, hs⟩
        rcases List.mem_append.mp hc with hold | hnew
        · exact Or.inl ⟨c, hold, hs⟩
        · rw [List.mem_singleton.mp hnew, hserial] at hs
          exact Or.inr (Option.some.inj hs).symm

theorem holds_nil {initial : List Bytes} (h : readSerials files.revoked = some initial) :
    Holds openssl initial files [] files initial where
  read := h
  isSerials := (readSerials_spec h).1
  mem s := by simp
  written hne := absurd rfl hne
  key := rfl
  cert := rfl

/-- All the calls. -/
theorem holds_all {initial : List Bytes} {calls : List (RevokeCall Ca)}
    (hread : readSerials files.revoked = some initial)
    (h : revokesAll openssl files calls = some files') :
    ∃ serials, Holds openssl initial files calls files' serials := by
  induction calls using List.reverseRecOn generalizing files' with
  | nil =>
    obtain rfl := Option.some.inj h
    exact ⟨initial, holds_nil hread⟩
  | append_singleton calls call ih =>
    unfold revokesAll at h
    rw [List.foldlM_append] at h
    obtain ⟨middle, hmiddle, h⟩ := Option.bind_eq_some_iff.mp h
    rw [List.foldlM_cons] at h
    obtain ⟨last, hlast, h⟩ := Option.bind_eq_some_iff.mp h
    obtain rfl := Option.some.inj h
    obtain ⟨serials, hserials⟩ := ih hmiddle
    obtain ⟨serial, -, -, hnext⟩ := hserials.revokes hlast
    exact ⟨_, hnext⟩

/-- The number of an earlier call, or of a line of the first file. -/
def Earlier (openssl : Openssl Ca) (files : CaFiles) (calls : List (RevokeCall Ca))
    (n : ℕ) : Prop :=
  (∃ call ∈ calls, (spelled openssl call).bind number = some n) ∨
    ∃ existing, files.revoked = some existing ∧
      ∃ line ∈ Text.getlines newline existing, number (popped line) = some n

theorem Holds.earlier {initial serials : List Bytes} {calls : List (RevokeCall Ca)} {n : ℕ}
    (hread : readSerials files.revoked = some initial)
    (h : Holds openssl initial files calls files' serials) (hn : Earlier openssl files calls n) :
    shortest n ∈ serials := by
  rw [h.mem]
  rcases hn with ⟨other, hother, hnumber⟩ | ⟨existing, hexisting, line, hline, hnumber⟩
  · right
    obtain ⟨text, htext, hnumber⟩ := Option.bind_eq_some_iff.mp hnumber
    refine ⟨other, hother, ?_⟩
    unfold revokedSerial
    rw [htext, Option.bind_some, canonical_of_number hnumber]
  · left
    rw [(readSerials_spec hread).2]
    exact ⟨existing, hexisting, line, hline, canonical_of_number hnumber⟩

/-- A call whose serial is on the list already. -/
theorem Holds.again {initial serials : List Bytes} {calls : List (RevokeCall Ca)} {next : CaFiles}
    (h : Holds openssl initial files calls files' serials) {n : ℕ} (hold : shortest n ∈ serials)
    (hcall : (spelled openssl call).bind number = some n)
    (hnext : psx.cli.ca.revokes openssl files' call = some next) :
    next.revoked = some (revText serials) ∧ Built openssl files call serials next.crl := by
  obtain ⟨serial, hserial, hbuilt, hlast⟩ := h.revokes hnext
  obtain ⟨text, htext, hnumber⟩ := Option.bind_eq_some_iff.mp hcall
  unfold revokedSerial at hserial
  rw [htext, Option.bind_some, canonical_of_number hnumber] at hserial
  obtain rfl := Option.some.inj hserial
  rw [pushNew_of_mem hold] at hbuilt hlast
  exact ⟨hlast.written (by simp), hbuilt⟩

/-- The same calls in another order. -/
theorem Holds.perm {initial serials serials' : List Bytes} {calls calls' : List (RevokeCall Ca)}
    {files'' : CaFiles} (h : Holds openssl initial files calls files' serials)
    (h' : Holds openssl initial files calls' files'' serials') (hperm : calls.Perm calls') :
    serials.Perm serials' := by
  refine (List.perm_ext_iff_of_nodup h.isSerials.nodup h'.isSerials.nodup).mpr fun s => ?_
  rw [h.mem, h'.mem]
  refine or_congr_right (exists_congr fun c => and_congr_left fun _ => ?_)
  exact hperm.mem_iff

/-- A serial that is none, and a file that cannot be read. -/
theorem caRevoke_malformed (h : (∃ text, spelled openssl call = some text ∧ number text = none) ∨
    readSerials files.revoked = none) :
      ∃ what, caRevoke openssl files call = (files, .error what) := by
  unfold caRevoke
  cases hprepare : prepare openssl files call with
  | error what => exact ⟨what, rfl⟩
  | ok r =>
    obtain ⟨existing, hexisting, hserial, -, -⟩ := prepare_ok hprepare
    rcases h with ⟨text, htext, hnumber⟩ | hnone
    · unfold revokedSerial at hserial
      rw [htext, Option.bind_some, canonicalSerialHex_eq, hnumber] at hserial
      cases hserial
    · rw [hnone] at hexisting
      cases hexisting

end

/-- Over every sequence of revocations that return 0, from a list that can be read: what is written
and what the CRL is made of is the list of the canonical serials of the file and of the calls, each
of them once. A number of the file or of an earlier call, however it is spelled, changes nothing,
nor does the order of the calls, but for the order of the list. A serial or a file that is malformed
leaves the files. -/
theorem revocations_add_up {Ca : Type} (openssl : Openssl Ca) :
    (∀ (files : CaFiles) (initial : List Bytes), readSerials files.revoked = some initial →
      (∀ (calls : List (RevokeCall Ca)) (call : RevokeCall Ca) (files₁ files₂ : CaFiles),
        revokesAll openssl files calls = some files₁ → revokes openssl files₁ call = some files₂ →
          ∃ serials, files₂.revoked = some (revText serials) ∧
            Built openssl files call serials files₂.crl ∧ serials.Nodup ∧
            ∀ s, s ∈ serials ↔ InFile files.revoked s ∨
              ∃ c ∈ calls ++ [call], revokedSerial openssl c = some s) ∧
      (∀ (calls : List (RevokeCall Ca)) (call : RevokeCall Ca) (n : ℕ) (files₁ files₂ : CaFiles),
        revokesAll openssl files calls = some files₁ → revokes openssl files₁ call = some files₂ →
          Earlier openssl files calls n → (spelled openssl call).bind number = some n →
            (calls ≠ [] → files₂.revoked = files₁.revoked) ∧
              ∃ serials, readSerials files₁.revoked = some serials ∧
                files₂.revoked = some (revText serials) ∧
                Built openssl files call serials files₂.crl) ∧
      ∀ (calls calls' : List (RevokeCall Ca)) (files₁ files₂ : CaFiles), calls.Perm calls' →
        revokesAll openssl files calls = some files₁ →
        revokesAll openssl files calls' = some files₂ →
          ∃ serials serials', readSerials files₁.revoked = some serials ∧
            readSerials files₂.revoked = some serials' ∧ serials.Perm serials') ∧
    ∀ (files : CaFiles) (call : RevokeCall Ca),
      (∃ text, spelled openssl call = some text ∧ number text = none) ∨
          readSerials files.revoked = none →
        ∃ what, caRevoke openssl files call = (files, .error what) := by
  refine ⟨fun files initial hread => ⟨?_, ?_, ?_⟩, fun files call => caRevoke_malformed⟩
  · intro calls call files₁ files₂ hcalls hcall
    obtain ⟨before, hbefore⟩ := holds_all hread hcalls
    obtain ⟨serial, -, hbuilt, hlast⟩ := hbefore.revokes hcall
    refine ⟨_, hlast.written (by simp), hbuilt, hlast.isSerials.nodup, fun s => ?_⟩
    rw [hlast.mem, (readSerials_spec hread).2]
  · intro calls call n files₁ files₂ hcalls hcall hearlier hnumber
    obtain ⟨serials, hserials⟩ := holds_all hread hcalls
    obtain ⟨hwritten, hbuilt⟩ := hserials.again (hserials.earlier hread hearlier) hnumber hcall
    refine ⟨fun hne => ?_, serials, hserials.read, hwritten, hbuilt⟩
    rw [hwritten, hserials.written hne]
  · intro calls calls' files₁ files₂ hperm hcalls hcalls'
    obtain ⟨serials, hserials⟩ := holds_all hread hcalls
    obtain ⟨serials', hserials'⟩ := holds_all hread hcalls'
    exact ⟨serials, serials', hserials.read, hserials'.read, hserials.perm hserials' hperm⟩

/-- Certificates have one serial here, and a CRL is the text of its list. -/
def onePeer : Openssl Unit where
  load _ _ := .ok ()
  serialHex _ := .ok (ascii "0A3F")

/-- A list that was edited by hand. -/
def edited : CaFiles where
  key := some [75]
  cert := some [67]
  revoked := some (ascii "00ab \r\n\nAB\n3")
  crl := none

/-- The directory of a CA whose list has these serials. -/
def withList (serials : String) : CaFiles :=
  { edited with revoked := some (ascii serials), crl := some (ascii serials) }

/-- A revocation by a certificate. -/
def byCert : RevokeCall Unit where
  args := [ascii "--ca", ascii "ca", ascii "--cert", ascii "node.crt"]
  slurp _ := some [67]
  issueCrl _ serials := .ok (revText serials)

/-- A revocation by a serial. -/
def bySerial (serial : String) : RevokeCall Unit :=
  { byCert with args := [ascii "--ca", ascii "ca", ascii "--serial", ascii serial] }

theorem a_peer_in_two_spellings :
    (∃ serials, (withList "AB\n3\nA3F\n").revoked = some (revText serials) ∧
      Built onePeer edited byCert serials (withList "AB\n3\nA3F\n").crl ∧ serials.Nodup ∧
      ∀ s, s ∈ serials ↔ InFile edited.revoked s ∨
        ∃ c ∈ [] ++ [byCert], revokedSerial onePeer c = some s) ∧
    (revokes onePeer (withList "AB\n3\nA3F\n") (bySerial "000a3f") =
      some (withList "AB\n3\nA3F\n") ∧
      ∃ serials, readSerials (withList "AB\n3\nA3F\n").revoked = some serials ∧
        (withList "AB\n3\nA3F\n").revoked = some (revText serials) ∧
        Built onePeer edited (bySerial "000a3f") serials (withList "AB\n3\nA3F\n").crl) ∧
    (∃ serials serials', readSerials (withList "AB\n3\nA3F\n7\n").revoked = some serials ∧
      readSerials (withList "AB\n3\n7\nA3F\n").revoked = some serials' ∧ serials.Perm serials') ∧
    ∃ what, caRevoke onePeer edited (bySerial "01ZZ") = (edited, .error what) := by
  have hread : readSerials edited.revoked = some [ascii "AB", ascii "3"] := by decide
  have hone : revokesAll onePeer edited [byCert] = some (withList "AB\n3\nA3F\n") := by decide
  have hagain : revokes onePeer (withList "AB\n3\nA3F\n") (bySerial "000a3f") =
      some (withList "AB\n3\nA3F\n") := by decide
  have hlaws := (revocations_add_up onePeer).1 edited _ hread
  refine ⟨?_, ⟨hagain, ?_⟩, ?_, ?_⟩
  · exact hlaws.1 [] byCert edited _ rfl (by decide)
  · have hearlier : Earlier onePeer edited [byCert] 2623 :=
      Or.inl ⟨byCert, List.mem_singleton_self _, by decide⟩
    exact (hlaws.2.1 [byCert] (bySerial "000a3f") 2623 _ _ hone hagain hearlier (by decide)).2
  · exact hlaws.2.2 [byCert, bySerial "7"] [bySerial "7", byCert] _ _ (List.Perm.swap _ _ _)
      (by decide) (by decide)
  · exact (revocations_add_up onePeer).2 edited (bySerial "01ZZ")
      (Or.inl ⟨ascii "01ZZ", by decide, by decide⟩)

end psx.cli.ca
