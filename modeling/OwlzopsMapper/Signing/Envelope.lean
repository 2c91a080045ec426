import OwlzopsMapper.Signing

/-! # Signed reports

`sign_report` and `verify_report` of `signing.rs`, and the `verify` command of `main.rs`.  Keys,
signatures and base64 come from other crates and are a parameter (`SshKeys`).

The command accepts a document when the key in it is one it was told to trust, the namespace is the
one of these reports and the signature is one of that key over the canonical bytes
(`verifyCommand_iff`).  **A report put into a signed envelope is accepted exactly when its value is
the signed one up to the order of object members** (`altered_iff`). -/

namespace OwlzopsMapper.Signing

open Lib

def reportSigningNamespace : String := "owlzops-mapper-report"

/-- `SigningError`, over the texts of the errors in it. -/
inductive SigningError where
  | serialize (e : String)
  | signatureFormat (e : String)
  | sign (e : String)
  | verify (e : String)
  | base64 (e : String)
deriving DecidableEq, Repr

def SigningError.text : SigningError → String
  | .serialize e => "failed to serialize report: " ++ e
  | .signatureFormat e => "failed to read signature: " ++ e
  | .sign e => "signing failed: " ++ e
  | .verify e => "verification failed: " ++ e
  | .base64 e => "base64 decode failed: " ++ e

/-- The operations on keys, signatures and base64 texts. -/
structure SshKeys (Secret Public KeyData Sig : Type) where
  publicKey : Secret → Public
  keyData : Public → KeyData
  sign : Secret → String → List UInt8 → Except String Sig
  verify : Public → String → List UInt8 → Sig → Except String Unit
  encodeSig : Sig → Except String (List UInt8)
  decodeSig : List UInt8 → Except String Sig
  toBytes : Public → Except String (List UInt8)
  fromBytes : List UInt8 → Except String Public
  encode64 : List UInt8 → String
  decode64 : String → Except String (List UInt8)

/-- `SignedReport`. -/
structure SignedReport (R : Type) where
  report : R
  signature : String
  publicKey : String
  namespaceName : String

section envelope
variable {R N Secret Public KeyData Sig : Type}
variable (lib : SshKeys Secret Public KeyData Sig)
variable (toValue : R → Except String (Value N)) (toVec : Value N → Except String (List UInt8))

/-- `sign_report`. -/
def signReport (report : R) (secret : Secret) : Except SigningError (SignedReport R) :=
  match canonicalize toValue toVec report with
  | .error e => .error (.serialize e)
  | .ok canonical =>
      match lib.sign secret reportSigningNamespace canonical with
      | .error e => .error (.sign e)
      | .ok sig =>
          match lib.encodeSig sig with
          | .error e => .error (.sign e)
          | .ok sigBytes =>
              match lib.toBytes (lib.publicKey secret) with
              | .error e => .error (.sign e)
              | .ok pubBytes => .ok
                  { report := report
                    signature := lib.encode64 sigBytes
                    publicKey := lib.encode64 pubBytes
                    namespaceName := reportSigningNamespace }

def namespaceError (name : String) : SigningError :=
  .verify ("namespace is '" ++ name ++ "', expected '" ++ reportSigningNamespace ++
    "' — this signature was not made over an owlzops-mapper report")

/-- `verify_report`. -/
def verifyReport (signed : SignedReport R) : Except SigningError Bool :=
  if signed.namespaceName ≠ reportSigningNamespace then .error (namespaceError signed.namespaceName)
  else match canonicalize toValue toVec signed.report with
  | .error e => .error (.serialize e)
  | .ok canonical =>
      match lib.decode64 signed.signature with
      | .error e => .error (.base64 e)
      | .ok sigBytes =>
          match lib.decodeSig sigBytes with
          | .error e => .error (.signatureFormat e)
          | .ok sig =>
              match lib.decode64 signed.publicKey with
              | .error e => .error (.base64 e)
              | .ok pubBytes =>
                  match lib.fromBytes pubBytes with
                  | .error e => .error (.signatureFormat e)
                  | .ok publicKey =>
                      match lib.verify publicKey reportSigningNamespace canonical sig with
                      | .error e => .error (.verify e)
                      | .ok () => .ok true

/-- What the command is given: the file, and the key with its path. -/
structure VerifyArgs (Public : Type) where
  inputName : String
  data : Except String String
  key : Option (String × Except String Public)

def builtinError : String :=
  "The public key in the report is not one of the built-in Owlzops keys. " ++
    "Pass --key to provide an explicit public key."

def notSignedError (inputName : String) : String :=
  inputName ++ " is not a signed report (no signature envelope) — run `owlzops-mapper sign` first"

/-- The key the report must be signed with. -/
def expectedKey [DecidableEq KeyData] (builtin : List Public) (key : Option (String × Except String Public))
    (embedded : Public) : Except String Public :=
  match key with
  | some (_, .ok k) => .ok k
  | some (path, .error e) => .error ("Cannot load public key " ++ path ++ ": " ++ e)
  | none =>
      match builtin.find? fun k => lib.keyData k = lib.keyData embedded with
      | some k => .ok k
      | none => .error builtinError

/-- The `verify` command: the text of the error, with which it exits 1. -/
def verifyCommand [DecidableEq KeyData] (parse : String → Except String (SignedReport R)) (builtin : List Public)
    (args : VerifyArgs Public) : Except String Unit :=
  match args.data with
  | .error e => .error ("Cannot read input file " ++ args.inputName ++ ": " ++ e)
  | .ok data =>
      match parse data with
      | .error e => .error ("Invalid signed report JSON: " ++ e)
      | .ok signed =>
          if signed.signature = "" ∨ signed.publicKey = "" then .error (notSignedError args.inputName)
          else match lib.decode64 signed.publicKey with
          | .error e => .error ("Invalid public key encoding in signed report: " ++ e)
          | .ok bytes =>
              match lib.fromBytes bytes with
              | .error e => .error ("Invalid public key bytes in signed report: " ++ e)
              | .ok embedded =>
                  match expectedKey lib builtin args.key embedded with
                  | .error e => .error e
                  | .ok expected =>
                      if lib.keyData expected ≠ lib.keyData embedded then
                        .error "Public key in report does not match provided public key"
                      else match verifyReport lib toValue toVec signed with
                      | .ok true => .ok ()
                      | .ok false => .error "Signature INVALID"
                      | .error e => .error ("Verification failed: " ++ e.text)

/-! ### When a document is accepted -/

/-- The key is trusted: the one that was given, or one of those built in. -/
def Trusted (builtin : List Public) (key : Option (String × Except String Public))
    (embedded : Public) : Prop :=
  match key with
  | some (_, given) => ∃ k, given = .ok k ∧ lib.keyData k = lib.keyData embedded
  | none => ∃ k ∈ builtin, lib.keyData k = lib.keyData embedded

/-- The envelope holds this key, and a signature of it over these bytes. -/
structure Seals (signed : SignedReport R) (embedded : Public) (canonical : List UInt8) : Prop where
  namespace_eq : signed.namespaceName = reportSigningNamespace
  key : ∃ bytes, lib.decode64 signed.publicKey = .ok bytes ∧ lib.fromBytes bytes = .ok embedded
  signature : ∃ bytes sig, lib.decode64 signed.signature = .ok bytes ∧ lib.decodeSig bytes = .ok sig ∧
    lib.verify embedded reportSigningNamespace canonical sig = .ok ()

variable {lib toValue toVec}

theorem verifyReport_iff {signed : SignedReport R} :
    verifyReport lib toValue toVec signed = .ok true ↔
      ∃ embedded canonical, canonicalize toValue toVec signed.report = .ok canonical ∧
        Seals lib signed embedded canonical := by
  constructor
  · intro h
    unfold verifyReport at h
    split at h
    · cases h
    · rename_i hname
      split at h <;> try cases h
      rename_i canonical hcanonical
      split at h <;> try cases h
      rename_i sigBytes hsigBytes
      split at h <;> try cases h
      rename_i sig hsig
      split at h <;> try cases h
      rename_i pubBytes hpubBytes
      split at h <;> try cases h
      rename_i embedded hembedded
      split at h <;> try cases h
      rename_i hverify
      exact ⟨embedded, canonical, hcanonical, not_not.mp hname, ⟨pubBytes, hpubBytes, hembedded⟩,
        sigBytes, sig, hsigBytes, hsig, hverify⟩
  · rintro ⟨embedded, canonical, hcanonical, hname, ⟨pubBytes, hpubBytes, hembedded⟩,
      sigBytes, sig, hsigBytes, hsig, hverify⟩
    simp [verifyReport, hname, hcanonical, hsigBytes, hsig, hpubBytes, hembedded, hverify]

theorem expectedKey_iff [DecidableEq KeyData] {builtin : List Public} {key : Option (String × Except String Public)}
    {embedded : Public} : (∃ expected, expectedKey lib builtin key embedded = .ok expected ∧
      lib.keyData expected = lib.keyData embedded) ↔ Trusted lib builtin key embedded := by
  unfold expectedKey Trusted
  match key with
  | some (_, .ok k) => simp
  | some (_, .error e) => simp
  | none =>
      cases hfind : builtin.find? fun k => lib.keyData k = lib.keyData embedded with
      | some k =>
          have hmem := List.mem_of_find?_eq_some hfind
          have hdata : lib.keyData k = lib.keyData embedded := by simpa using List.find?_some hfind
          exact iff_of_true ⟨k, rfl, hdata⟩ ⟨k, hmem, hdata⟩
      | none =>
          refine iff_of_false (fun ⟨_, h, _⟩ => by cases h) ?_
          rintro ⟨k, hmem, hdata⟩
          have hno := List.find?_eq_none.mp hfind k hmem
          simp [hdata] at hno

theorem verifyReport_ne_false (signed : SignedReport R) :
    verifyReport lib toValue toVec signed ≠ .ok false := by
  unfold verifyReport
  intro h
  split at h
  · cases h
  · repeat' split at h
    all_goals cases h

/-- **When the command accepts**: it was told to trust the key in the document, and the document is
sealed with it. -/
theorem verifyCommand_iff [DecidableEq KeyData] {parse : String → Except String (SignedReport R)}
    {builtin : List Public} {args : VerifyArgs Public} :
    verifyCommand lib toValue toVec parse builtin args = .ok () ↔
      ∃ data signed embedded canonical, args.data = .ok data ∧ parse data = .ok signed ∧
        signed.signature ≠ "" ∧ signed.publicKey ≠ "" ∧ Trusted lib builtin args.key embedded ∧
        canonicalize toValue toVec signed.report = .ok canonical ∧
        Seals lib signed embedded canonical := by
  constructor
  · intro h
    unfold verifyCommand at h
    split at h <;> try cases h
    rename_i data hdata
    split at h <;> try cases h
    rename_i signed hparse
    split at h <;> try cases h
    rename_i hfilled
    split at h <;> try cases h
    rename_i bytes hbytes
    split at h <;> try cases h
    rename_i embedded hembedded
    split at h <;> try cases h
    rename_i expected hexpected
    split at h <;> try cases h
    rename_i hsame
    split at h <;> try cases h
    rename_i hverify
    obtain ⟨embedded', canonical, hcanonical, hseals⟩ := verifyReport_iff.mp hverify
    obtain ⟨bytes', hbytes', hembedded'⟩ := hseals.key
    rw [hbytes] at hbytes'
    cases hbytes'
    rw [hembedded] at hembedded'
    cases hembedded'
    have htrusted : Trusted lib builtin args.key embedded :=
      expectedKey_iff.mp ⟨expected, hexpected, not_not.mp hsame⟩
    exact ⟨data, signed, embedded, canonical, hdata, hparse, fun h0 => hfilled (.inl h0),
      fun h0 => hfilled (.inr h0), htrusted, hcanonical, hseals⟩
  · rintro ⟨data, signed, embedded, canonical, hdata, hparse, hsignature, hkey, htrusted, hcanonical,
      hseals⟩
    obtain ⟨bytes, hbytes, hembedded⟩ := hseals.key
    obtain ⟨expected, hexpected, hsame⟩ := expectedKey_iff.mpr htrusted
    have hverify : verifyReport lib toValue toVec signed = .ok true :=
      verifyReport_iff.mpr ⟨embedded, canonical, hcanonical, hseals⟩
    simp [verifyCommand, hdata, hparse, hsignature, hkey, hbytes, hembedded, hexpected, hsame, hverify]

/-! ### What a signature covers -/

variable (lib) in
/-- The signature and the key can be read back from the texts that are written for them. -/
structure Codec (sig : Sig) (key : Public) : Prop where
  sig_read : ∀ bytes, lib.encodeSig sig = .ok bytes → lib.encode64 bytes ≠ "" ∧
    lib.decode64 (lib.encode64 bytes) = .ok bytes ∧ lib.decodeSig bytes = .ok sig
  key_read : ∀ bytes, lib.toBytes key = .ok bytes → lib.encode64 bytes ≠ "" ∧
    lib.decode64 (lib.encode64 bytes) = .ok bytes ∧
    ∃ key', lib.fromBytes bytes = .ok key' ∧ lib.keyData key' = lib.keyData key

variable (lib) in
/-- The signature passes for these bytes and for no others. -/
def Binds (sig : Sig) (secret : Secret) (canonical : List UInt8) : Prop :=
  ∀ key other, lib.keyData key = lib.keyData (lib.publicKey secret) →
    (lib.verify key reportSigningNamespace other sig = .ok () ↔ other = canonical)

/-- The signer's key, as it is read from what was signed. -/
theorem sealed_of_sign {report : R} {secret : Secret} {signed : SignedReport R} {sig : Sig}
    {canonical : List UInt8} (hcanonical : canonicalize toValue toVec report = .ok canonical)
    (hsig : lib.sign secret reportSigningNamespace canonical = .ok sig)
    (hcodec : Codec lib sig (lib.publicKey secret))
    (hsigned : signReport lib toValue toVec report secret = .ok signed) :
    ∃ sigBytes pubBytes key, signed.signature ≠ "" ∧ signed.publicKey ≠ "" ∧
      signed.namespaceName = reportSigningNamespace ∧
      lib.decode64 signed.signature = .ok sigBytes ∧ lib.decodeSig sigBytes = .ok sig ∧
      lib.decode64 signed.publicKey = .ok pubBytes ∧ lib.fromBytes pubBytes = .ok key ∧
      lib.keyData key = lib.keyData (lib.publicKey secret) := by
  unfold signReport at hsigned
  rw [hcanonical] at hsigned
  dsimp only at hsigned
  rw [hsig] at hsigned
  dsimp only at hsigned
  split at hsigned <;> try cases hsigned
  rename_i sigBytes hsigBytes
  split at hsigned <;> try cases hsigned
  rename_i pubBytes hpubBytes
  obtain ⟨hsigFilled, hsigText, hsigBack⟩ := hcodec.sig_read sigBytes hsigBytes
  obtain ⟨hkeyFilled, hkeyText, key, hkeyBack, hkeyData⟩ := hcodec.key_read pubBytes hpubBytes
  exact ⟨sigBytes, pubBytes, key, hsigFilled, hkeyFilled, rfl, hsigText, hsigBack, hkeyText, hkeyBack,
    hkeyData⟩

/-- The canonical bytes of two reports are the same exactly when their values are. -/
theorem canonical_eq_iff {report altered : R} {v w : Value N} {canonical bytes : List UInt8}
    (hv : toValue report = .ok v) (hw : toValue altered = .ok w)
    (hprints : PrintsApart toVec (sortJsonObjectKeys v) (sortJsonObjectKeys w))
    (hcanonical : canonicalize toValue toVec report = .ok canonical)
    (hbytes : canonicalize toValue toVec altered = .ok bytes) :
    bytes = canonical ↔ Json.Same v.json w.json := by
  rw [canonicalize, hv] at hcanonical
  rw [canonicalize, hw] at hbytes
  dsimp only at hcanonical hbytes
  rw [← sortKeys_eq_iff v.distinct w.distinct]
  constructor
  · rintro rfl
    exact congrArg Value.json (hprints.apart (hcanonical.trans hbytes.symm))
  · intro heq
    have hvalues : sortJsonObjectKeys v = sortJsonObjectKeys w := by
      unfold sortJsonObjectKeys
      congr 1
    rw [hvalues, hbytes] at hcanonical
    cases hcanonical
    rfl

/-- **What a signature covers**: another report in the envelope of a signed one is accepted exactly
when its value is the signed value up to the order of object members. -/
theorem altered_iff [DecidableEq KeyData] {parse : String → Except String (SignedReport R)}
    {builtin : List Public} {args : VerifyArgs Public} {report altered : R} {secret : Secret}
    {signed : SignedReport R} {v w : Value N} {data : String} {canonical : List UInt8} {sig : Sig}
    (hcanonical : canonicalize toValue toVec report = .ok canonical)
    (hsig : lib.sign secret reportSigningNamespace canonical = .ok sig)
    (hcodec : Codec lib sig (lib.publicKey secret)) (hbinds : Binds lib sig secret canonical)
    (hsigned : signReport lib toValue toVec report secret = .ok signed)
    (hv : toValue report = .ok v) (hw : toValue altered = .ok w)
    (hprints : PrintsApart toVec (sortJsonObjectKeys v) (sortJsonObjectKeys w))
    (hdata : args.data = .ok data) (hparse : parse data = .ok { signed with report := altered })
    (htrusted : Trusted lib builtin args.key (lib.publicKey secret)) :
    verifyCommand lib toValue toVec parse builtin args = .ok () ↔ Json.Same v.json w.json := by
  obtain ⟨sigBytes, pubBytes, key, hsigFilled, hkeyFilled, hname, hsigText, hsigBack, hkeyText,
    hkeyBack, hkeyData⟩ := sealed_of_sign hcanonical hsig hcodec hsigned
  obtain ⟨bytes, hbytes⟩ := hprints.second
  have hother : canonicalize toValue toVec altered = .ok bytes := by
    rw [canonicalize, hw]
    exact hbytes
  rw [verifyCommand_iff, ← canonical_eq_iff hv hw hprints hcanonical hother]
  constructor
  · rintro ⟨data', signed', embedded, canonical', hdata', hparse', -, -, -, hread, -,
      ⟨pubBytes', hpub, hembedded⟩, sigBytes', sig', hdecoded, hsig', hverify⟩
    rw [hdata] at hdata'
    cases hdata'
    rw [hparse] at hparse'
    cases hparse'
    rw [hother] at hread
    cases hread
    rw [hkeyText] at hpub
    cases hpub
    rw [hkeyBack] at hembedded
    cases hembedded
    rw [hsigText] at hdecoded
    cases hdecoded
    rw [hsigBack] at hsig'
    cases hsig'
    exact (hbinds key bytes hkeyData).mp hverify
  · rintro rfl
    refine ⟨data, _, key, bytes, hdata, hparse, hsigFilled, hkeyFilled, ?_, hother, hname,
      ⟨pubBytes, hkeyText, hkeyBack⟩, sigBytes, sig, hsigText, hsigBack, (hbinds key bytes hkeyData).mpr rfl⟩
    unfold Trusted at htrusted ⊢
    split at htrusted
    · simpa only [hkeyData] using htrusted
    · simpa only [hkeyData] using htrusted

end envelope

/-- A key with one signature, over these bytes. -/
def oneSignature (canonical : List UInt8) : SshKeys Unit Unit Unit Unit where
  publicKey _ := ()
  keyData _ := ()
  sign _ _ _ := .ok ()
  verify _ _ message _ := if message = canonical then .ok () else .error "signature error"
  encodeSig _ := .ok [1]
  decodeSig _ := .ok ()
  toBytes _ := .ok [2]
  fromBytes _ := .ok ()
  encode64 bytes := if bytes = [1] then "AQ==" else "Ag=="
  decode64 text := if text = "AQ==" then .ok [1] else .ok [2]

/-- An object with one number. -/
def scored (n : ℕ) : Value ℕ :=
  ⟨.object [("score", .number n)], .object _ (by simp) (by simpa using .number n)⟩

def compactBytes (value : Value ℕ) : List UInt8 :=
  (compactText value.json).toList.map fun c => UInt8.ofNat c.toNat

/-- A changed score in a signed report. -/
theorem altered_iff_score :
    let canonical := compactBytes (sortJsonObjectKeys (scored 40))
    let signed : SignedReport (Value ℕ) := ⟨scored 90, "AQ==", "Ag==", reportSigningNamespace⟩
    verifyCommand (oneSignature canonical) .ok (fun value => .ok (compactBytes value))
      (fun _ => .ok signed) [()] ⟨"report.json", .ok "", none⟩ = .ok () ↔
      Json.Same (scored 40).json (scored 90).json := by
  intro canonical signed
  have happart : compactBytes (sortJsonObjectKeys (scored 40)) ≠
      compactBytes (sortJsonObjectKeys (scored 90)) := by decide +kernel
  have hsig : (oneSignature canonical).sign () reportSigningNamespace canonical = .ok () := rfl
  have hsigned : signReport (oneSignature canonical) .ok (fun value => .ok (compactBytes value))
      (scored 40) () = .ok ⟨scored 40, "AQ==", "Ag==", reportSigningNamespace⟩ := rfl
  refine altered_iff rfl hsig ⟨?_, ?_⟩ ?_ hsigned rfl rfl
    ⟨⟨_, rfl⟩, ⟨_, rfl⟩, fun h => absurd (Except.ok.inj h) happart⟩ rfl rfl ⟨(), by simp, rfl⟩
  · rintro bytes ⟨⟩
    exact ⟨by decide, rfl, rfl⟩
  · rintro bytes ⟨⟩
    exact ⟨by decide, rfl, (), rfl, rfl⟩
  · intro key other _
    simp [oneSignature, canonical]

end OwlzopsMapper.Signing
