import CollabMode.Worker

/-!
# Identities

An endpoint shows in the headers of its upgrade that it has the key of its certificate.
The signaling server checks this in `signaling.rs` and `signaling/auth.rs`, the worker in
`auth.ts`.

The two do not read alike.  The server takes no value with a byte that is not visible ASCII,
the worker takes any text.  The server reads the timestamp as an unsigned number of 64 bits,
the worker as `Number` does.  The server checks the signature against the identity as it
prints it again, the worker against the text that has come.

`Packages` stands for what the two take from elsewhere.
-/

namespace CollabMode

namespace Signaling

abbrev Bytes := List UInt8

/-- What the two servers take from other packages. -/
structure Packages where
  /-- `headers.get` of the worker. -/
  headersGet : Bytes → String
  /-- The base64 engine of the server. -/
  decode : String → Except String Bytes
  encode : Bytes → String
  /-- The key that a certificate has for the server. -/
  parseX509 : Bytes → Except String Bytes
  /-- A key, a message and a signature. -/
  verify : Bytes → String → Bytes → Bool
  /-- SHA-256, printed in hex. -/
  hashDer : Bytes → CertDerHash
  /-- `Number`, when it gives an integer that is not negative. -/
  number : String → Option Nat
  /-- `Convert.FromBase64` of the worker. -/
  fromBase64 : String → Except String Bytes
  /-- The key that a certificate has for the worker. -/
  x509Certificate : Bytes → Except String Bytes
  /-- `crypto.subtle`: what becomes of a key, a signature and a message. -/
  subtleVerify : Bytes → Bytes → String → Except String Bool

/-- The headers of an upgrade as they come. -/
structure RawHeaders where
  id : Option Bytes
  identity : Option Bytes
  signature : Option Bytes
  trusted : Option Bytes
deriving DecidableEq, Repr

def asciiText (value : Bytes) : String := String.ofList (value.map fun b => Char.ofNat b.toNat)

/-- `HeaderValue::to_str`. -/
def toStr (value : Bytes) : Option String :=
  if value.all fun b => (32 ≤ b && b < 127) || b == 9 then some (asciiText value) else none

/-- The headers as the server reads them. -/
def RawHeaders.toStr (raw : RawHeaders) : BindHeaders where
  id := raw.id.bind Signaling.toStr
  identity := raw.identity.bind Signaling.toStr
  signature := raw.signature.bind Signaling.toStr
  trusted := raw.trusted.bind Signaling.toStr

/-- `split_once`. -/
def splitOnce (sep : Char) : List Char → Option (List Char × List Char)
  | [] => none
  | c :: cs =>
      if c = sep then some ([], cs)
      else (splitOnce sep cs).map fun parts => (c :: parts.1, parts.2)

def parseDigits : Nat → List Char → Except String Nat
  | n, [] => .ok n
  | n, c :: cs =>
      if !c.isDigit then .error "invalid digit found in string"
      else
        let n := 10 * n + (c.toNat - '0'.toNat)
        if n < 2 ^ 64 then parseDigits n cs
        else .error "number too large to fit in target type"

/-- `parse::<u64>`. -/
def parseU64 : List Char → Except String Nat
  | [] => .error "cannot parse integer from empty string"
  | ['+'] => .error "invalid digit found in string"
  | '+' :: digits => parseDigits 0 digits
  | digits => parseDigits 0 digits

structure Identity where
  timestamp : Nat
  cert : Bytes
deriving DecidableEq, Repr

/-- `MAX_TIMESTAMP_OFFSET`, also of the worker. -/
def maxTimestampOffset : Nat := 30

def absDiff (a b : Nat) : Nat := a - b + (b - a)

def outsideMaxAllowed (timestamp now : Nat) : String :=
  s!"Identity timestamp {timestamp} outside max allowed {maxTimestampOffset}s offset (now={now})"

section

variable (p : Packages)

def parseIdentityHeader (s : String) : Except String Identity :=
  match splitOnce ':' s.toList with
  | none => .error "Identity missing ':' separator"
  | some (tsStr, certB64) => do
      let timestamp ← parseU64 tsStr
      match p.decode (String.ofList certB64) with
      | .error e => .error s!"cert base64: {e}"
      | .ok cert => .ok { timestamp, cert }

/-- `to_string`, whose bytes are signed. -/
def Identity.text (self : Identity) : String := s!"{self.timestamp}:{p.encode self.cert}"

def verifyIdentity (now : Nat) (id : Identity) (sig : String) : Except String CertDerHash :=
  if absDiff now id.timestamp > maxTimestampOffset then
    .error (outsideMaxAllowed id.timestamp now)
  else
    match p.decode sig with
    | .error err => .error s!"Signature base64: {err}"
    | .ok sigBytes =>
        match p.parseX509 id.cert with
        | .error err => .error s!"Parsing identity cert: {err}"
        | .ok pubkey =>
            if p.verify pubkey (id.text p) sigBytes then .ok (p.hashDer id.cert)
            else .error "Identity signature verification failed"

variable {p}

theorem parseIdentityHeader_ok {s : String} {ts cert : List Char} {timestamp : Nat} {der : Bytes}
    (hsplit : splitOnce ':' s.toList = some (ts, cert)) (hts : parseU64 ts = .ok timestamp)
    (hcert : p.decode (String.ofList cert) = .ok der) :
    parseIdentityHeader p s = .ok { timestamp, cert := der } := by
  simp [parseIdentityHeader, hsplit, hts, hcert, bind, Except.bind]

theorem verifyIdentity_ok {now : Nat} {id : Identity} {sig : String} {sigBytes pubkey : Bytes}
    (hnow : absDiff now id.timestamp ≤ maxTimestampOffset) (hsig : p.decode sig = .ok sigBytes)
    (hkey : p.parseX509 id.cert = .ok pubkey)
    (hverify : p.verify pubkey (id.text p) sigBytes = true) :
    verifyIdentity p now id sig = .ok (p.hashDer id.cert) := by
  simp [verifyIdentity, Nat.not_lt.mpr hnow, hsig, hkey, hverify]

end

/-- Headers that the server lets in. -/
theorem validateBind_ok {Identity : Type} {parseIdentityHeader : String → Except String Identity}
    {verifyIdentity : Identity → String → Except String CertDerHash} {headers : BindHeaders}
    {id identityStr sig trustedStr : String} {identity : Identity} {certHash : CertDerHash}
    (hheaders : headers = { id := some id, identity := some identityStr, signature := some sig
                            trusted := some trustedStr })
    (hparse : parseIdentityHeader identityStr = .ok identity)
    (hverify : verifyIdentity identity sig = .ok certHash) (hid : idHash id = certHash) :
    validateBind parseIdentityHeader verifyIdentity headers =
      .ok (id, (decodeTrustedHeader trustedStr).toFinset) := by
  subst hheaders
  simp [validateBind, headerStr, withContext, hparse, hverify, hid, bind, Except.bind]

end Signaling

namespace Worker

open Signaling (Packages RawHeaders Bytes CertDerHash EndpointId)

/-- The headers as the worker reads them. -/
def readHeaders (p : Packages) (raw : RawHeaders) : Signaling.BindHeaders where
  id := raw.id.map p.headersGet
  identity := raw.identity.map p.headersGet
  signature := raw.signature.map p.headersGet
  trusted := raw.trusted.map p.headersGet

structure Identity where
  timestamp : Nat
  /-- The header as the client signed it. -/
  signedBytes : String
  certDer : Bytes
deriving DecidableEq, Repr

section

variable (p : Packages)

def parseIdentity (header : String) : Except String Identity :=
  match Signaling.splitOnce ':' header.toList with
  | none => .error "Identity missing ':' separator"
  | some (tsStr, certB64) =>
      match p.number (String.ofList tsStr) with
      | none => .error s!"Bad identity timestamp: {String.ofList tsStr}"
      | some timestamp =>
          match p.fromBase64 (String.ofList certB64) with
          | .error err => .error s!"cert base64: {err}"
          | .ok certDer => .ok { timestamp, signedBytes := header, certDer }

def hashCert (identity : Identity) : CertDerHash := p.hashDer identity.certDer

def verifyIdentity (now : Nat) (identity : Identity) (signatureB64 : String) :
    Except String CertDerHash :=
  if Signaling.absDiff now identity.timestamp > Signaling.maxTimestampOffset then
    .error (Signaling.outsideMaxAllowed identity.timestamp now)
  else
    match p.fromBase64 signatureB64 with
    | .error err => .error s!"Signature base64: {err}"
    | .ok sigBytes =>
        match p.x509Certificate identity.certDer with
        | .error err => .error s!"Parsing identity cert: {err}"
        | .ok key =>
            match p.subtleVerify key sigBytes identity.signedBytes with
            | .error err => .error err
            | .ok false => .error "Identity signature verification failed"
            | .ok true => .ok (hashCert p identity)

variable {p}

theorem parseIdentity_ok {header : String} {ts cert : List Char} {timestamp : Nat} {der : Bytes}
    (hsplit : Signaling.splitOnce ':' header.toList = some (ts, cert))
    (hts : p.number (String.ofList ts) = some timestamp)
    (hcert : p.fromBase64 (String.ofList cert) = .ok der) :
    parseIdentity p header = .ok { timestamp, signedBytes := header, certDer := der } := by
  simp [parseIdentity, hsplit, hts, hcert]

theorem verifyIdentity_ok {now : Nat} {identity : Identity} {sig : String} {sigBytes key : Bytes}
    (hnow : Signaling.absDiff now identity.timestamp ≤ Signaling.maxTimestampOffset)
    (hsig : p.fromBase64 sig = .ok sigBytes) (hkey : p.x509Certificate identity.certDer = .ok key)
    (hverify : p.subtleVerify key sigBytes identity.signedBytes = .ok true) :
    verifyIdentity p now identity sig = .ok (hashCert p identity) := by
  simp [verifyIdentity, Nat.not_lt.mpr hnow, hsig, hkey, hverify]

end

/-- Headers that the worker lets in. -/
theorem authenticate_ok {Identity : Type} {parseIdentity : String → Except String Identity}
    {hashCert : Identity → CertDerHash}
    {verifyIdentity : Identity → String → Except String CertDerHash} {db : D1}
    {headers : Signaling.BindHeaders} {id header sig trustedHeader : String}
    {identity : Identity} {certHash : CertDerHash}
    (hheaders : headers = { id := some id, identity := some header, signature := some sig
                            trusted := some trustedHeader })
    (hparse : parseIdentity header = .ok identity)
    (hfree : db.isBlacklisted (hashCert identity) = false)
    (hverify : verifyIdentity identity sig = .ok certHash)
    (hid : Signaling.idHash id = hashCert identity) :
    authenticate parseIdentity hashCert verifyIdentity db headers true =
      .ok (id, hashCert identity, decodeTrustedHeader trustedHeader) := by
  subst hheaders
  simp [authenticate, hparse, hfree, hverify, hid]

end Worker

end CollabMode
