import Mathlib.Data.List.Infix
import Mathlib.Data.String.Basic
import GraphForge.Lib.Outcome
import GraphForge.Prelude

/-!
# Field syntax of discovery documents

The bounded text checks every discovery document is made of: repository segments, digests, UUIDs,
ref names, credit signatures, extension values and the negotiation of required semantics. Each
check is written over the bytes of the text, as the Rust code reads them, and fails with the code,
field and detail of the source.
-/

namespace GraphForge.Discovery

open Except (refuseIf)

/-! ## Errors and limits -/

/-- What a discovery error is about. -/
inductive DiscoveryErrorCode
  | invalidIdentity
  | malformedResponse
  | unsupportedFuture
  | missingRef
  | missingObject
  | ambiguousIdentity
  | gone
  | integrityFailure
  | unsafeLocation
  | limitExceeded
  | duplicate
  deriving DecidableEq, Repr, Inhabited

/-- What carries the version that is not supported. -/
inductive DiscoveryVersionSubject
  | protocol
  | portablePackage
  | capability
  | projectSummary
  | researchLineage
  deriving DecidableEq, Repr, Inhabited

/-- The major version asked for and, if any, the supported one. -/
structure DiscoveryVersionDetails where
  subject : DiscoveryVersionSubject
  supportedMajor : Option ℕ
  requestedMajor : ℕ
  deriving DecidableEq, Repr, Inhabited

/-- An error: its code, the field it names, a text and the versions it is about. -/
structure DiscoveryError where
  code : DiscoveryErrorCode
  field : Option String
  detail : String
  version : Option DiscoveryVersionDetails := none
  deriving DecidableEq, Repr, Inhabited

/-- `with_version`. -/
def DiscoveryError.withVersion (error : DiscoveryError) (version : DiscoveryVersionDetails) :
    DiscoveryError :=
  { error with version := some version }

/-- The limits the modelled checks read. -/
structure DiscoveryLimits where
  maxStringBytes : ℕ
  maxLineageEntries : ℕ
  deriving DecidableEq, Repr

/-- The limits of a client that sets none. -/
def DiscoveryLimits.default : DiscoveryLimits where
  maxStringBytes := 4096
  maxLineageEntries := 10000

/-- `limit(field)`. -/
def limitExceeded (field : String) : DiscoveryError :=
  { code := .limitExceeded, field := some field, detail := "discovery limit exceeded" }

/-- The error of a response that is malformed as a whole. -/
def malformed : DiscoveryError :=
  { code := .malformedResponse, field := none, detail := "discovery response is malformed" }

/-- The error of a malformed field. -/
def malformedField (field detail : String) : DiscoveryError :=
  { code := .malformedResponse, field := some field, detail := detail }

/-- The error of a repository identity. -/
def invalidIdentity : DiscoveryError :=
  { code := .invalidIdentity, field := some "repository", detail := "repository identity is invalid" }

/-- The error of a digest. -/
def invalidDigest : DiscoveryError :=
  { code := .integrityFailure, field := some "digest", detail := "SHA-256 digest is invalid" }

/-! ## Bytes and characters -/

/-- `u8::is_ascii_lowercase`. -/
def isAsciiLowercase (byte : UInt8) : Bool := 97 ≤ byte && byte ≤ 122

/-- `u8::is_ascii_digit`. -/
def isAsciiDigit (byte : UInt8) : Bool := 48 ≤ byte && byte ≤ 57

/-- `u8::is_ascii_control`. -/
def isAsciiControl (byte : UInt8) : Bool := byte < 32 || byte == 127

/-- `check_string`: neither empty nor over the limit. -/
def checkString (value field : String) (limits : DiscoveryLimits) : Except DiscoveryError Unit :=
  refuseIf (value.utf8ByteSize = 0 ∨ limits.maxStringBytes < value.utf8ByteSize)
    (limitExceeded field)

/-- A lowercase path segment: letters, digits, `-`, `_` and `.`. -/
def validSlug (value : String) (max : ℕ) : Bool :=
  let bytes := bytesOf value
  !bytes.isEmpty && bytes.length ≤ max
    && bytes.head?.any (fun byte => isAsciiLowercase byte || isAsciiDigit byte)
    && bytes.all (fun byte =>
      isAsciiLowercase byte || isAsciiDigit byte || byte == 45 || byte == 95 || byte == 46)
    && !value.toList.getLast?.any (fun c => c == '-' || c == '_' || c == '.')
    && !decide (['.', '.'] <:+: value.toList)

/-- `check_uuid`: 36 bytes, dashes at the four places and only there, lower-case digits. -/
def checkUuid (value field : String) (limits : DiscoveryLimits) : Except DiscoveryError Unit := do
  checkString value field limits
  let bytes := bytesOf value
  refuseIf
    (bytes.length ≠ 36 ∨ bytes[8]? ≠ some 45 ∨ bytes[13]? ≠ some 45 ∨ bytes[18]? ≠ some 45 ∨
      bytes[23]? ≠ some 45 ∨
      ¬ bytes.zipIdx.all (fun (byte, index) =>
        (isAsciiDigit byte || (97 ≤ byte && byte ≤ 102) || byte == 45)
          && (byte != 45 || [8, 13, 18, 23].contains index)))
    (malformedField field "UUID is invalid")

/-- `validate_ref_name`. -/
def validateRefName (value : String) (limits : DiscoveryLimits) : Except DiscoveryError Unit := do
  checkString value "ref" limits
  refuseIf
    (value.toList.head? = some '/' ∨ value.toList.getLast? = some '/' ∨
      ['.', '.'] <:+: value.toList ∨ ['/', '/'] <:+: value.toList ∨
      -- `\`, `?`, `#`, `~`, `^`, `:` and the space
      (bytesOf value).any (fun byte =>
        isAsciiControl byte || [92, 63, 35, 126, 94, 58, 32].contains byte))
    (malformedField "ref" "ref name is invalid")

/-- `check_capability_name`. -/
def checkCapabilityName (value : String) (limits : DiscoveryLimits) :
    Except DiscoveryError Unit := do
  checkString value "capability" limits
  refuseIf (¬ validSlug value 128) malformed

/-- `check_core_version`. -/
def checkCoreVersion (value field : String) (limits : DiscoveryLimits) :
    Except DiscoveryError Unit := do
  checkString value field limits
  refuseIf (value.toList.any isControl)
    (malformedField field "producing core version contains control characters")

/-! ## Repository identities and digests -/

/-- The owner and the name of a repository. -/
structure RepositoryIdentity where
  owner : String
  repository : String
  deriving DecidableEq, Repr

/-- Both parts are slugs of at most 100 bytes. -/
def RepositoryIdentity.validate (identity : RepositoryIdentity) : Except DiscoveryError Unit :=
  refuseIf (¬ validSlug identity.owner 100 ∨ ¬ validSlug identity.repository 100) invalidIdentity

/-- A digest in its text form, `sha256:` and 64 lowercase hexadecimal digits. -/
structure Sha256Digest where
  text : String
  deriving DecidableEq, Repr

/-- What follows a literal at the start of the text. -/
def stripStart (start : String) (value : String) : Option (List UInt8) :=
  if bytesOf start <+: bytesOf value then some ((bytesOf value).drop (bytesOf start).length)
  else none

/-- The text is `sha256:` and 64 lower-case hexadecimal digits. -/
def Sha256Digest.validate (digest : Sha256Digest) : Except DiscoveryError Unit :=
  match stripStart "sha256:" digest.text with
  | none => .error invalidDigest
  | some hex =>
    refuseIf
      (hex.length ≠ 64 ∨ ¬ hex.all (fun byte => isAsciiDigit byte || (97 ≤ byte && byte ≤ 102)))
      invalidDigest

/-! ## Protocol versions and required semantics -/

/-- The version of the protocol that a document is written in. -/
structure ProtocolVersion where
  major : ℕ
  minor : ℕ
  deriving DecidableEq, Repr

/-- The version that this client writes. -/
def ProtocolVersion.current : ProtocolVersion := { major := 1, minor := 2 }

/-- Only the major version counts. -/
def ProtocolVersion.validate (version : ProtocolVersion) : Except DiscoveryError Unit :=
  refuseIf (version.major ≠ ProtocolVersion.current.major)
    (DiscoveryError.withVersion
      { code := .unsupportedFuture, field := some "version.major",
        detail := "protocol major version is unsupported" }
      { subject := .protocol, supportedMajor := some ProtocolVersion.current.major,
        requestedMajor := version.major })

/-- A capability with its major version, as required or as advertised. -/
structure ProtocolCapability where
  capability : String
  major : ℕ
  deriving DecidableEq, Repr

/-- The capability of project summaries. -/
def projectSummaryCapability : String := "project-summary"

/-- The capability of ontology metadata. -/
def ontologyModuleMetadataCapability : String := "ontology-module-metadata"

/-- The capability of research lineages. -/
def researchLineageCapability : String := "research-lineage"

/-- `value >= current` on pairs of a name and a major version. -/
def notAbove (prior : Option ProtocolCapability) (current : ProtocolCapability) : Prop :=
  ∃ value ∈ prior, current.capability < value.capability ∨
    (current.capability = value.capability ∧ current.major ≤ value.major)

instance (prior : Option ProtocolCapability) (current : ProtocolCapability) :
    Decidable (notAbove prior current) :=
  inferInstanceAs (Decidable (∃ value ∈ prior, _))

/-- The major version of a capability that a reader of the accepted one understands. -/
def supportedMajor (acceptedCapability capability : String) : Option ℕ :=
  if capability = acceptedCapability then
    some (if acceptedCapability = researchLineageCapability then 2 else 1)
  else if acceptedCapability = projectSummaryCapability ∧
      capability = ontologyModuleMetadataCapability then some 1
  else none

/-- One requirement: a name above the prior one, and a supported major version. -/
def validateRequirement (acceptedCapability : String) (limits : DiscoveryLimits)
    (prior : Option ProtocolCapability) (requirement : ProtocolCapability) :
    Except DiscoveryError (Option ProtocolCapability) := do
  checkCapabilityName requirement.capability limits
  refuseIf (notAbove prior requirement)
    { code := .duplicate, field := some "requirements",
      detail := "requirements are duplicated or not canonically ordered" }
  let supported := supportedMajor acceptedCapability requirement.capability
  refuseIf (supported ≠ some requirement.major)
    (DiscoveryError.withVersion
      { code := .unsupportedFuture, field := some "requirements",
        detail := "required capability is unsupported" }
      { subject := .capability, supportedMajor := supported,
        requestedMajor := requirement.major })
  return some requirement

/-- One offered capability: a name above the prior one. It need not be supported. -/
def validateCapability (limits : DiscoveryLimits) (prior : Option ProtocolCapability)
    (capability : ProtocolCapability) : Except DiscoveryError (Option ProtocolCapability) := do
  checkCapabilityName capability.capability limits
  refuseIf (notAbove prior capability)
    { code := .duplicate, field := some "capabilities",
      detail := "capabilities are duplicated or not canonically ordered" }
  return some capability

/-- `validate_semantics`. -/
def validateSemantics (requirements capabilities : List ProtocolCapability)
    (acceptedCapability : String) (limits : DiscoveryLimits) : Except DiscoveryError Unit := do
  refuseIf (256 < requirements.length ∨ 256 < capabilities.length) (limitExceeded "requirements")
  let _ ← requirements.foldlM (validateRequirement acceptedCapability limits) none
  let _ ← capabilities.foldlM (validateCapability limits) none

/-- `str::parse::<u16>`: an optional `+` and decimal digits. -/
def parseU16 (text : List Char) : Option ℕ :=
  let digits := if text.head? = some '+' then text.tail else text
  if digits = [] ∨ ¬ digits.all (fun c => '0' ≤ c && c ≤ '9') then none
  else
    let value := digits.foldl (fun value c => 10 * value + (c.toNat - 48)) 0
    if value < 65536 then some value else none

/-- The major version behind the last `/`, when the name before it is the expected one. -/
def formatMajor (format expectedName : String) : Option ℕ :=
  let reversed := format.toList.reverse
  let major := (reversed.takeWhile (· ≠ '/')).reverse
  let name := (reversed.dropWhile (· ≠ '/')).tail.reverse
  if '/' ∈ reversed ∧ name = expectedName.toList then parseU16 major else none

/-! ## Extension values -/

/-- A JSON value: numbers are the integers of 64 bits, signed or not, and all others. -/
inductive ExtensionValue
  | null
  | bool (value : Bool)
  | integer (value : ℤ)
  | otherNumber (text : String)
  | string (value : String)
  | array (values : List ExtensionValue)
  | object (entries : List (String × ExtensionValue))

mutual

/-- `validate_extension_value`, which bounds the depth and the size at each level. -/
def validateExtensionValue (limits : DiscoveryLimits) :
    ℕ → ExtensionValue → Except DiscoveryError Unit
  | depth, .string value => do
    refuseIf (16 < depth) (limitExceeded "extensions")
    checkString value "extensions" limits
  | depth, .array values => do
    refuseIf (16 < depth) (limitExceeded "extensions")
    refuseIf (1024 < values.length) (limitExceeded "extensions")
    validateExtensionValues limits (depth + 1) values
  | depth, .object entries => do
    refuseIf (16 < depth) (limitExceeded "extensions")
    refuseIf (1024 < entries.length) (limitExceeded "extensions")
    validateExtensionEntries limits (depth + 1) entries
  | depth, .otherNumber _ => do
    refuseIf (16 < depth) (limitExceeded "extensions")
    .error (malformedField "extensions" "extension number is not a canonical integer")
  | depth, .integer _ => refuseIf (16 < depth) (limitExceeded "extensions")
  | depth, .bool _ => refuseIf (16 < depth) (limitExceeded "extensions")
  | depth, .null => refuseIf (16 < depth) (limitExceeded "extensions")

/-- The elements of an array. -/
def validateExtensionValues (limits : DiscoveryLimits) :
    ℕ → List ExtensionValue → Except DiscoveryError Unit
  | _, [] => .ok ()
  | depth, value :: values => do
    validateExtensionValue limits depth value
    validateExtensionValues limits depth values

/-- The entries of an object, whose keys are texts to check. -/
def validateExtensionEntries (limits : DiscoveryLimits) :
    ℕ → List (String × ExtensionValue) → Except DiscoveryError Unit
  | _, [] => .ok ()
  | depth, (key, value) :: entries => do
    checkString key "extensions" limits
    validateExtensionValue limits depth value
    validateExtensionEntries limits depth entries

end

/-- `validate_extensions`: every key starts with `x-`. -/
def validateExtensions (extensions : List (String × ExtensionValue)) (limits : DiscoveryLimits) :
    Except DiscoveryError Unit := do
  refuseIf (256 < extensions.length) (limitExceeded "extensions")
  extensions.forM fun (key, value) => do
    checkString key "extensions" limits
    refuseIf (¬ bytesOf "x-" <+: bytesOf key ∨ ¬ validSlug key 128)
      (malformedField "extensions" "extension key is invalid")
    validateExtensionValue limits 0 value

/-! ## Credit signatures -/

/-- Who is credited, with the optional address and identifier. -/
structure CreditSignature where
  name : String
  email : Option String
  orcid : Option String
  deriving DecidableEq, Repr

/-- The longest credited name. -/
def maxNameBytes : ℕ := 256

/-- The longest address. -/
def maxEmailBytes : ℕ := 254

/-- Length in bytes of a run of characters. -/
def utf8Length (text : List Char) : ℕ := (text.map Char.utf8Size).sum

/-- `valid_email`: a local part and a domain of labels that are not empty, at one `@`. -/
def validEmail (email : String) : Bool :=
  let text := email.toList
  let localPart := text.takeWhile (· ≠ '@')
  let domain := (text.dropWhile (· ≠ '@')).tail
  -- without an `@` the text has no domain at all
  decide ('@' ∈ text) && decide (email.utf8ByteSize ≤ maxEmailBytes)
    && !localPart.isEmpty && decide (utf8Length localPart ≤ 64)
    && !domain.isEmpty && decide (utf8Length domain ≤ 253)
    && !domain.contains '@'
    && (domain.splitOn '.').all (fun label => !label.isEmpty)
    && !text.any (fun c => isWhitespace c || isControl c || c == '<' || c == '>')

/-- ISO 7064 MOD 11-2 over the fifteen leading digits. -/
def validOrcid (orcid : String) : Bool :=
  let bytes := bytesOf orcid
  if bytes.length ≠ 19 ∨ bytes[4]? ≠ some 45 ∨ bytes[9]? ≠ some 45 ∨ bytes[14]? ≠ some 45 then
    false
  else
    let digits := (bytes.zipIdx.filter fun (_, i) => !([4, 9, 14].contains i)).map Prod.fst
    if (digits.take 15).any (fun byte => !isAsciiDigit byte) then false
    else
      let total := (digits.take 15).foldl (fun (total : ℕ) digit => (total + (digit.toNat - 48)) * 2) 0
      let check := (12 - total % 11) % 11
      let expected := if check = 10 then 88 else 48 + check
      digits[15]?.any (fun byte => byte.toNat == expected)

/-- `CreditSignature::validate`. -/
def CreditSignature.validate (signature : CreditSignature) (field : String) :
    Except DiscoveryError Unit := do
  refuseIf
    (signature.name.utf8ByteSize = 0 ∨ signature.name.toList.head?.any isWhitespace ∨
      signature.name.toList.getLast?.any isWhitespace ∨
      maxNameBytes < signature.name.utf8ByteSize ∨ signature.name.toList.any isControl)
    (malformedField field "credit name is invalid")
  refuseIf (signature.email.any fun email => !validEmail email)
    (malformedField field "credit email is invalid")
  refuseIf (signature.orcid.any fun orcid => !validOrcid orcid)
    (malformedField field "credit ORCID is invalid")

/-! ## Portable packages -/

/-- The format of portable packages. -/
def portableFormat : String := "graphforge-project/2"

/-- A package, by the digests of the package and of the object that holds it. -/
structure PortablePackageReference where
  format : String
  packageDigest : Sha256Digest
  producingCoreVersion : String
  objectDigest : Sha256Digest
  deriving DecidableEq, Repr

/-- `validate_package_reference`: another major version of the format is told apart. -/
def validatePackageReference (package : PortablePackageReference) (field : String)
    (limits : DiscoveryLimits) : Except DiscoveryError Unit := do
  let error : DiscoveryError :=
    { code := .unsupportedFuture, field := some field,
      detail := "portable package format is unsupported" }
  refuseIf (package.format ≠ portableFormat)
    (match formatMajor package.format "graphforge-project" with
      | some requestedMajor =>
        error.withVersion { subject := .portablePackage, supportedMajor := some 2, requestedMajor }
      | none => error)
  package.packageDigest.validate
  checkCoreVersion package.producingCoreVersion field limits
  package.objectDigest.validate

end GraphForge.Discovery
