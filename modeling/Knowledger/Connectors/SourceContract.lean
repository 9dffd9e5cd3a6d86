import Knowledger.Storage.DeliveryContract

/-!
# The contract of a private source

The paths, mappings and origins of the files of a source, and the decoding of an imported Markdown
file.  A string with an unpaired surrogate is refused where it is read: the source lets a path or a
title with one pass, and refuses it when it prints the request.
-/

namespace Knowledger.Source

open Js

def MAX_SOURCE_FILES : Nat := 100
def MAX_SOURCE_BYTES : Nat := 16 * 1024 * 1024

/-! ## Errors -/

/-- What an operation throws: a `SourceInputError`, a `MarkdownImportError`, a `SourceStoreError`, an
error of the domain, that of a row that is there already, or what `build` threw. -/
inductive Failure
  | input (message : String)
  | markdown (message : String)
  | store (code : String) (status : Nat)
  | domain (error : DomainError)
  | constraint
  | build

/-- The message of a `SourceStoreError`. -/
def storeMessage (status : Nat) : String :=
  if status = 404 then "원본을 찾을 수 없거나 접근할 수 없습니다."
  else if status = 409 then
    "원본 버전 또는 같은 작업 ID의 내용이 달라졌습니다. 다시 확인해 주세요."
  else "비공개 원본 기록을 확인할 수 없습니다."

/-! ## Strings -/

/-- A property that is a string. -/
def text : Option Value → Option String
  | some (.str (.wellFormed s)) => some s
  | _ => none

/-- A property that is a safe integer. -/
def safeInteger : Option Value → Option Int
  | some (.num (.int n)) => if isSafeInteger n then some n else none
  | _ => none

/-- The length of a string of JavaScript. -/
def length (s : String) : Nat := (Str.wellFormed s).units.length

/-- `part.trim() === part` -/
def trimmed (part : List Char) : Bool :=
  !part.head?.any Storage.space && !part.getLast?.any Storage.space

/-- `/[\u0000-\u001f\u007f-\u009f]/` -/
def control (c : Char) : Bool := inRange 0 0x1f c || inRange 0x7f 0x9f c

/-- A letter of `md` or `markdown`, as `i` compares it; `u` folds the Kelvin sign as well. -/
def foldLetter (unicode : Bool) (c : Char) : Char :=
  if unicode && c.toNat == 0x212a then 'k'
  else if upperChar c then Char.ofNat (c.toNat + 32) else c

/-- `/\.(md|markdown)$/i` -/
def isMarkdown (unicode : Bool) (s : List Char) : Bool :=
  let s := s.map (foldLetter unicode)
  ".md".toList.isSuffixOf s || ".markdown".toList.isSuffixOf s

/-! ## Fields -/

def sourceId (value : Option Value) : Except Failure String :=
  match text value with
  | some s => if isId s then .ok s else .error (.input "올바른 원본 식별자가 필요합니다.")
  | none => .error (.input "올바른 원본 식별자가 필요합니다.")

def sourceVersion (value : Option Value) : Except Failure Nat :=
  match safeInteger value with
  | some n => if 0 ≤ n then .ok n.toNat else .error (.input "올바른 원본 버전이 필요합니다.")
  | none => .error (.input "올바른 원본 버전이 필요합니다.")

def isSourcePath (s : String) : Bool :=
  let parts := s.toList.splitOn '/'
  Nat.ble s.utf8ByteSize 512 &&
    s.toList.all (fun c => !(c == '\\' || control c || c == ':' || c == '%')) &&
    Nat.ble parts.length 10 &&
    parts.all (fun part => !part.isEmpty && !(part.head? == some '.') && trimmed part) &&
    isMarkdown false s.toList

def sourcePath (value : Option Value) : Except Failure String :=
  let error := Failure.input "숨김 경로나 상위 이동이 없는 상대 Markdown 경로가 필요합니다."
  match text value with
  | some s => if isSourcePath s then .ok s else .error error
  | none => .error error

/-- `!title.trim()` fails, within 200 units and without control characters. -/
def isTitle (s : String) : Bool :=
  s.toList.any (fun c => !Storage.space c) && Nat.ble (length s) 200 &&
    s.toList.all fun c => !(inRange 0 0x1f c || inRange 0x7f 0x7f c)

structure SourceFileMapping where
  path : String
  policyId : String
  policyVersion : Nat
  title : String
  deriving DecidableEq

/-- What `sourceMapping` checks of the values. -/
def SourceFileMapping.valid (m : SourceFileMapping) : Bool :=
  isSourcePath m.path && isId m.policyId && Nat.ble 1 m.policyVersion &&
    isSafeInteger m.policyVersion && isTitle m.title

/-- `sourceMapping` of an object with its four properties. -/
def sourceMapping (value : Fields) : Except Failure SourceFileMapping :=
  let error := Failure.input "올바른 파일 연결 설정이 필요합니다."
  match safeInteger (value.get "policy_version"), text (value.get "title") with
  | some version, some title => do
      if 1 ≤ version ∧ isTitle title then
        let path ← sourcePath (value.get "path")
        let policyId ← sourceId (value.get "policy_id")
        return ⟨path, policyId, version.toNat, title⟩
      else .error error
  | _, _ => .error error

/-! ## Origins -/

/-- `/^[a-f0-9]{8}(?:-[a-f0-9]{4}){3}-[a-f0-9]{12}$/` -/
def isCloudId (s : String) : Bool :=
  let parts := s.toList.splitOn '-'
  parts.map (·.length) == [8, 4, 4, 4, 12] && parts.all fun part => part.all hexChar

/-- `/^[1-9][0-9]{0,19}$/` -/
def isPageId (s : String) : Bool := headThen (inRange 49 57) digitChar 0 19 s.toList

/-- `/^[a-f0-9]{64}$/` -/
def isSha256 (s : String) : Bool := s.toList.all hexChar && s.toList.length == 64

structure ConfluenceOrigin where
  cloudId : String
  pageId : String
  pageVersion : Nat
  adfSha256 : String
  deriving DecidableEq

def ConfluenceOrigin.valid (o : ConfluenceOrigin) : Bool :=
  isCloudId o.cloudId && isPageId o.pageId && Nat.ble 1 o.pageVersion &&
    isSafeInteger o.pageVersion && isSha256 o.adfSha256

def ConfluenceOrigin.toJson (o : ConfluenceOrigin) : Value :=
  record [("kind", jsonString "confluence"), ("cloud_id", jsonString o.cloudId),
    ("page_id", jsonString o.pageId), ("page_version", jsonNat o.pageVersion),
    ("adf_sha256", jsonString o.adfSha256)]

def confluenceOrigin (value : Value) : Except Failure ConfluenceOrigin :=
  let error := Failure.input "올바른 Confluence 출처 정보가 필요합니다."
  match isRecord value with
  | some fields =>
      match text (fields.get "cloud_id"), text (fields.get "page_id"),
        safeInteger (fields.get "page_version"), text (fields.get "adf_sha256") with
      | some cloudId, some pageId, some version, some adfSha256 =>
          let origin : ConfluenceOrigin := ⟨cloudId, pageId, version.toNat, adfSha256⟩
          if Storage.hasFields fields ["adf_sha256", "cloud_id", "kind", "page_id", "page_version"] &&
              isString (fields.get "kind") "confluence" && origin.valid then
            .ok origin
          else .error error
      | _, _, _, _ => .error error
  | none => .error error

/-- The path of a page. -/
def pagePath (pageId : String) : String := "confluence/" ++ pageId ++ ".md"

/-! ## Markdown files -/

def MAX_MARKDOWN_BYTES : Nat := 256 * 1024
def MAX_FILENAME_BYTES : Nat := 255
def MAX_BASE64_CHARS : Nat := (MAX_MARKDOWN_BYTES + 2) / 3 * 4

def alphabet : List Char :=
  "ABCDEFGHIJKLMNOPQRSTUVWXYZabcdefghijklmnopqrstuvwxyz0123456789+/".toList

def sextet (c : Char) : Nat := alphabet.idxOf c

/-- `Buffer.from(value, 'base64')` of a string of the alphabet with its padding. -/
def fromBase64 : List Char → List UInt8
  | a :: b :: '=' :: '=' :: _ => [.ofNat (sextet a * 4 + sextet b / 16)]
  | a :: b :: c :: '=' :: _ =>
      [.ofNat (sextet a * 4 + sextet b / 16), .ofNat (sextet b * 16 + sextet c / 4)]
  | a :: b :: c :: d :: rest =>
      .ofNat (sextet a * 4 + sextet b / 16) :: .ofNat (sextet b * 16 + sextet c / 4) ::
        .ofNat (sextet c * 64 + sextet d) :: fromBase64 rest
  | _ => []

def letter (n : Nat) : Char := alphabet.getD (n % 64) 'A'

/-- `bytes.toString('base64')` -/
def toBase64 : List UInt8 → List Char
  | [] => []
  | [a] => [letter (a.toNat / 4), letter (a.toNat * 16), '=', '=']
  | [a, b] =>
      [letter (a.toNat / 4), letter (a.toNat * 16 + b.toNat / 16), letter (b.toNat * 4), '=']
  | a :: b :: c :: rest =>
      letter (a.toNat / 4) :: letter (a.toNat * 16 + b.toNat / 16) ::
        letter (b.toNat * 4 + c.toNat / 64) :: letter c.toNat :: toBase64 rest

/-- `/^[A-Za-z0-9+/]*={0,2}$/` -/
def isBase64 (s : List Char) : Bool :=
  let body := s.takeWhile alphabet.contains
  let padding := s.dropWhile alphabet.contains
  Nat.ble padding.length 2 && padding.all (· == '=') && body.length + padding.length == s.length

def decodeCanonicalBase64 (value : Option Value) : Except Failure (List UInt8) :=
  let padded := Failure.markdown "content_base64는 패딩된 표준 Base64여야 합니다."
  match text value with
  | some s =>
      let chars := s.toList
      if chars.isEmpty || !Nat.ble (length s) MAX_BASE64_CHARS || length s % 4 != 0 ||
          !isBase64 chars then .error padded
      else
        let bytes := fromBase64 chars
        if bytes.isEmpty then .error (.markdown "Markdown 본문은 비어 있을 수 없습니다.")
        else if toBase64 bytes != chars then
          .error (.markdown "content_base64는 표준 Base64 정규형이어야 합니다.")
        else if !Nat.ble bytes.length MAX_MARKDOWN_BYTES then
          .error (.markdown "Markdown 본문은 256 KiB 이하여야 합니다.")
        else .ok bytes
  | none => .error padded

def validateMarkdownFilename (s : String) : Except Failure String :=
  if s.toList.isEmpty || !Nat.ble s.utf8ByteSize MAX_FILENAME_BYTES ||
      s.toList.any (fun c => c == '/' || c == '\\' || control c) || !isMarkdown true s.toList then
    .error (.markdown "파일명은 경로가 아닌 .md 또는 .markdown 파일이어야 합니다.")
  else .ok s

/-- Control characters other than tab, line feed and carriage return. -/
def hasControlCharacters (s : String) : Bool :=
  s.toList.any fun c => control c && !(c == '\t' || c == '\n' || c == '\r')

structure DecodedMarkdownImport where
  filename : String
  content : String
  byteLength : Nat
  sha256 : String
  deriving DecidableEq

def decodeMarkdownImport [Sha256] (filename : String) (contentBase64 : Option Value) :
    Except Failure DecodedMarkdownImport := do
  let filename ← validateMarkdownFilename filename
  let bytes ← decodeCanonicalBase64 contentBase64
  match String.fromUTF8? bytes.toByteArray with
  | some content =>
      if content.toList.isEmpty || hasControlCharacters content then
        .error (.markdown "Markdown 본문에 허용되지 않은 제어 문자가 있습니다.")
      else
        -- The octets of `content` are the bytes that were decoded.
        return ⟨filename, content, bytes.length, Sha256.hexDigest content⟩
  | none => .error (.markdown "Markdown 본문은 올바른 UTF-8이어야 합니다.")

/-- `path.split('/').at(-1)` -/
def filenameOf (path : String) : String :=
  String.ofList ((path.toList.splitOn '/').getLastD [])

end Knowledger.Source
