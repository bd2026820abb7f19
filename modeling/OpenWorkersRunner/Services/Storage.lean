import OpenWorkersRunner.Lib.Url

/-!
# Storage bindings: from a key to a URL

A storage binding gives a worker a bucket of an S3 service, or what is below a prefix of it.  This
file is the part of `src/services/storage.rs` that turns the key or the path a guest gives into the
URL that is requested: `sanitize_path`, `build_s3_url`, and the object operations of
`execute_s3_operation`.
-/

universe u

namespace OpenWorkersRunner.Storage

open Text Url

structure StorageConfig where
  endpoint : Text
  bucket : Text
  keyPrefix : Option Text
deriving DecidableEq

/-! ## `sanitize_path` -/

/-- `decode_utf8`. -/
def decodeUtf8 (bytes : Text) : Option Text := if isUtf8 bytes then some bytes else none

def decodeRepeatedly : Nat → Text → Option Text
  | 0, current => some current
  | rounds + 1, current =>
    (decodeUtf8 (percentDecode current)).bind fun decoded =>
      if decoded = current then some current else decodeRepeatedly rounds decoded

def containsDots : Text → Bool
  | a :: b :: rest => (a == '.'.toUInt8 && b == '.'.toUInt8) || containsDots (b :: rest)
  | _ => false

def isComponent (component : Text) : Bool := component ≠ [] && component ≠ ascii "."

def sanitizePath (path : Text) : Option Text :=
  (decodeRepeatedly 10 path).bind fun current =>
    if current.contains 0 then none
    else if containsDots current then none
    else some (List.intercalate [slash] ((current.splitOnP (· == slash)).filter isComponent))

/-! ## `build_s3_url` -/

def requestPath {Host : Type u} (P : Parser Host) (urlOrPath : Text) : Text :=
  if (ascii "http://").isPrefixOf urlOrPath || (ascii "https://").isPrefixOf urlOrPath then
    match P.parse urlOrPath with
    | some parsed => joinPath parsed.path
    | none => urlOrPath
  else urlOrPath

/-- `{endpoint}/{bucket}/{rest}`. -/
def StorageConfig.urlOf (config : StorageConfig) (rest : Text) : Text :=
  config.endpoint ++ slash :: (config.bucket ++ slash :: rest)

def buildS3Url {Host : Type u} (P : Parser Host) (config : StorageConfig) (urlOrPath : Text) :
    Except String Text :=
  let path := requestPath P urlOrPath
  match sanitizePath path with
  | none => .error "Invalid path: traversal not allowed"
  | some sanitized =>
    let fullPath :=
      match config.keyPrefix with
      | some keyPrefix => trimEnd keyPrefix slash ++ slash :: sanitized
      | none => trimStart path slash
    .ok (config.urlOf fullPath)

/-! ## `execute_s3_operation` -/

inductive StorageOp
  | get (key : Text)
  | fetch (key : Text)
  | put (key : Text) (body : List UInt8)
  | head (key : Text)
  | delete (key : Text)
deriving DecidableEq

def StorageOp.key : StorageOp → Text
  | .get key | .fetch key | .put key _ | .head key | .delete key => key

def buildFullKey (config : StorageConfig) (key : Text) : Except String Text :=
  match sanitizePath key with
  | none => .error "Invalid key: directory traversal not allowed"
  | some sanitized =>
    match config.keyPrefix with
    | some keyPrefix => .ok (trimEnd keyPrefix slash ++ slash :: sanitized)
    | none => .ok sanitized

def operationUrl {Host : Type u} (P : Parser Host) (config : StorageConfig) (op : StorageOp) :
    Except String Text :=
  match P.parse config.endpoint with
  | none => .error "Invalid endpoint URL"
  | some _ => (buildFullKey config op.key).map config.urlOf

end OpenWorkersRunner.Storage
