import OpenWorkersRunner.Lib.Percent
import OpenWorkersRunner.Services.Confinement

/-!
# The object that a key addresses

`put`, `get`, `head` and `delete` take a key through `build_full_key`, `fetch` takes it through
`build_s3_url`.  Both sanitize it.  With a prefix both put the sanitized key into the URL; without
one, `build_full_key` does so too, but `build_s3_url` takes the key as it came.  The two then
address the same object only where sanitizing makes no difference to the service.
-/

universe u

namespace OpenWorkersRunner.Storage

open List Option Text Url

/-- What the service sees of a text after a base: the parser removes what it ignores, ends the path
at a `?` or `#`, reads backslashes as slashes and resolves the dot segments, and the service decodes
once. -/
def seen (base : List Text) (t : Text) : Text :=
  joinPath (((climbOf t).from base).map percentDecode)

variable {key : Text}

example : operationUrl plainParser (exampleConfig none) (.put (ascii "100%2525.txt") [])
      = .ok (ascii "https://s3.example.com/my-bucket/100%.txt") ∧
    buildS3Url plainParser (exampleConfig none) (ascii "100%2525.txt")
      = .ok (ascii "https://s3.example.com/my-bucket/100%2525.txt") := by
  decide

end OpenWorkersRunner.Storage
