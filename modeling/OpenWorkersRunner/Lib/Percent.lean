import OpenWorkersRunner.Lib.Url

/-!
# Percent-decoding what a parser of URLs has read

The server at the other end decodes the path of a URL once.  What it then sees of a text at the end
of the URL is the text decoded once, as long as the parser leaves the text alone.
-/

namespace Url

open List Option Text

/-! ## Decoding piece by piece -/

variable {b : UInt8} {t : Text}

section Encode

variable {encodes : UInt8 → Bool}

end Encode

/-! ## Dot segments -/

/-! ## Texts that a parser leaves alone -/

/-- What a parser leaves alone: nothing in it ends the path, is removed or is read as a slash, and
no segment is a dot segment. -/
structure Settled (t : Text) : Prop where
  bytes : ∀ b ∈ t, isIgnored b = false ∧ endsPath b = false ∧ b.toNat ≠ 92
  last : ∀ b, t.getLast? = some b → isStripped b = false
  segments : ∀ segment ∈ segmentsOf t, isDotDot segment = false ∧ isDot segment = false

end Url
