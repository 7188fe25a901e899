/-
Digests of texts.

An algorithm is chosen by its name.  The digest is given in hexadecimal digits, all of them
or a slice from the first on.

A name is a plain one, taken letter for letter, or a registered one, in letters of any case or
by the numbers of its object identifier.  Some algorithms give as many bytes as one asks for;
these have no digest of their own.
-/
import SourceView.Digest.Blake2
import SourceView.Digest.Md5
import SourceView.Digest.Ripemd
import SourceView.Digest.Sha1
import SourceView.Digest.Sha2
import SourceView.Digest.Sha3
import SourceView.Digest.Sm3
import SourceView.Text.Encoding
import SourceView.Text.Slice

namespace SourceView.Digest

/-- A way to compute a digest. -/
inductive Algorithm where
  | md5 | sha1 | md5sha1 | sha224 | sha256 | sha384 | sha512 | sha512t224 | sha512t256
  | sha3t224 | sha3t256 | sha3t384 | sha3t512 | blake2b | blake2s | ripemd160 | sm3
  /-- The digest of no bytes. -/
  | nothing
deriving DecidableEq

/-- What a name stands for. -/
inductive Named where
  | fixed (algorithm : Algorithm)
  /-- An algorithm whose digest has no length of its own. -/
  | extendable

/-- Why a name gives no digest. -/
inductive NameRefusal where
  | unknown
  /-- The digest has no length of its own. -/
  | noLength
deriving DecidableEq

namespace Algorithm

/-- The names that stand as they are. -/
def plainNames : List (String × Named) := [
  ("sha512_224", .fixed sha512t224), ("SHA512_224", .fixed sha512t224),
  ("sha512_256", .fixed sha512t256), ("SHA512_256", .fixed sha512t256),
  ("sha3_224", .fixed sha3t224), ("sha3_256", .fixed sha3t256), ("sha3_384", .fixed sha3t384),
  ("sha3_512", .fixed sha3t512), ("blake2b", .fixed blake2b), ("blake2s", .fixed blake2s),
  ("shake_128", .extendable), ("shake_256", .extendable)]

/-- The registered names, here in small letters. -/
def registeredNames : List (Named × List String) := [
  (.fixed md5, ["md5", "ssl3-md5", "1.2.840.113549.2.5"]),
  (.fixed sha1, ["sha1", "sha-1", "ssl3-sha1", "1.3.14.3.2.26"]),
  (.fixed md5sha1, ["md5-sha1"]),
  (.fixed sha224, ["sha224", "sha-224", "sha2-224", "2.16.840.1.101.3.4.2.4"]),
  (.fixed sha256, ["sha256", "sha-256", "sha2-256", "2.16.840.1.101.3.4.2.1"]),
  (.fixed sha384, ["sha384", "sha-384", "sha2-384", "2.16.840.1.101.3.4.2.2"]),
  (.fixed sha512, ["sha512", "sha-512", "sha2-512", "2.16.840.1.101.3.4.2.3"]),
  (.fixed sha512t224, ["sha512-224", "sha-512/224", "sha2-512/224", "2.16.840.1.101.3.4.2.5"]),
  (.fixed sha512t256, ["sha512-256", "sha-512/256", "sha2-512/256", "2.16.840.1.101.3.4.2.6"]),
  (.fixed sha3t224, ["sha3-224", "2.16.840.1.101.3.4.2.7"]),
  (.fixed sha3t256, ["sha3-256", "2.16.840.1.101.3.4.2.8"]),
  (.fixed sha3t384, ["sha3-384", "2.16.840.1.101.3.4.2.9"]),
  (.fixed sha3t512, ["sha3-512", "2.16.840.1.101.3.4.2.10"]),
  (.fixed blake2b, ["blake2b512", "blake2b-512", "1.3.6.1.4.1.1722.12.2.1.16"]),
  (.fixed blake2s, ["blake2s256", "blake2s-256", "1.3.6.1.4.1.1722.12.2.2.8"]),
  (.fixed ripemd160, ["ripemd160", "ripemd", "ripemd-160", "rmd160", "1.3.36.3.2.1"]),
  (.fixed sm3, ["sm3", "1.2.156.10197.1.401"]),
  (.fixed nothing, ["null"]),
  (.extendable, ["shake128", "shake-128", "2.16.840.1.101.3.4.2.11", "shake256", "shake-256",
    "2.16.840.1.101.3.4.2.12", "keccak-kmac128", "keccak-kmac-128", "keccak-kmac256",
    "keccak-kmac-256"])]

/-- What a name stands for, if anything. -/
def named? (name : String) : Option Named :=
  match plainNames.lookup name with
  | some found => some found
  | none =>
    let small := String.ofList (name.toList.map Char.toLower)
    (registeredNames.find? (·.2.contains small)).map Prod.fst

/-- The algorithm of a given name. -/
def ofName (name : String) : Except NameRefusal Algorithm :=
  match named? name with
  | some (.fixed algorithm) => .ok algorithm
  | some .extendable => .error .noLength
  | none => .error .unknown

/-- The bytes of the digest of a message. -/
def digest (algorithm : Algorithm) (message : List Nat) : List Nat :=
  match algorithm with
  | md5 => Md5.digest message
  | sha1 => Sha1.digest message
  | md5sha1 => Md5.digest message ++ Sha1.digest message
  | sha224 => Sha2.sha224.digest message
  | sha256 => Sha2.sha256.digest message
  | sha384 => Sha2.sha384.digest message
  | sha512 => Sha2.sha512.digest message
  | sha512t224 => Sha2.sha512t224.digest message
  | sha512t256 => Sha2.sha512t256.digest message
  | sha3t224 => Sha3.digest 28 message
  | sha3t256 => Sha3.digest 32 message
  | sha3t384 => Sha3.digest 48 message
  | sha3t512 => Sha3.digest 64 message
  | blake2b => Blake2.wide.digest message
  | blake2s => Blake2.narrow.digest message
  | ripemd160 => Ripemd.digest message
  | sm3 => Sm3.digest message
  | nothing => []

end Algorithm

/-- Digits up to an offset, or all of them. -/
def truncated (digits : List Char) (stop : Option Int) : String :=
  String.ofList (match stop with
    | none => digits
    | some stop => Text.slice digits 0 stop)

/-- The digest of a text. -/
def ofText (algorithm : Algorithm) (text : String) (stop : Option Int) : String :=
  truncated (hex (algorithm.digest (textBytes text))) stop

/-- The digest of a text given by its code points, if these have bytes. -/
def ofCodePoints (algorithm : Algorithm) (codes : List CodePoint) (stop : Option Int) :
    Except Unencodable String := do
  let message ← Text.encode codes
  return truncated (hex (algorithm.digest message)) stop

/-- The digest that texts are told apart by.  It is taken of the code points, and fails where half
of a surrogate pair stands on its own. -/
def contentHash (codes : List CodePoint) : Except Unencodable String :=
  ofCodePoints .sha256 codes none

end SourceView.Digest
