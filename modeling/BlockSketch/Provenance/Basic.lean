import BlockSketch.Provenance.Sha256
import BlockSketch.Shape.Catalogue

/-
Where a sketch comes from: digests of the document and of the catalogue, and the version of the
compiler.
-/
namespace BlockSketch

def version : String := "0.3.0"

def Catalogue.fingerprint (c : Catalogue) : String := Sha256.hexOfText c.canonicalText

structure Provenance where
  sourceHash : String
  catalogueFingerprint : String
  compilerVersion : String
  deriving DecidableEq, Repr

namespace Provenance

def of (source : String) (c : Catalogue) : Provenance :=
  ⟨Sha256.hexOfText source, c.fingerprint, version⟩

def text (p : Provenance) : String :=
  "\x7b\n  \"source_hash\": \"" ++ p.sourceHash ++ "\",\n  \"registry_fingerprint\": \"" ++
    p.catalogueFingerprint ++ "\",\n  \"compiler_version\": \"" ++ p.compilerVersion ++ "\"\n\x7d\n"

end Provenance
end BlockSketch
