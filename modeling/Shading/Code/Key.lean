import Shading.Options
import Shading.Resource.Registry

/-!
# Keys of compiled code

The key of a compile: a digest of everything that its output depends on.

Main definitions:

- `Fragment.cacheKey` is the key of a fragment, `Distribution.cacheKey` that of a
  distribution.
-/

namespace Shading

/-- The generator to which keys belong. -/
def generatorTag : String := "node-forge-codegen/1"

/-- What the output of a compile depends on: the fragment, its resources, and the options
that change the code. -/
def Fragment.keyContent (f : Fragment) (resources : ResourceMap) (target : TargetKind)
    (o : Options) : Json :=
  .object [
    ("generator", .string generatorTag),
    ("target", .ofNamed target),
    ("function", .string f.name),
    ("content_hash", .string f.contentHash.hex),
    ("resources", ResourceMap.toJson resources),
    ("target_arch", .ofNat o.targetArch),
    ("output_format", .ofNamed o.outputFormat),
    ("context", .ofNamed f.context),
    ("num_texture_spaces", .ofNat o.numTextureSpaces),
    ("num_texture_results", .ofNat o.numTextureResults),
    ("internal_space", .ofNamed o.internalSpace),
    ("opt_level", .ofNat o.optLevel),
    ("fast_math", .bool o.fastMath),
    ("enable_exceptions", .bool o.enableExceptions),
    ("enable_ro_segment", .bool o.enableRoSegment),
    ("call_mode", .ofNamed o.texLookupCallMode),
    ("map_strings_to_ids", .bool o.mapStringsToIds)]

/-- The key of a fragment. -/
def Fragment.cacheKey (f : Fragment) (resources : ResourceMap) (target : TargetKind)
    (o : Options) : Digest :=
  Digest.ofText (f.keyContent resources target o).text

/-- The key of a distribution: the keys of its fragments, in order. -/
def Distribution.cacheKey (d : Distribution) (resources : DistributionResources)
    (target : TargetKind) (o : Options) : Digest :=
  let aux := (d.aux.zip resources.aux).flatMap fun (f, map) => (f.cacheKey map target o).bytes
  Digest.of (Bytes.ofText "df" ++ (d.main.cacheKey resources.main target o).bytes ++ aux)

end Shading
