import Stencil.Json.Basic
import Stencil.Options.Basic
/-!
# Writing options

Options as JSON, under the names by which a patch sets them.
-/
namespace Stencil

namespace Options

def toJson (o : Options) : Json :=
  .object [
    ("delimiters", .object [("start", .string (String.ofList o.delimiters.start)),
      ("stop", .string (String.ofList o.delimiters.stop))]),
    ("reporting", .int o.reporting),
    ("style", .string o.style.name),
    ("halt_on_error", .bool o.haltOnError),
    ("full_cache_ttl", .int o.fullTtl),
    ("partial_cache_ttl", .int o.partialTtl),
    ("output", .bool o.output),
    ("output_format", .list (o.outputFormat.map fun token => .string token.name)),
    ("output_ext", .string o.outputExt),
    ("output_dir", .string (String.ofList o.outputDir)),
    ("force_full_render", .bool o.forceFull),
    ("code", .bool o.code),
    ("name", (o.name.map Json.string).getD .null),
    ("use_absolute_paths", .bool o.absolutePaths),
    ("auto_repair", .bool o.autoRepair)]

end Options

end Stencil
