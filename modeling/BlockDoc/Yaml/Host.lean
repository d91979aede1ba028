import BlockDoc.Host
import BlockDoc.Yaml.Reader

/-!
# The plain host

## Main definitions

* `Host.plain` — a host that reads YAML texts by `Yaml.read`
-/

namespace BlockDoc

/-- The fault of a host that corresponds to a fault of the reader. -/
def Yaml.Fault.ofHost : Yaml.Fault → YamlFault
  | .malformed => .malformed
  | .oversized digits => .noValue (oversizedText digits)
  | .emptyNumeral base => .noValue (emptyIntegerText base)
  | .date => .foreign

/-- A host on which all texts can be gone through. To this host, YAML texts beyond what `Yaml.read`
understands are malformed, and dates are foreign. -/
def Host.plain : Host where
  readYaml cs := (Yaml.read cs).mapError Yaml.Fault.ofHost
  reaches _ := true

end BlockDoc
