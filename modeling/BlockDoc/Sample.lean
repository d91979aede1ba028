import BlockDoc.Lineage

/-!
# A sample configuration

A root module and one called module, for trying out the conversion without a parser. There are a
variable, a data source, a security group with a dynamic block that expands twice, a module call and
an output.

## Main definitions

* `Sample.modules` — the modules
* `Sample.lineage` — their lineage
-/

namespace BlockDoc

namespace Sample

/-- A string as a typed value. -/
def text (s : String) : TypedValue := .string (.str s)

/-- A truth value as a typed value. -/
def truth (b : Bool) : TypedValue := .bool (.bool b)

/-- A natural number as a typed value. -/
def number (n : Nat) : TypedValue := .number (some (Text.intText n))

/-- Typed values in a tuple. -/
def tuple (items : List TypedValue) : TypedValue := .sequence .tuple (some items)

/-- An object with the given members. -/
def object (members : List (String × TypedValue)) : TypedValue :=
  .record .object (some (members.map fun m => (.str m.1, m.2)))

/-- An attribute with a value and an expression. -/
def attr (name : String) (value : TypedValue) (raw : String) : Attribute :=
  { name, value, raw }

/-- The source file of the root module. -/
def rootFile : String := "main.tf"

/-- The source file of the called module. -/
def infraFile : String := "infra/main.tf"

/-- The variable. -/
def region : Block where
  type := "variable"
  labels := ["region"]
  range := { filename := rootFile, startLine := 1, endLine := 4 }
  id := "var-region"
  attributes :=
    [{ name := "type", raw := "string" },
     attr "default" (text "us-east-1") "\"us-east-1\""]

/-- The data source. -/
def vpc : Block where
  type := "data"
  labels := ["aws_vpc", "main"]
  range := { filename := rootFile, startLine := 6, endLine := 8 }
  id := "data-vpc-main"
  attributes := [attr "default" (truth true) "true"]

/-- The addresses that the rules of the security group admit. -/
def anywhere : String := "0.0.0.0/0"

/-- The numbers of the services that the rules of the security group admit. -/
def services : List Nat := [80, 443]

/-- The template of the rules. -/
def template : Block where
  type := "dynamic"
  labels := ["ingress"]
  range := { filename := rootFile, startLine := 13, endLine := 20 }
  attributes :=
    [attr "for_each"
      (tuple (services.map fun n => object [("port", number n), ("cidr", text anywhere)]))
      "var.ingress_rules"]

/-- The rule for the service of a number. -/
def ingress (service : Nat) : Block where
  type := "ingress"
  range := { filename := rootFile, startLine := 14, endLine := 19 }
  attributes :=
    [attr "from_port" (number service) "ingress.value.port",
     attr "to_port" (number service) "ingress.value.port",
     attr "protocol" (text "tcp") "\"tcp\"",
     attr "cidr_blocks" (tuple [text anywhere]) "[ingress.value.cidr]"]

/-- The security group. -/
def securityGroup : Block where
  type := "resource"
  labels := ["aws_security_group", "web"]
  range := { filename := rootFile, startLine := 10, endLine := 21 }
  id := "sg-web"
  attributes :=
    [attr "name" (text "web") "\"web\"",
     { name := "vpc_id", raw := "data.aws_vpc.main.id", references := ["data.aws_vpc.main"] }]
  children := template :: services.map ingress

/-- The module call. -/
def infraCall : Block where
  type := "module"
  labels := ["infra"]
  range := { filename := rootFile, startLine := 23, endLine := 26 }
  id := "module-infra"
  attributes :=
    [attr "source" (text "./infra") "\"./infra\"",
     { name := "region", value := text "us-east-1", raw := "var.region",
       references := ["var.region"] }]

/-- The output. -/
def groupOutput : Block where
  type := "output"
  labels := ["security_group_id"]
  range := { filename := rootFile, startLine := 28, endLine := 30 }
  attributes :=
    [{ name := "value", raw := "aws_security_group.web.id",
       references := ["aws_security_group.web"] }]

/-- The bucket in the called module. -/
def bucket : Block where
  type := "resource"
  labels := ["aws_s3_bucket", "main"]
  range := { filename := infraFile, startLine := 1, endLine := 7 }
  id := "s3-main"
  attributes :=
    [attr "bucket" (text "infra-artifacts") "\"infra-artifacts\"",
     attr "force_destroy" (truth false) "false"]
  children :=
    [{ type := "versioning"
       range := { filename := infraFile, startLine := 4, endLine := 6 }
       attributes := [attr "enabled" (truth true) "true"] }]

/-- The blocks of the root module, the module call with its key among them. -/
def root : Module :=
  ⟨[⟨0, region⟩, ⟨1, vpc⟩, ⟨2, securityGroup⟩, ⟨3, infraCall⟩, ⟨4, groupOutput⟩]⟩

/-- The blocks of the called module. -/
def infra : Module := ⟨[⟨5, bucket⟩]⟩

/-- The modules, the root module first. -/
def modules : List Module := [root, infra]

/-- The called module is below the module call. -/
def lineage : Lineage := [(5, ⟨3, infraCall⟩)]

end Sample

end BlockDoc
