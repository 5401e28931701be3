import VariantGraph.Text
/-!
# Platforms: operating systems, architectures and build targets

Names are the ones used in conditions and as variation values. `Os.parse_name` and
`Arch.parse_name` say that reading a name back gives the same platform.

| here | there (crates/lib/src) |
| --- | --- |
| `Os` | `Os` (platform/os.rs:9-60) |
| `Arch` | `Arch` (platform/arch.rs:9-60) |
| `Target`, `Target.triple` | `Target`, `triple` (platform/mod.rs:14-38) |
-/
namespace VariantGraph

/-- Why a platform name was refused. -/
inductive PlatformError where
  | unknownArch (text : String)
  | unknownOs (text : String)
  deriving DecidableEq, Repr

def PlatformError.message : PlatformError → String
  | .unknownArch text => "unknown architecture " ++ Text.quoted text
  | .unknownOs text => "unknown operating system " ++ Text.quoted text

/-- Operating systems a module can be built for. -/
inductive Os where
  | android | linux | darwin | windows
  deriving DecidableEq, Repr

namespace Os

def name : Os → String
  | android => "android"
  | linux => "linux"
  | darwin => "darwin"
  | windows => "windows"

def all : List Os := [android, linux, darwin, windows]

def parse (text : String) : Except PlatformError Os :=
  match all.find? (·.name = text) with
  | some os => .ok os
  | none => .error (.unknownOs text)

/-- Whether what is built for this system runs on a build machine. -/
def isHost (os : Os) : Bool := os ≠ android

theorem parse_name (os : Os) : parse os.name = .ok os := by cases os <;> rfl

end Os

/-- Processor architectures a module can be built for. -/
inductive Arch where
  | arm | arm64 | x86 | x86_64 | riscv64
  deriving DecidableEq, Repr

namespace Arch

def name : Arch → String
  | arm => "arm"
  | arm64 => "arm64"
  | x86 => "x86"
  | x86_64 => "x86_64"
  | riscv64 => "riscv64"

def all : List Arch := [arm, arm64, x86, x86_64, riscv64]

def parse (text : String) : Except PlatformError Arch :=
  match all.find? (·.name = text) with
  | some arch => .ok arch
  | none => .error (.unknownArch text)

theorem parse_name (arch : Arch) : parse arch.name = .ok arch := by cases arch <;> rfl

end Arch

/-- A system together with an architecture. -/
structure Target where
  os : Os
  arch : Arch
  deriving DecidableEq, Repr

/-- The written form of a target, such as `linux-x86_64`. -/
def Target.triple (target : Target) : String := target.os.name ++ "-" ++ target.arch.name

end VariantGraph
