import VibeLens.Datum.Record

set_option autoImplicit false

/-!
Settings of a workspace. Every field has a default, and a key that is not known is a fault.
-/

namespace VibeLens

structure Checking where
  enabled : Bool
  /-- The time allowed for one run, in seconds. -/
  timeout : Double
  /-- How many bytes of error text are accepted from one run. -/
  outputLimit : Nat
  runSubcommand : Bool
  deriving DecidableEq, Repr

structure Settings where
  executable : String
  server : String
  outputDir : String
  /-- Patterns for the files to take; with none, all are taken. -/
  includes : List String
  excludes : List String
  checking : Checking
  deriving DecidableEq, Repr

namespace Checking

def default : Checking := ⟨true, Double.ofNat 5, 1048576, true⟩

def keys : List String := ["enabled", "timeout_seconds", "max_output_bytes", "run_subcommand"]

def ofDatum : Datum → Verdict Checking :=
  Datum.record "DiagnosticsConfig" fun ms =>
    (((((Verdict.valid Checking.mk).app
      (Datum.optional ms "enabled" default.enabled Datum.truth)).app
      (Datum.optional ms "timeout_seconds" default.timeout Datum.positiveDouble)).app
      (Datum.optional ms "max_output_bytes" default.outputLimit Datum.positive)).app
      (Datum.optional ms "run_subcommand" default.runSubcommand Datum.truth)).alongside
      (Datum.unknownKeys keys ms)

end Checking

namespace Settings

def default : Settings := ⟨"vibe", "vibe-lsp", ".vibe-outline", [], [], Checking.default⟩

def keys : List String :=
  ["executable_path", "lsp_path", "output_dir", "include", "exclude", "diagnostics"]

def ofDatum : Datum → Verdict Settings :=
  Datum.record "VibeConfig" fun ms =>
    (((((((Verdict.valid Settings.mk).app
      (Datum.optional ms "executable_path" default.executable Datum.string)).app
      (Datum.optional ms "lsp_path" default.server Datum.string)).app
      (Datum.optional ms "output_dir" default.outputDir Datum.string)).app
      (Datum.optional ms "include" default.includes (Datum.listOf Datum.string))).app
      (Datum.optional ms "exclude" default.excludes (Datum.listOf Datum.string))).app
      (Datum.optional ms "diagnostics" default.checking Checking.ofDatum)).alongside
      (Datum.unknownKeys keys ms)

end Settings
end VibeLens
